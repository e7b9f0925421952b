import SchemaLang.Proofs.Cursor.Follow

namespace SchemaLang

open Reader

namespace Reader

def itemReader (inner : Level) : {α : Type} → Item α → List α → Reader α
  | _, .argument, earlier => argument inner earlier
  | _, .importArgument function, earlier => importArgument inner function earlier
  | _, .element, _ => inner.expression
  | _, .pair, _ => hashPair inner

/-- What a routine reads where some levels may still be opened. -/
def routineReading (room : Nat) : {α : Type} → Routine α → Reading α
  | _, .schema => schemaReading room
  | _, .imports => reading imports
  | _, .importDecl => do
    let t ← reading (expect (.keyword .importWord))
    let name ← reading symbol
    let names ← reading importNames
    let _ ← reading fromLabel
    let source ← reading modulePath
    pure ⟨name :: names, source, t.location⟩
  | _, .importNames => reading importNames
  | _, .inputs array style => reading (inputList (input (nestedInputs room)) array style)
  | _, .inputDecl inArray => reading (input (nestedInputs room) inArray)
  | _, .inputOptions type options => reading (inputOptions type options)
  | _, .domain => reading domain
  | _, .domainValues earlier =>
    reading (separated (.mark .rightBracket) (fun _ => domainLiteral) earlier)
  | _, .declarations imported => reading (declarations (expression imported room))
  | _, .value imported inline => do
    let t ← reading (expect (.keyword (if inline then .letWord else .value)))
    reading (value (expression imported room) inline t.location)
  | _, .trait imported => do
    let t ← reading (expect (.keyword .trait))
    reading (trait (expression imported room) t.location)
  | _, .caseList imported => reading (caseList (expression imported room))
  | _, .onCase imported => do
    let _ ← reading (expect (.keyword .on))
    reading (onCase (expression imported room))
  | _, .moreExpressions imported => reading (moreExpressions (expression imported room))
  | _, .climb imported least => reading ((levels imported room).climb least)
  | _, .operand imported => reading (operand imported (levels imported room))
  | _, .primary imported => reading (primary imported (levels imported room))
  | _, .indices imported e => reading (indices (levels imported room) e)
  | _, .chain imported least left => reading (chain (levels imported room) least left)
  | _, .fieldNames => reading fieldNames
  | _, .arrayLiteral imported => do
    let _ ← reading (expect (.mark .leftBracket))
    let es ← reading
      (separated (.mark .rightBracket) (fun _ => (levels imported room).expression) [])
    pure (.array es)
  | _, .hashLiteral imported => do
    let _ ← reading (expect (.mark .leftBrace))
    let pairs ← reading
      (separated (.mark .rightBrace) (fun _ => hashPair (levels imported room)) [])
    pure (.hash pairs)
  | _, .items imported item earlier =>
    reading (separated item.close (itemReader (levels imported room) item) earlier)

end Reader

namespace Routine

variable {α : Type}

/-- How many tokens a routine passes at least, when it ends with a value. -/
@[simp]
def least (r : Routine α) : Nat := if r.takes then 1 else 0

/-- How many more steps are to spare after a routine than before it. Where that is less than none, a
token that is passed before makes up for it. -/
@[simp]
def gain (r : Routine α) : Int := if r.takes then 4 - 2 * r.rank else -1 - r.rank

end Routine

/-- The routines that are called in a walk follow their readers, as far as they may be called: a
token has been passed or the rank falls, and there are steps for it. -/
structure Answers (track : Track) (start : Cursor) (rank : Nat)
    (call : {β : Type} → Routine β → Walk β) : Prop where
  spare : rank ≤ track.spare start
  follows : ∀ {β : Type} (r : Routine β) (c : Cursor), start.pos < c.pos ∨ r.rank < rank →
    c.steps ≤ start.steps → (∀ kind ∈ r.opening?, firstKind (track.ahead c.pos) = kind) →
    r.rank + 1 ≤ track.spare c →
    Follows track c 0 r.least r.gain (call r) c
      (routineReading (track.limit - c.depth) r (track.ahead c.pos))

variable {α : Type} {track : Track} {start c : Cursor} {level taken rank : Nat} {gain : Int}
variable {call : {β : Type} → Routine β → Walk β}

theorem Answers.calls (answers : Answers track start rank call) (r : Routine α)
    (h : Stands track start level taken gain c)
    (may : (∀ kind ∈ r.opening?, firstKind (track.ahead c.pos) = kind) ∧
      (0 < taken ∨ r.rank < rank) ∧ r.rank + 1 ≤ rank + gain) :
    Follows track start level (taken + r.least) (gain + r.gain) (call r) c
      (routineReading (track.limit - (start.depth + level)) r (track.ahead c.pos)) := by
  obtain ⟨opens, order, enough⟩ := may
  have spare := answers.spare
  have passed := h.taken
  have gained := h.spare
  rw [← h.depth]
  exact .after h (answers.follows r c (order.imp_left fun _ => by omega) h.steps opens (by omega))

end SchemaLang
