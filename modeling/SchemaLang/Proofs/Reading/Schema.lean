import SchemaLang.Proofs.Grammar.Schema
import SchemaLang.Proofs.Reading.Expr
import SchemaLang.Proofs.Reading.Input

namespace SchemaLang.Reader

open Reading

theorem reading_importNames :
    reading importNames = ifNext (.mark .comma) (fun _ => do
      let kind ← look firstKind
      if kind = .label then pure []
      else do
        let name ← reading symbol
        let names ← reading importNames
        pure (name :: names)) (pure []) := by
  funext ts
  rw [reading, importNames]
  cases ts with
  | nil => rfl
  | cons t rest =>
    by_cases h : t.kind = .mark .comma
    · simp only [accept?, ifNext, if_pos h, look_bind]
      by_cases hl : firstKind rest = .label
      · simp only [if_pos hl]
        rfl
      · simp only [if_neg hl]
        apply reading_bind
        intro p
        exact reading_bind fun q => rfl
    · simp only [accept?, ifNext, if_neg h]
      rfl

def isFrom (t : Token) : Prop := t.kind = .label ∧ t.raw = "from"

instance (t : Token) : Decidable (isFrom t) := inferInstanceAs (Decidable (_ ∧ _))

theorem reading_fromLabel :
    reading fromLabel = take .missingSource fun t =>
      if isFrom t then .ok (pure ()) else .error .missingSource := by
  funext ts
  cases ts with
  | nil => rfl
  | cons t rest =>
    by_cases h : t.kind = .label ∧ t.raw = "from"
    · simp only [reading, fromLabel, take, if_pos h, if_pos (show isFrom t from h)]
      rfl
    · simp only [reading, fromLabel, take, if_neg h, if_neg (show ¬isFrom t from h)]
      rfl

theorem reading_modulePath :
    reading modulePath = take .expectedModule fun t =>
      if t.kind = .constant then .ok (pure t.raw) else .error .expectedModule := by
  funext ts
  cases ts with
  | nil => rfl
  | cons t rest =>
    by_cases h : t.kind = .constant
    · simp only [reading, modulePath, take, if_pos h]
      rfl
    · simp only [reading, modulePath, take, if_neg h]
      rfl

theorem reading_imports :
    reading imports = ifNext (.keyword .importWord) (fun t => do
      let name ← reading symbol
      let names ← reading importNames
      let _ ← reading fromLabel
      let source ← reading modulePath
      let more ← reading imports
      pure (⟨name :: names, source, t.location⟩ :: more)) (pure []) := by
  funext ts
  rw [reading, imports]
  cases ts with
  | nil => rfl
  | cons t rest =>
    by_cases h : t.kind = .keyword .importWord
    · simp only [accept?, ifNext, if_pos h]
      apply reading_bind
      intro p
      apply reading_bind
      intro q
      apply reading_bind
      intro r
      apply reading_bind
      intro s
      exact reading_bind fun u => rfl
    · simp only [accept?, ifNext, if_neg h]
      rfl

theorem reading_inputSection (limit : Nat) :
    reading (inputSection limit) = (do
      let _ ← reading (expect (.keyword .input))
      let _ ← reading (expect (.keyword .doWord))
      let inputs ← reading (inputs limit none)
      let _ ← reading (expect (.keyword .endWord))
      pure inputs) := by
  funext ts
  apply reading_bind
  intro p
  apply reading_bind
  intro q
  apply reading_bind
  intro r
  exact reading_bind fun s => rfl

theorem reading_moreExpressions (expr : Reader Expr) :
    reading (moreExpressions expr) = ifNext (.mark .comma) (fun _ => do
      let e ← reading expr
      let es ← reading (moreExpressions expr)
      pure (e :: es)) (pure []) := by
  funext ts
  rw [reading, moreExpressions]
  cases ts with
  | nil => rfl
  | cons t rest =>
    by_cases h : t.kind = .mark .comma
    · simp only [accept?, ifNext, if_pos h]
      apply reading_bind
      intro p
      exact reading_bind fun q => rfl
    · simp only [accept?, ifNext, if_neg h]
      rfl

theorem reading_onCase (expr : Reader Expr) :
    reading (onCase expr) = (do
      let first ← reading expr
      let more ← reading (moreExpressions expr)
      match more.getLast? with
      | none => refuse .missingResult
      | some result =>
        pure (.apply "cascade_and" ((first :: more.dropLast).map condition), result)) := by
  funext ts
  apply reading_bind
  intro p
  apply reading_bind
  intro q
  obtain ⟨more, rest, _⟩ := q
  cases h : more.getLast? with
  | none => simp only [h]; rfl
  | some result => simp only [h]; rfl

/-- What follows the word that starts a case. -/
def caseStep (expr : Reader Expr) (t : Token) : Except Cause (Reading (List (Expr × Expr))) :=
  match t.kind with
  | .keyword .on => .ok do
    let c ← reading (onCase expr)
    let cs ← reading (caseList expr)
    pure (c :: cs)
  | .keyword .base => .ok do
    let result ← reading expr
    let cs ← reading (caseList expr)
    pure ((.boolean true, result) :: cs)
  | .keyword .endWord => .ok (pure [])
  | _ => .error .expectedCase

theorem reading_caseList (expr : Reader Expr) :
    reading (caseList expr) = take .expectedCase (caseStep expr) := by
  funext ts
  rw [reading]
  cases ts with
  | nil => rw [caseList]; rfl
  | cons t rest =>
    rw [caseList, take]
    split
    · next h =>
      simp only [caseStep, h]
      apply reading_bind
      intro p
      exact reading_bind fun q => rfl
    · next h =>
      simp only [caseStep, h]
      apply reading_bind
      intro p
      exact reading_bind fun q => rfl
    · next h => simp only [caseStep, h]; rfl
    · simp only [caseStep, *]; rfl

/-- What follows the token after the name of a value. -/
def valueStep (expr : Reader Expr) (name : String) (t : Token) : Except Cause (Reading Expr) :=
  match t.kind with
  | .mark .comma => .ok (reading expr)
  | .keyword .doWord => .ok do
    let cases ← reading (caseList expr)
    pure (.cascade cases)
  | kind => .error (if kind.startsExpression then .missingComma name else .expectedBody name)

theorem reading_valueBody (expr : Reader Expr) (name : String) :
    reading (valueBody expr name) = take (.expectedBody name) (valueStep expr name) := by
  funext ts
  cases ts with
  | nil => rfl
  | cons t rest =>
    rw [reading, valueBody, take]
    split
    · next h => simp only [valueStep, h]; exact reading_last fun p => rfl
    · next h => simp only [valueStep, h]; exact reading_bind fun p => rfl
    · simp only [valueStep, *]; rfl

theorem reading_value (expr : Reader Expr) (inline : Bool) (location : Location) :
    reading (value expr inline location) = (do
      let name ← reading symbol
      let e ← reading (valueBody expr name)
      pure (.value ⟨name, e, inline, location⟩)) := by
  funext ts
  apply reading_bind
  intro p
  exact reading_bind fun q => rfl

theorem reading_trait (expr : Reader Expr) (location : Location) :
    reading (trait expr location) = (do
      let name ← reading symbol
      let _ ← reading (expect (.mark .comma))
      let e ← reading expr
      pure (.trait ⟨name, e, location⟩)) := by
  funext ts
  apply reading_bind
  intro p
  apply reading_bind
  intro q
  exact reading_bind fun r => rfl

/-- What follows the word that starts a declaration, or the end of the schema. -/
def declarationStep (expr : Reader Expr) (t : Token) :
    Except Cause (Reading (List Declaration)) :=
  if t.kind = .keyword .endWord then .ok (pure [])
  else (declaration expr t).map fun body => do
    let d ← reading body
    let ds ← reading (declarations expr)
    pure (d :: ds)

theorem reading_declarations (expr : Reader Expr) :
    reading (declarations expr) = take .unclosedSchema (declarationStep expr) := by
  funext ts
  rw [reading]
  cases ts with
  | nil => rw [declarations]; rfl
  | cons t rest =>
    rw [declarations, take, declarationStep]
    by_cases h : t.kind = .keyword .endWord
    · simp only [if_pos h]
      rfl
    · simp only [if_neg h]
      cases declaration expr t with
      | error cause => rfl
      | ok body =>
        apply reading_bind
        intro p
        exact reading_bind fun q => rfl

/-- A schema as a reading, which leaves nothing over. -/
def schemaReading (limit : Nat) : Reading Schema := do
  let _ ← reading (expect (.keyword .schema))
  let _ ← reading (expect (.keyword .doWord))
  let imports ← reading imports
  let inputs ← reading (inputSection limit)
  let decls ← reading (declarations (expression (imports.flatMap Import.names) limit))
  let empty ← look List.isEmpty
  if empty then pure (.ofParts imports inputs decls) else refuse .afterSchema

theorem schema_eq_schemaReading (limit : Nat) (ts : List Token) :
    schema limit ts = (schemaReading limit ts).map Prod.fst := by
  have step {α : Type} {m : List Token → Nat}
      {f : (ts : List Token) → Except Fault (Parsed α (m ts))} {ts : List Token}
      {g : Parsed α (m ts) → Except Fault Schema} {k : α → Reading Schema}
      (h : ∀ p, g p = (k p.value p.rest).map Prod.fst) :
      f ts >>= g = ((reading f >>= k) ts).map Prod.fst := by
    simp only [Reading.bind_apply, reading]
    cases f ts with
    | error e => rfl
    | ok p => exact h p
  rw [schema, schemaReading]
  apply step
  intro p
  apply step
  intro q
  apply step
  intro r
  apply step
  intro s
  apply step
  intro u
  obtain ⟨decls, rest, _⟩ := u
  rw [look_bind]
  by_cases h : rest.isEmpty = true
  · simp only [if_pos h]
    rfl
  · simp only [if_neg h]
    rfl

end SchemaLang.Reader
