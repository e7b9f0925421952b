import SchemaLang.Proofs.Cursor.Schema

namespace SchemaLang

open Reader

variable {α : Type} {track : Track} {start c : Cursor}

/-- What one call does, if the calls in it do what they should. -/
theorem Answers.body {call : {β : Type} → Routine β → Walk β} {r : Routine α}
    (answers : Answers track start r.rank call)
    (opens : ∀ kind ∈ r.opening?, firstKind (track.ahead start.pos) = kind) :
    Follows track start 0 r.least (r.gain + 1) (r.body call) start
      (routineReading (track.limit - start.depth) r (track.ahead start.pos)) := by
  cases r with
  | schema => exact answers.schema
  | imports => exact answers.imports
  | importDecl => exact answers.importDecl (opens _ rfl)
  | importNames => exact answers.importNames
  | inputs array style => exact answers.inputs array style
  | inputDecl inArray => exact answers.inputDecl inArray
  | inputOptions type options => exact answers.inputOptions type options
  | domain => exact answers.domain
  | domainValues earlier => exact answers.domainValues earlier
  | declarations imported => exact answers.declarations
  | value imported inline => exact answers.value inline (opens _ rfl)
  | trait imported => exact answers.trait (opens _ rfl)
  | caseList imported => exact answers.caseList
  | onCase imported => exact answers.onCase (opens _ rfl)
  | moreExpressions imported => exact answers.moreExpressions
  | climb imported least => exact answers.climb least
  | operand imported => exact answers.operand
  | primary imported => exact answers.primary
  | indices imported e => exact answers.indices e
  | chain imported least left => exact answers.chain least left
  | fieldNames => exact answers.fieldNames
  | arrayLiteral imported => exact answers.arrayLiteral (opens _ rfl)
  | hashLiteral imported => exact answers.hashLiteral (opens _ rfl)
  | items imported kind earlier => exact answers.items kind earlier

namespace Routine

theorem runFor_succ {n steps : Nat} {r : Routine α} (h : c.steps = steps + 1) :
    runFor (n + 1) r track c = r.body (fun inner track c' =>
      if c.pos < c'.pos ∨ inner.rank < r.rank then runFor n inner track c'
      else .error .stalled c') track { c with steps } := by
  simp only [runFor, h]

/-- A call that pays for itself follows its reader. -/
theorem runFor_follows (n : Nat) : ∀ {α : Type} (r : Routine α) (c : Cursor), c.steps ≤ n →
    (∀ kind ∈ r.opening?, firstKind (track.ahead c.pos) = kind) → r.rank + 1 ≤ track.spare c →
    Follows track c 0 r.least r.gain (runFor n r) c
      (routineReading (track.limit - c.depth) r (track.ahead c.pos)) := by
  induction n with
  | zero =>
    intro α r c hn _ hspare
    rw [Track.spare] at hspare
    omega
  | succ n ih =>
    intro α r c hn opens hspare
    rw [Track.spare] at hspare
    obtain ⟨steps, hsteps⟩ : ∃ steps, c.steps = steps + 1 := ⟨c.steps - 1, by omega⟩
    have paid : Stands track c 0 0 (-1) { c with steps } := by
      refine { Stands.refl track c with steps := ?_, spare := ?_ }
      · show steps ≤ c.steps
        omega
      · simp only [Track.spare]
        omega
    have answers : Answers track { c with steps } r.rank fun inner track c' =>
        if c.pos < c'.pos ∨ inner.rank < r.rank then runFor n inner track c'
        else .error .stalled c' := by
      refine ⟨by simp only [Track.spare]; omega, fun r' c' order hs opens' hspare' => ?_⟩
      have hs : c'.steps ≤ steps := hs
      exact (ih r' c' (by omega) opens' hspare').of_eq (if_pos order)
    have run := (Follows.after paid (answers.body opens)).of_eq (runFor_succ hsteps)
    exact run.weaken (by omega)

end Routine

theorem Track.ahead_length_le (track : Track) (pos : Nat) :
    (track.ahead pos).length ≤ track.tokens.length - pos := by
  rw [← List.length_drop]
  exact (List.takeWhile_prefix _).length_le

/-- How a run of a routine from one cursor to another should end. -/
structure Routine.EndsAt (track : Track) (r : Routine α) (c c' : Cursor) : Prop where
  forward : c.pos ≤ c'.pos
  inside : c'.pos ≤ track.tokens.length
  /-- None of the tokens that were passed stands for the end. -/
  clear : ∀ pos, c.pos ≤ pos → pos < c'.pos → (track.tokenAt pos).kind ≠ .eof
  /-- All levels that were opened are closed. -/
  level : c'.depth = c.depth
  /-- The reader of the routine has the same value and leaves over what is ahead, or it refuses the
  same token for the same cause. Where the routine takes a token, a value is had only behind one. -/
  outcome :
    (∃ a, r.run track c = .ok a c' ∧ (r.takes = true → c.pos < c'.pos) ∧
      routineReading (track.limit - c.depth) r (track.ahead c.pos) =
        .ok (a, track.ahead c'.pos)) ∨
    ∃ fault : Fault, r.run track c = .error (.refused (fault.refusal (track.stopAt c.pos))) c' ∧
      routineReading (track.limit - c.depth) r (track.ahead c.pos) = .error fault

/-- A run with sixteen steps for each token ahead, and as many more as the rank asks for. -/
theorem Routine.exists_endsAt {r : Routine α} (hpos : c.pos ≤ track.tokens.length)
    (opens : ∀ kind ∈ r.opening?, (track.tokenAt c.pos).kind = kind)
    (steps : 16 * (track.tokens.length - c.pos) + r.rank + 1 ≤ c.steps) :
    ∃ c', r.EndsAt track c c' := by
  have hlength := track.ahead_length_le c.pos
  rw [Track.kind_tokenAt] at opens
  have run := runFor_follows c.steps r c (Nat.le_refl _) opens (by rw [Track.spare]; omega)
  generalize hread : routineReading _ r _ = read at run
  cases run with
  | @read a c' hx stands =>
    refine ⟨c', stands.pos, stands.pos_le_length hpos, stands.clear, stands.depth,
      .inl ⟨a, hx, fun takes => ?_, hread⟩⟩
    have taken := stands.taken
    rw [least, if_pos takes] at taken
    exact taken
  | @refused fault c' hx reached =>
    exact ⟨c', reached.pos, reached.pos_le_length hpos, reached.clear, reached.depth,
      .inr ⟨fault, hx, hread⟩⟩

theorem Routine.rank_le (r : Routine α) : r.rank ≤ 4 := by cases r <;> simp

/-- The track of a list of tokens, without comments. -/
def Track.ofList (limit : Nat) (tokens : List Token) : Track where
  tokens := tokens.filter (·.kind ≠ .comment)
  stop := ⟨.eof, "", (tokens.getLast?.map Token.location).getD .start, none⟩
  stop_kind := rfl
  limit

/-- The end of a walk at a cursor, with a value or a refusal. -/
def Cursor.result (c : Cursor) : Except Refusal α → EStateM.Result Halt Cursor α
  | .ok a => .ok a c
  | .error refusal => .error (.refused refusal) c

theorem schema_run_eq {limit steps : Nat} {tokens : List Token} {c' : Cursor}
    (h : Routine.schema.EndsAt (.ofList limit tokens) ⟨0, 0, steps⟩ c') :
    Routine.schema.run (.ofList limit tokens) ⟨0, 0, steps⟩ =
      c'.result (Schema.ofTokensWithin limit tokens) := by
  have body : (Track.ofList limit tokens).ahead 0 = (Tokens.ofList tokens).body := rfl
  have stop : (Track.ofList limit tokens).stopAt 0 = (Tokens.ofList tokens).stop := rfl
  have limited : (Track.ofList limit tokens).limit - 0 = limit := rfl
  rw [Schema.ofTokensWithin, schema_eq_schemaReading]
  rcases h.outcome with ⟨s, run, -, read⟩ | ⟨fault, run, read⟩
  · rw [body, limited, routineReading] at read
    rw [run, read]
    rfl
  · rw [body, limited, routineReading] at read
    rw [run, read, stop]
    rfl

/-- Every routine makes its way, from wherever it may be called and with any number of levels open.
It does not pass the end, close a level that is not open, turn in a circle or run out of steps. A
schema is thus read from any list of tokens in a number of steps that is linear in their number. -/
theorem Routine.run_makes_way :
    (∀ (track : Track) {α : Type} (r : Routine α) (c : Cursor),
      c.pos ≤ track.tokens.length →
      (∀ kind ∈ r.opening?, (track.tokenAt c.pos).kind = kind) →
      16 * (track.tokens.length - c.pos) + 5 ≤ c.steps → ∃ c', r.EndsAt track c c') ∧
    ∀ (limit : Nat) (tokens : List Token) (steps : Nat), 16 * tokens.length + 1 ≤ steps →
      ∃ c', Routine.schema.EndsAt (.ofList limit tokens) ⟨0, 0, steps⟩ c' ∧
        Routine.schema.run (.ofList limit tokens) ⟨0, 0, steps⟩ =
          c'.result (Schema.ofTokensWithin limit tokens) := by
  constructor
  · intro track α r c hpos opens hsteps
    have hrank := r.rank_le
    exact exists_endsAt hpos opens (by omega)
  · intro limit tokens steps hsteps
    have hlength : (Track.ofList limit tokens).tokens.length ≤ tokens.length :=
      List.length_filter_le _ _
    have hend : ∃ c', Routine.schema.EndsAt (.ofList limit tokens) ⟨0, 0, steps⟩ c' := by
      refine exists_endsAt (Nat.zero_le _) (by simp) ?_
      simp only [Routine.rank]
      omega
    obtain ⟨c', ends⟩ := hend
    exact ⟨c', ends, schema_run_eq ends⟩

/-- Tokens with one for the end among them, which stands where a name should. -/
def Track.cut : Track where
  tokens := [⟨.keyword .input, "input", ⟨1, 1⟩, none⟩, ⟨.mark .dot, ".", ⟨1, 6⟩, none⟩,
    ⟨.eof, "", ⟨1, 7⟩, none⟩, ⟨.identifier, "price", ⟨2, 1⟩, none⟩]
  stop := ⟨.eof, "", ⟨2, 1⟩, none⟩
  stop_kind := rfl
  limit := Schema.nestingLimit

/-- A path that is cut short, with all levels open, and a schema of no tokens at all. -/
theorem Routine.run_makes_way_of_cut :
    (∃ c', (Routine.primary []).EndsAt .cut ⟨0, 128, 69⟩ c' ∧
      (Routine.primary []).run .cut ⟨0, 128, 69⟩ =
        .error (.refused ⟨⟨.eof, "", ⟨1, 7⟩, none⟩, .expectedField⟩) c') ∧
    ∃ c', Routine.schema.run (.ofList 128 []) ⟨0, 0, 1⟩ =
      .error (.refused ⟨⟨.eof, "", .start, none⟩, .missing (.keyword .schema)⟩) c' := by
  constructor
  · obtain ⟨c', ends⟩ := Routine.run_makes_way.1 .cut (.primary []) ⟨0, 128, 69⟩ (by decide)
      (by simp) (by decide)
    refine ⟨c', ends, ?_⟩
    have read : routineReading 0 (.primary []) (Track.cut.ahead 0) =
        .error ⟨none, .expectedField⟩ := rfl
    rcases ends.outcome with ⟨e, _, _, h⟩ | ⟨fault, run, h⟩
    · cases read.symm.trans h
    · cases read.symm.trans h
      exact run
  · obtain ⟨c', _, run⟩ := Routine.run_makes_way.2 128 [] 1 (by decide)
    exact ⟨c', run⟩

end SchemaLang
