import SchemaLang.Proofs.Cursor.Routine

namespace SchemaLang

open Reader

variable {track : Track} {start c : Cursor} {level taken rank : Nat} {gain : Int}
variable {call : {β : Type} → Routine β → Walk β} {imported : List String}

namespace Follows

theorem fieldName (h : Stands track start level taken gain c) :
    Follows track start level (taken + 1) (gain + 16) Walk.fieldName c
      (reading Reader.fieldName (track.ahead c.pos)) := by
  rw [reading_fieldName]
  refine .take h (fun t ht => ?_) fun t => ?_
  · simp [ht, Token.isWord, Token.hasWordKind]
  · by_cases hw : t.isWord
    · simp only [if_pos hw]
      exact .next fun c h => .pure h (by omega)
    · simp only [if_neg hw]
      exact .refused

theorem arrowAfter (key : Token) (value : Literal) (h : Stands track start level taken gain c) :
    Follows track start level taken gain (Walk.arrowAfter key value) c
      (Reader.arrowAfter key value (track.ahead c.pos)) :=
  .ifNext h (by decide) (fun _ _ h => .pure h (by omega)) fun _ => .refuse h.toReached rfl

theorem hashKey (h : Stands track start level taken gain c) :
    Follows track start level (taken + 1) (gain + 16) Walk.hashKey c
      (reading Reader.hashKey (track.ahead c.pos)) := by
  rw [reading_hashKey]
  refine .take h (fun t ht => ?_) fun t => ?_
  · simp only [ht]
  · cases t.kind with
    | label => exact .next fun c h => .pure h (by omega)
    | string => exact .next fun c h => .arrowAfter t _ h
    | symbol => exact .next fun c h => .arrowAfter t _ h
    | _ => exact .refused

theorem indexReference {t : Token} {rest : List Token} (hc : track.ahead start.pos = t :: rest) :
    Follows track start 0 1 3 Walk.indexReference start
      (Reading.ifNext (.mark .leftParen) (fun _ => do
        let name ← reading Reader.symbol
        let _ ← reading (Reader.expect (.mark .rightParen))
        pure (.index name)) (Reading.refuseAt (some t) .expectedExpression) rest) := by
  have h := Stands.refl track start
  refine .kindAfter ?_
  rw [(Track.ahead_of_cons hc).2]
  by_cases hk : firstKind rest = .mark .leftParen
  · cases rest with
    | nil => cases hk
    | cons u rest =>
      rw [if_pos hk, Reading.ifNext_of_eq hk]
      refine .advance h hc fun c hc h => .pass h hc fun c h => ?_
      refine .bind (.symbol h) fun name c h => ?_
      exact .bind (.expect h (by decide)) fun _ c h => .pure h (by omega)
  · rw [if_neg hk, Reading.ifNext_of_ne hk]
    exact .refuse h.toReached hc

end Follows

/-- What is left of a subtraction shows at the token at the cursor. -/
theorem startsWithSigned_tokenAt (pos : Nat) :
    startsWithSigned [track.tokenAt pos] = startsWithSigned (track.ahead pos) := by
  cases hc : track.ahead pos with
  | nil => simp [startsWithSigned, Track.kind_of_ahead_nil hc]
  | cons t rest =>
    rw [(Track.ahead_of_cons hc).1]
    rfl

namespace Answers

theorem expression (answers : Answers track start rank call)
    (h : Stands track start level taken gain c)
    (may : (0 < taken ∨ 3 < rank) ∧ 4 ≤ rank + gain) :
    Follows track start level (taken + 1) (gain - 2) (Walk.expression call imported) c
      (reading (levels imported (track.limit - (start.depth + level))).expression
        (track.ahead c.pos)) := by
  have rank : (Routine.climb imported 0).rank = 3 := rfl
  have gained : (Routine.climb imported 0).gain = -2 := rfl
  refine (answers.calls (.climb imported 0) h ⟨by simp, may.1, ?_⟩).weaken ⟨Nat.le_refl _, ?_⟩
  · rw [rank]
    exact may.2
  · rw [gained]
    exact Int.le_refl _

theorem fieldNames (answers : Answers track start 0 call) :
    Follows track start 0 0 0 (Walk.fieldNames call) start
      (reading Reader.fieldNames (track.ahead start.pos)) := by
  rw [reading_fieldNames]
  have h := Stands.refl track start
  refine .ifNext h (by decide) (fun _ c h => ?_) fun _ => .pure h (by simp)
  refine .bind (.fieldName h) fun name c h => ?_
  refine .bind (answers.calls .fieldNames h (by simp)) fun names c h => ?_
  exact .pure h (by simp)

theorem inputPath (answers : Answers track start 1 call)
    (h : Stands track start 0 1 16 c) :
    Follows track start 0 1 16 (Walk.inputPath call) c
      (reading Reader.inputPath (track.ahead c.pos)) := by
  rw [reading_inputPath]
  refine .ifNext h (by decide) (fun _ c h => ?_) fun _ => .refuse h.toReached rfl
  refine .bind (.fieldName h) fun name c h => ?_
  refine .bind (answers.calls .fieldNames h (by simp)) fun names c h => ?_
  exact .pure h (by simp)

section Items

variable (answers : Answers track start 4 call)
include answers

theorem keyedArgument {t : Token} {rest : List Token} (earlier : List String)
    (hc : track.ahead start.pos = t :: rest) :
    Follows track start 0 1 (-2) (Walk.keyedArgument call imported earlier) start
      (reading (Reader.keyedArgument (levels imported (track.limit - start.depth)) earlier)
        (track.ahead start.pos)) := by
  rw [reading_keyedArgument]
  refine .take_of_cons (.refl track start) hc ?_
  by_cases hm : t.raw ∈ earlier
  · simp only [if_pos hm]
    exact .refused
  · simp only [if_neg hm]
    refine .next fun c h => .bind (answers.expression h (by simp)) fun value c h => ?_
    exact .pure h (by simp)

theorem argument (earlier : List Argument) :
    Follows track start 0 1 (-2) (Walk.argument call imported earlier) start
      (reading (Reader.argument (levels imported (track.limit - start.depth)) earlier)
        (track.ahead start.pos)) := by
  rw [reading_argument, Reading.look_bind]
  refine .current ?_
  rw [Track.kind_tokenAt]
  by_cases hk : firstKind (track.ahead start.pos) = .label
  · obtain ⟨t, rest, hc, _⟩ := Track.exists_cons_of_kind hk (by decide)
    rw [if_pos hk, if_pos hk]
    exact .bind (answers.keyedArgument _ hc) fun q c h => .pure h (by simp)
  · rw [if_neg hk, if_neg hk]
    by_cases hp : (!(Argument.keys earlier).isEmpty) = true
    · rw [if_pos hp, if_pos hp]
      exact .refuse (Stands.refl track start).toReached rfl
    · rw [if_neg hp, if_neg hp]
      refine .bind (answers.expression (.refl track start) (by simp)) fun value c h => ?_
      exact .pure h (by simp)

theorem importArgument (function : String) (earlier : List (String × Expr)) :
    Follows track start 0 1 (-2) (Walk.importArgument call imported function earlier) start
      (reading (Reader.importArgument (levels imported (track.limit - start.depth)) function
        earlier) (track.ahead start.pos)) := by
  rw [reading_importArgument, Reading.look_bind]
  refine .current ?_
  rw [Track.kind_tokenAt]
  by_cases hk : firstKind (track.ahead start.pos) = .label
  · obtain ⟨t, rest, hc, _⟩ := Track.exists_cons_of_kind hk (by decide)
    rw [if_pos hk, if_pos hk]
    exact answers.keyedArgument _ hc
  · rw [if_neg hk, if_neg hk]
    exact .refuse (Stands.refl track start).toReached rfl

theorem hashPair :
    Follows track start 0 1 (-2) (Walk.hashPair call imported) start
      (reading (Reader.hashPair (levels imported (track.limit - start.depth)))
        (track.ahead start.pos)) := by
  rw [reading_hashPair]
  refine .bind (.hashKey (.refl track start)) fun key c h => ?_
  refine .bind (answers.expression h (by simp)) fun value c h => ?_
  exact .pure h (by simp)

theorem item {α : Type} (kind : Item α) (earlier : List α) :
    Follows track start 0 1 (-2) (Walk.item call imported kind earlier) start
      (reading (itemReader (levels imported (track.limit - start.depth)) kind earlier)
        (track.ahead start.pos)) := by
  cases kind with
  | argument => exact answers.argument earlier
  | importArgument function => exact answers.importArgument function earlier
  | element => exact answers.expression (.refl track start) (by simp)
  | pair => exact answers.hashPair

theorem items {α : Type} (kind : Item α) (earlier : List α) :
    Follows track start 0 1 (-3) (Walk.items call imported kind earlier) start
      (routineReading (track.limit - start.depth) (.items imported kind earlier)
        (track.ahead start.pos)) := by
  have hclose : kind.close ≠ .eof := by cases kind <;> nofun
  refine .separated (.refl track start) hclose (answers.item kind earlier) (fun a c h => ?_)
    (by simp) (by simp)
  exact (answers.calls (.items imported kind (a :: earlier)) h (by simp)).weaken (by simp)

end Items

theorem arrayLiteral (answers : Answers track start 0 call)
    (opens : firstKind (track.ahead start.pos) = .mark .leftBracket) :
    Follows track start 0 1 5 (Walk.arrayLiteral call imported) start
      (routineReading (track.limit - start.depth) (.arrayLiteral imported)
        (track.ahead start.pos)) := by
  refine .skip (.refl track start) (by decide) opens fun c h => ?_
  refine .bind (answers.calls (.items imported .element []) h (by simp)) fun es c h => ?_
  exact .pure h (by simp)

theorem hashLiteral (answers : Answers track start 0 call)
    (opens : firstKind (track.ahead start.pos) = .mark .leftBrace) :
    Follows track start 0 1 5 (Walk.hashLiteral call imported) start
      (routineReading (track.limit - start.depth) (.hashLiteral imported)
        (track.ahead start.pos)) := by
  refine .skip (.refl track start) (by decide) opens fun c h => ?_
  refine .bind (answers.calls (.items imported .pair []) h (by simp)) fun pairs c h => ?_
  exact .pure h (by simp)

section Primary

variable (answers : Answers track start 1 call)
include answers

theorem named (name : String) (h : Stands track start 0 1 16 c) :
    Follows track start 0 1 3 (Walk.named call imported name) c
      (reading (Reader.named imported (levels imported (track.limit - start.depth)) name)
        (track.ahead c.pos)) := by
  rw [reading_named]
  refine .ifNext h (by decide) (fun _ c h => ?_) fun _ => .pure h (by simp)
  by_cases href : name = "ref"
  · rw [if_pos href, if_pos href]
    refine .bind (.symbol h) fun target c h => ?_
    exact .bind (.expect h (by decide)) fun _ c h => .pure h (by simp)
  · rw [if_neg href, if_neg href]
    by_cases hm : name ∈ imported
    · rw [if_pos hm, if_pos hm]
      refine .bind (answers.calls (.items imported (.importArgument name) []) h (by simp))
        fun args c h => ?_
      exact .pure h (by simp)
    · rw [if_neg hm, if_neg hm]
      refine .bind (answers.calls (.items imported .argument []) h (by simp)) fun args c h => ?_
      exact .pure h (by simp)

theorem functionCall (h : Stands track start 0 1 16 c) :
    Follows track start 0 1 3 (Walk.functionCall call imported) c
      (reading (Reader.functionCall (levels imported (track.limit - start.depth)))
        (track.ahead c.pos)) := by
  rw [reading_functionCall]
  refine .bind (.expect h (by decide)) fun _ c h => ?_
  refine .bind (.symbol h) fun function c h => ?_
  refine .ifNext h (by decide) (fun _ c h => ?_) fun _ => ?_
  · refine .bind (answers.calls (.items imported .argument []) h (by simp)) fun args c h => ?_
    exact .pure h (by simp)
  · exact .bind (.expect h (by decide)) fun _ c h => .pure h (by simp)

theorem negated (h : Stands track start 0 1 16 c) :
    Follows track start 0 1 3 (Walk.within .expression (call (.operand imported))) c
      (reading (levels imported (track.limit - start.depth)).negated (track.ahead c.pos)) := by
  have hdepth : c.depth = start.depth := h.depth
  refine .within h (fun hd => ?_) fun hd h => ?_
  · rw [Nat.sub_eq_zero_of_le (hdepth ▸ hd)]
    rfl
  · have room : track.limit - start.depth = track.limit - (start.depth + 1) + 1 := by omega
    rw [room]
    exact (answers.calls (.operand imported) h (by simp)).weaken (by simp)

theorem primary :
    Follows track start 0 1 3 (Walk.primary call imported) start
      (reading (Reader.primary imported (levels imported (track.limit - start.depth)))
        (track.ahead start.pos)) := by
  have h := Stands.refl track start
  rw [reading_primary]
  refine .current ?_
  cases hc : track.ahead start.pos with
  | nil =>
    simp only [Track.kind_of_ahead_nil hc]
    exact .refuse h.toReached hc
  | cons t rest =>
    rw [(Track.ahead_of_cons hc).1, Reading.take]
    split
    · next hk =>
      simp only [primaryStep, hk, Walk.integer, intStep]
      cases Decimal.readInt64? (digits t) with
      | none => exact .advance h hc fun c _ h => .refuseAt h.toReached
      | some n => exact .pass h hc fun c h => .pure h (by simp)
    · next hk =>
      simp only [primaryStep, hk, Walk.float, floatStep]
      cases Decimal.readFloat? (digits t) with
      | none => exact .advance h hc fun c _ h => .refuseAt h.toReached
      | some x => exact .pass h hc fun c h => .pure h (by simp)
    · next hk => simp only [primaryStep, hk]; exact .pass h hc fun c h => .pure h (by simp)
    · next hk => simp only [primaryStep, hk]; exact .pass h hc fun c h => .pure h (by simp)
    · next hk => simp only [primaryStep, hk]; exact .pass h hc fun c h => .pure h (by simp)
    · next hk =>
      by_cases hinf : t.raw = "Float::INFINITY"
      · simp only [primaryStep, hk, if_pos hinf]
        exact .pass h hc fun c h => .pure h (by simp)
      · simp only [primaryStep, hk, if_neg hinf]
        exact .refuse h.toReached hc
    · next hk =>
      simp only [primaryStep, hk]
      exact .pass h hc fun c h => .bind (answers.negated h) fun e c h => .pure h (by simp)
    · next hk => simp only [primaryStep, hk]; exact .pass h hc fun c h => (answers.inputPath h).weaken (by simp)
    · next hk => simp only [primaryStep, hk]; exact .pass h hc fun c h => answers.named t.raw h
    · next hk => simp only [primaryStep, hk]; exact .pass h hc fun c h => answers.functionCall h
    · next hk => simp only [primaryStep, hk]; exact .indexReference hc
    · next hk =>
      simp only [primaryStep, hk]
      refine .pass h hc fun c h => .bind (answers.expression h (by simp)) fun e c h => ?_
      exact .bind (.expect h (by decide)) fun _ c h => .pure h (by simp)
    · next hk =>
      have literal := answers.calls (.arrayLiteral imported) h (by simp [hc, firstKind, hk])
      rw [hc, routineReading, Reading.expect_bind hk] at literal
      simp only [primaryStep, hk]
      exact literal.weaken (by simp)
    · next hk =>
      have literal := answers.calls (.hashLiteral imported) h (by simp [hc, firstKind, hk])
      rw [hc, routineReading, Reading.expect_bind hk] at literal
      simp only [primaryStep, hk]
      exact literal.weaken (by simp)
    · simp only [primaryStep, *]; exact .refuse h.toReached hc

end Primary

theorem indices (answers : Answers track start 0 call) (e : Expr) :
    Follows track start 0 0 0 (Walk.indices call imported e) start
      (reading (Reader.indices (levels imported (track.limit - start.depth)) e)
        (track.ahead start.pos)) := by
  rw [reading_indices]
  have h := Stands.refl track start
  refine .ifNext h (by decide) (fun _ c h => ?_) fun _ => .pure h (by simp)
  refine .bind (answers.expression h (by simp)) fun i c h => ?_
  refine .bind (.expect h (by decide)) fun _ c h => ?_
  exact (answers.calls (.indices imported _) h (by simp)).weaken (by simp)

theorem operand (answers : Answers track start 2 call) :
    Follows track start 0 1 1 (Walk.operand call imported) start
      (reading (Reader.operand imported (levels imported (track.limit - start.depth)))
        (track.ahead start.pos)) := by
  rw [reading_operand]
  refine .bind (answers.calls (.primary imported) (.refl track start) (by simp)) fun e c h => ?_
  exact (answers.calls (.indices imported e) h (by simp)).weaken (by simp)

theorem chain (answers : Answers track start 0 call) (least : Nat) (left : Expr) :
    Follows track start 0 0 0 (Walk.chain call imported least left) start
      (reading (Reader.chain (levels imported (track.limit - start.depth)) least left)
        (track.ahead start.pos)) := by
  refine .current ?_
  rw [Track.kind_tokenAt]
  by_cases hop : ∃ op, firstKind (track.ahead start.pos) = .operator op
  · obtain ⟨op, hk⟩ := hop
    obtain ⟨t, rest, hc, ht⟩ := Track.exists_cons_of_kind hk nofun
    simp only [hk]
    rw [hc, reading_chain_of_operator _ least left ht]
    split
    · exact .value (.refl track start) hc (by simp)
    · refine .pass (.refl track start) hc fun c h => ?_
      refine .bind (answers.calls (.climb imported op.rightPrecedence) h (by simp))
        fun right c h => ?_
      exact (answers.calls (.chain imported least _) h (by simp)).weaken (by simp)
  · rw [reading_chain_of_ne _ least left fun op hk => hop ⟨op, hk⟩]
    split
    · next op hk => exact absurd ⟨op, hk⟩ hop
    · exact .pure (.refl track start) (by simp)

theorem climb (answers : Answers track start 3 call) (least : Nat) :
    Follows track start 0 1 (-1) (Walk.climb call imported least) start
      (reading ((levels imported (track.limit - start.depth)).climb least)
        (track.ahead start.pos)) := by
  refine .within (.refl track start) (fun hd => ?_) fun hd h => ?_
  · rw [Nat.sub_eq_zero_of_le hd]
    rfl
  · have room : track.limit - start.depth = track.limit - (start.depth + 1) + 1 := by omega
    rw [room]
    show Follows track start (0 + 1) 1 (-1) _ _ (reading (Reader.climb imported _ least) _)
    rw [reading_climb]
    refine .bind (answers.calls (.operand imported) h (by simp)) fun left c h => ?_
    refine .bind (answers.calls (.chain imported least left) h (by simp)) fun e c h => ?_
    refine .current ?_
    rw [Reading.look_bind, startsWithSigned_tokenAt]
    split
    · exact .refuse h.toReached rfl
    · exact .pure h (by simp)

end Answers

end SchemaLang
