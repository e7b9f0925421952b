import SchemaLang.Proofs.Cursor.Routine

namespace SchemaLang

open Reader

variable {α : Type} {track : Track} {start c : Cursor} {level taken : Nat}
variable {gain : Int} {call : {β : Type} → Routine β → Walk β}

theorem Agree.integer (t : Token) (result : Int64 → α) :
    Agree track start level taken gain (taken + 1) (gain + 16) t
      ((Walk.integer t).map fun n => pure (result n)) (intStep t result) := by
  unfold Walk.integer intStep
  cases Decimal.readInt64? (digits t) with
  | none => exact .refused
  | some n => exact .next fun c h => .pure h (by omega)

theorem Agree.float (t : Token) (result : Float → α) :
    Agree track start level taken gain (taken + 1) (gain + 16) t
      ((Walk.float t).map fun x => pure (result x)) (floatStep t result) := by
  unfold Walk.float floatStep
  cases Decimal.readFloat? (digits t) with
  | none => exact .refused
  | some x => exact .next fun c h => .pure h (by omega)

theorem Agree.named (t : Token) (type : InputType) :
    Agree track start level taken gain (taken + 1) (gain + 16) t
      (.ok do
        let name ← Walk.symbol
        pure (type, name))
      (.ok do
        let name ← reading symbol
        pure (type, name)) :=
  .next fun c h => .bind (.symbol h) fun name c h => .pure h (by omega)

namespace Follows

theorem domainLiteral (h : Stands track start level taken gain c) :
    Follows track start level (taken + 1) (gain + 16) Walk.domainLiteral c
      (reading Reader.domainLiteral (track.ahead c.pos)) := by
  rw [reading_domainLiteral]
  refine .take h (fun t ht => by simp only [ht]) fun t => ?_
  unfold domainStep
  cases t.kind with
  | integer => exact .integer t Literal.integer
  | float => exact .float t Literal.float
  | string => exact .next fun c h => .pure h (by omega)
  | symbol => exact .next fun c h => .pure h (by omega)
  | boolean => exact .next fun c h => .pure h (by omega)
  | _ => exact .refused

theorem infinity (negative : Bool) (h : Stands track start level taken gain c) :
    Follows track start level (taken + 1) (gain + 16) (Walk.infinity negative) c
      (reading (Reader.infinity negative) (track.ahead c.pos)) := by
  rw [reading_infinity]
  refine .take h (fun t ht => if_neg fun hi => ?_) fun t => ?_
  · cases hi.1.symm.trans ht
  · by_cases hi : isInfinity t
    · simp only [if_pos hi]
      exact .next fun c h => .pure h (by omega)
    · simp only [if_neg hi]
      exact .refused

theorem bound (h : Stands track start level taken gain c) :
    Follows track start level (taken + 1) (gain + 16) Walk.bound c
      (reading Reader.bound (track.ahead c.pos)) := by
  rw [reading_bound]
  refine .current (.kindAfter ?_)
  cases hc : track.ahead c.pos with
  | nil =>
    have hk : (track.tokenAt c.pos).kind ≠ .operator .subtract := by
      rw [Track.kind_of_ahead_nil hc]
      decide
    rw [if_neg fun hneg => hk hneg.1, ← hc]
    refine .take_of_nil h hc fun t ht => ?_
    simp only [ht, isInfinity, reduceCtorEq, false_and, if_false]
  | cons t rest =>
    obtain ⟨htoken, hrest⟩ := Track.ahead_of_cons hc
    rw [htoken, hrest]
    by_cases ht : t.kind = .operator .subtract
    · simp only [Reading.take, boundStep, ht, true_and, Reading.look_bind]
      by_cases hnext : firstKind rest = .constant
      · rw [if_pos hnext, if_pos hnext]
        exact .pass h hc fun c h => (infinity true h).weaken (by omega)
      · rw [if_neg hnext, if_neg hnext]
        refine .current ?_
        simp only [htoken, ht, isInfinity, reduceCtorEq, false_and, if_false]
        exact .refuse h.toReached hc
    · rw [if_neg fun hneg => ht hneg.1, ← hc]
      refine .take_of_cons h hc ?_
      split
      · next hk => simp only [boundStep, hk]; exact .integer t Bound.int
      · next hk => simp only [boundStep, hk]; exact .float t Bound.float
      · simp only [boundStep, *]
        by_cases hi : isInfinity t
        · rw [if_pos hi, if_pos hi]
          exact .next fun c h => .pure h (by omega)
        · rw [if_neg hi, if_neg hi]
          exact .refused

theorem dots (h : Stands track start level taken gain c) :
    Follows track start level (taken + 1) (gain + 16) Walk.dots c
      (reading Reader.dots (track.ahead c.pos)) := by
  rw [reading_dots]
  refine .take h (fun t ht => by simp [ht]) fun t => ?_
  by_cases h₂ : t.kind = .mark .dotDot
  · simp only [if_pos h₂]
    exact .next fun c h => .pure h (by omega)
  · by_cases h₃ : t.kind = .mark .dotDotDot
    · simp only [if_neg h₂, if_pos h₃]
      exact .next fun c h => .pure h (by omega)
    · simp only [if_neg h₂, if_neg h₃]
      exact .refused

theorem elementType (h : Stands track start level taken gain c) :
    Follows track start level (taken + 1) (gain + 16) Walk.elementType c
      (reading Reader.elementType (track.ahead c.pos)) := by
  rw [reading_elementType]
  refine .take h (fun t ht => ?_) fun t => ?_
  · simp [ht, Token.isWord, Token.hasWordKind]
  · by_cases hk : t.kind = .symbol
    · simp only [if_pos hk]
      cases InputType.ofElementName? t.raw with
      | none => exact .passed
      | some type => exact .next fun c h => .pure h (by omega)
    · simp only [if_neg hk]
      exact .refused

theorem inputHead (inArray : Bool) (h : Stands track start level taken gain c) :
    Follows track start level (taken + 1) (gain + 16) (Walk.inputHead inArray) c
      (reading (Reader.inputHead inArray) (track.ahead c.pos)) := by
  rw [reading_inputHead]
  refine .take h (fun t ht => by simp only [ht]) fun t => ?_
  split
  · next hk => simp only [headStep, hk]; exact .named t _
  · next hk => simp only [headStep, hk]; exact .named t _
  · next hk => simp only [headStep, hk]; exact .named t _
  · next hk =>
    cases inArray with
    | false => simp only [headStep, hk]; exact .refused
    | true => simp only [headStep, hk]; exact .named t _
  · next hk =>
    cases inArray with
    | false => simp only [headStep, hk]; exact .refused
    | true =>
      simp only [headStep, hk]
      refine .next fun c h => .bind (elementType h) fun type c h => ?_
      refine .bind (.expect h (by decide)) fun _ c h => ?_
      exact .bind (.symbol h) fun name c h => .pure h (by omega)
  · simp only [headStep, *]; exact .refused

/-- A style that does not go with the earlier ones is refused at its token. -/
theorem nextStyle_place {name : String} {style : Option AccessMode} {ts : List Token}
    {fault : Fault} (h : nextStyle name style ts = .error fault) : fault.token = ts.head? := by
  cases hm : (firstKind ts).style? with
  | none =>
    have read : Reader.styleNext (some name) style ts = .ok (style, ts) := styleNext_of_none hm
    simp only [Reader.styleNext, Option.elim, h] at read
    cases read
  | some mode =>
    rw [nextStyle_of_some hm] at h
    split at h
    · cases h
      rfl
    · cases h

/-- How the children of an array are declared shows at the token at the cursor. -/
theorem styleNext {t : Token} {rest : List Token} (array : Option String)
    (style : Option AccessMode) (h : Stands track start level taken gain c)
    (hc : track.ahead c.pos = t :: rest) :
    Follows track start level taken gain (Walk.styleNext array style t) c
      (Reader.styleNext array style (track.ahead c.pos)) := by
  rw [hc]
  unfold Walk.styleNext Reader.styleNext
  cases array with
  | none => exact .value h hc (by omega)
  | some name =>
    have next : nextStyle name style (t :: rest) = nextStyle name style [t] := rfl
    simp only [Option.elim, next]
    cases hs : nextStyle name style [t] with
    | error fault =>
      have place : fault.token = some t := nextStyle_place hs
      obtain ⟨token, cause⟩ := fault
      cases place
      exact .refuse h.toReached hc
    | ok style => exact .value h hc (by omega)

end Follows

namespace Answers

theorem domainValues (answers : Answers track start 0 call) (earlier : List Literal) :
    Follows track start 0 1 5 (Walk.domainValues call earlier) start
      (routineReading (track.limit - start.depth) (.domainValues earlier)
        (track.ahead start.pos)) := by
  have h := Stands.refl track start
  refine .separated h (by decide) (.domainLiteral h) (fun a c h => ?_) (by simp) (by simp)
  exact (answers.calls (.domainValues (a :: earlier)) h (by simp)).weaken (by simp)

theorem domain (answers : Answers track start 0 call) :
    Follows track start 0 1 5 (Walk.domain call) start
      (reading Reader.domain (track.ahead start.pos)) := by
  rw [reading_domain]
  have h := Stands.refl track start
  refine .ifNext h (by decide) (fun _ c h => ?_) fun _ => ?_
  · exact .bind (answers.calls (.domainValues []) h (by simp)) fun values c h => .pure h (by simp)
  · rw [Reading.look_bind]
    refine .current (.bind (.bound h) fun min c h => .bind (.dots h) fun exclusive c h => ?_)
    refine .bind (.bound h) fun max c h => ?_
    split
    · exact .pure h (by simp)
    · exact .refuseStart h.toReached

theorem inputOption (answers : Answers track start 0 call) (type : InputType)
    (options : InputOptions) (h : Stands track start 0 1 16 c) :
    Follows track start 0 2 32 (Walk.inputOption call type options) c
      (reading (Reader.inputOption type options) (track.ahead c.pos)) := by
  rw [reading_inputOption]
  refine .take h (fun t ht => by simp [ht]) fun t => ?_
  unfold optionStep
  split
  · exact .refused
  · split
    · refine .next fun c h => .bind (answers.calls .domain h (by simp)) fun d c h => ?_
      exact .pure h (by simp)
    · split
      · split
        · exact .next fun c h => .bind (.symbol h) fun name c h => .pure h (by simp)
        · exact .passed
      · exact .passed

theorem inputOptions (answers : Answers track start 0 call) (type : InputType)
    (options : InputOptions) :
    Follows track start 0 0 0 (Walk.inputOptions call type options) start
      (reading (Reader.inputOptions type options) (track.ahead start.pos)) := by
  rw [reading_inputOptions]
  have h := Stands.refl track start
  refine .ifNext h (by decide) (fun _ c h => ?_) fun _ => .pure h (by simp)
  refine .bind (answers.inputOption type options h) fun options c h => ?_
  exact (answers.calls (.inputOptions type options) h (by simp)).weaken (by simp)

theorem nestedInputs (answers : Answers track start 0 call) (array : Option String)
    (h : Stands track start 0 2 31 c) :
    Follows track start 0 2 29 (Walk.within .input (call (.inputs array none))) c
      (reading (Reader.nestedInputs (track.limit - start.depth) array) (track.ahead c.pos)) := by
  have hdepth : c.depth = start.depth := h.depth
  refine .within h (fun hd => ?_) fun hd h => ?_
  · rw [Nat.sub_eq_zero_of_le (hdepth ▸ hd)]
    rfl
  · have room : track.limit - start.depth = track.limit - (start.depth + 1) + 1 := by omega
    rw [room, Reader.nestedInputs, inputs_eq]
    exact (answers.calls (.inputs array none) h (by simp)).weaken (by simp)

theorem inputBlock (answers : Answers track start 0 call) (type : InputType) (name : String)
    (h : Stands track start 0 1 15 c) :
    Follows track start 0 1 15 (Walk.inputBlock call type name) c
      (reading (Reader.inputBlock (Reader.nestedInputs (track.limit - start.depth)) type name)
        (track.ahead c.pos)) := by
  rw [reading_inputBlock, Reading.look_bind]
  refine .current ?_
  rw [Track.kind_tokenAt]
  by_cases hd : firstKind (track.ahead c.pos) = .keyword .doWord ∧ type.isContainer = false
  · rw [if_pos hd, if_pos hd]
    exact .refuse h.toReached rfl
  · rw [if_neg hd, if_neg hd]
    refine .ifNext h (by decide) (fun _ c h => ?_) fun _ => .pure h (by simp)
    refine .bind (answers.nestedInputs _ h) fun children c h => ?_
    exact .bind (.expect h (by decide)) fun _ c h => .pure h (by simp)

theorem inputDecl (answers : Answers track start 0 call) (inArray : Bool) :
    Follows track start 0 1 5 (Walk.inputDecl call inArray) start
      (reading (input (Reader.nestedInputs (track.limit - start.depth)) inArray)
        (track.ahead start.pos)) := by
  rw [reading_input, Reading.look_bind]
  have h := Stands.refl track start
  refine .current ?_
  cases hc : track.ahead start.pos with
  | nil =>
    have head := Follows.inputHead inArray h
    rw [hc] at head
    exact .bind_of_error head
  | cons t rest =>
    have place : firstLocation (track.ahead start.pos) = t.location := by
      rw [hc]
      rfl
    rw [← hc, place, (Track.ahead_of_cons hc).1]
    refine .bind (.inputHead inArray h) fun head c h => ?_
    refine .bind (answers.calls (.inputOptions head.1 ⟨none, none⟩) h (by simp))
      fun options c h => ?_
    exact .bind (answers.inputBlock head.1 head.2 (h.weaken (by simp)))
      fun children c h => .pure h (by simp)

theorem inputs (answers : Answers track start 1 call) (array : Option String)
    (style : Option AccessMode) :
    Follows track start 0 0 (-1) (Walk.inputs call array style) start
      (reading (inputList (input (Reader.nestedInputs (track.limit - start.depth))) array style)
        (track.ahead start.pos)) := by
  rw [reading_inputList, Reading.look_bind]
  have h := Stands.refl track start
  refine .current ?_
  cases hc : track.ahead start.pos with
  | nil =>
    rw [if_pos (.inr (Track.kind_of_ahead_nil hc))]
    exact .value h hc (by simp)
  | cons t rest =>
    have hne : t.kind ≠ .eof := (Track.ahead_of_cons hc).1 ▸ Track.kind_ne_of_ahead hc
    rw [(Track.ahead_of_cons hc).1]
    by_cases hk : t.kind = .keyword .endWord
    · rw [if_pos (.inl hk)]
      simp only [List.head?_cons, if_pos hk]
      exact .value h hc (by simp)
    · rw [if_neg fun hend => hend.elim hk hne]
      simp only [List.head?_cons, if_neg hk]
      rw [← hc]
      refine .bind (.styleNext array style h hc) fun style c h => ?_
      refine .bind (answers.calls (.inputDecl array.isSome) h (by simp)) fun input c h => ?_
      refine .bind (answers.calls (.inputs array style) h (by simp)) fun inputs c h => ?_
      exact .pure h (by simp)

end Answers

end SchemaLang
