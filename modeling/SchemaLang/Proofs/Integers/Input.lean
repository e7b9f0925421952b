import SchemaLang.Proofs.Integers.Fate

namespace SchemaLang.Reader

open Reading

variable {gap : Gap} {front : List Token}

theorem domainLiteral_fate (front : List Token) : Fate gap (reading domainLiteral) front := by
  cases front with
  | nil => exact .site .domainValue
  | cons t rest =>
    rw [reading_domainLiteral]
    refine .step ?_
    unfold domainStep
    split
    · exact .int t _
    · exact .float t _
    · exact .ok (.pure _)
    · exact .ok (.pure _)
    · exact .ok (.pure _)
    · exact .error

theorem infinity_fate (negative : Bool) : Fate gap (reading (infinity negative)) front := by
  rw [reading_infinity]
  refine .take .expectedBound nofun (fun u hu => ?_) fun t rest _ => ?_
  · exact if_neg fun h => absurd (hu.symm.trans h.1) (by decide)
  · exact .ite (.ok (.pure _)) .error

/-- A bound that starts with the integer reads it. -/
theorem bound_fate : Fate gap (reading bound) front := by
  cases front with
  | nil => exact .site .bound
  | cons t rest =>
    rw [reading_bound]
    refine .step ?_
    unfold boundStep
    split
    · exact .int t _
    · exact .float t _
    · refine .ok (.lookKind ?_)
      split
      · exact infinity_fate true
      · exact .refuseAt _ _
    · exact .ite (.ok (.pure _)) .error

theorem dots_fate : Fate gap (reading dots) front := by
  rw [reading_dots]
  refine .take .expectedDots nofun (fun u hu => by simp [hu]) fun t rest _ => ?_
  exact .ite (.ok (.pure _)) (.ite (.ok (.pure _)) .error)

/-- The upper end of a range after the lower one. Ends that do not agree are refused at a token that
was seen before. -/
def rangeAfter (first : Option Token) (min : Bound) : Reading Domain := do
  let exclusive ← reading dots
  let max ← reading bound
  if min.agree max then pure (.range min max exclusive) else refuseAt first .mixedRange

theorem rangeAfter_fate (first : Option Token) (min : Bound) :
    Fate gap (rangeAfter first min) front := by
  apply dots_fate.bind
  intro exclusive mid _
  apply bound_fate.bind
  intro max mid _
  split
  · exact .pure _
  · exact .refuseAt _ _

/-- The token at which ends that do not agree are refused has no other part in reading a range. -/
theorem exists_rangeAfter (min : Bound) (ts : List Token) :
    ∃ out : Except (Token → Fault) (Domain × List Token),
      ∀ u, rangeAfter (some u) min ts = out.mapError (· u) := by
  cases hdots : reading dots ts with
  | error fault => exact ⟨.error fun _ => fault, fun u => bind_of_error hdots⟩
  | ok q =>
    cases hmax : reading bound q.2 with
    | error fault =>
      refine ⟨.error fun _ => fault, fun u => ?_⟩
      exact (bind_of_ok hdots).trans (bind_of_error hmax)
    | ok r =>
      have read (u : Token) : rangeAfter (some u) min ts =
          (if min.agree r.1 then pure (.range min r.1 q.1)
            else refuseAt (some u) .mixedRange : Reading Domain) r.2 :=
        (bind_of_ok hdots).trans (bind_of_ok hmax)
      by_cases hagree : min.agree r.1 = true
      · refine ⟨.ok (.range min r.1 q.1, r.2), fun u => ?_⟩
        rw [read, if_pos hagree]
        rfl
      · refine ⟨.error fun u => ⟨some u, .mixedRange⟩, fun u => ?_⟩
        rw [read, if_neg hagree]
        rfl

theorem domain_fate : Fate gap (reading domain) front := by
  rw [reading_domain]
  refine .ifNext nofun (fun t rest _ => ?_) ?_
  · exact (separated_fate (by decide) (fun _ => domainLiteral_fate) []).map
  · cases front with
    | cons t rest =>
      have range : Fate gap (reading bound >>= rangeAfter (some t)) (t :: rest) :=
        bound_fate.bind fun min _ _ => rangeAfter_fate _ min
      exact range.congr fun _ _ => rfl
    | nil =>
      -- the integer is the lower end, and may be refused later on because of the upper one
      choose out hout using fun min => exists_rangeAfter min gap.after
      refine .read .bound out fun u hu => ?_
      change (reading Site.bound.reader >>= rangeAfter (some u)) (u :: gap.after) = _
      rw [bind_apply, Site.bound.reading_reader hu.kind]
      cases Decimal.readInt64? (digits u) with
      | none => rfl
      | some n => exact hout _ u

theorem elementType_fate : Fate gap (reading elementType) front := by
  rw [reading_elementType]
  refine .take .expectedSymbol nofun (fun u hu => ?_) fun t rest _ => ?_
  · simp [hu, isWord_of_integer hu]
  · refine .ite ?_ .error
    split
    · exact .ok (.pure _)
    · exact .error

/-- No declaration starts with an integer. -/
theorem headStep_of_integer {inArray : Bool} {u : Token} (hu : u.kind = .integer) :
    headStep inArray u = .error .expectedInputType := by
  simp only [headStep, hu]

theorem inputHead_fate (inArray : Bool) : Fate gap (reading (inputHead inArray)) front := by
  have named (type : InputType) (front : List Token) :
      Fate gap (reading symbol >>= fun name => Pure.pure (type, name)) front := symbol_fate.map
  rw [reading_inputHead]
  refine .take .expectedInputType nofun (fun u hu => headStep_of_integer hu) fun t rest _ => ?_
  unfold headStep
  split
  · exact .ok (named _ rest)
  · exact .ok (named _ rest)
  · exact .ok (named _ rest)
  · exact .ite (.ok (named _ rest)) .error
  · refine .ite (.ok ?_) .error
    apply elementType_fate.bind
    intro type mid _
    apply (expect_fate (by decide)).bind
    intro _ mid _
    exact symbol_fate.map
  · exact .error

theorem inputOption_fate (type : InputType) (options : InputOptions) :
    Fate gap (reading (inputOption type options)) front := by
  rw [reading_inputOption]
  refine .take .expectedOption nofun (fun u hu => ?_) fun t rest _ => ?_
  · exact if_pos (by rw [hu]; decide)
  · refine .ite .error (.ite (.ok domain_fate.map) (.ite (.ite ?_ .error) .error))
    exact .ok symbol_fate.map

theorem inputOptions_fate (type : InputType) (options : InputOptions) :
    Fate gap (reading (inputOptions type options)) front := by
  induction hn : front.length using Nat.strongRecOn generalizing options front with
  | ind n ih =>
    rw [reading_inputOptions]
    refine .ifNext nofun (fun t rest hfront => ?_) (.pure options)
    apply (inputOption_fate type options).bind
    intro options mid hread
    obtain ⟨_, _, shorter⟩ := length_lt_of_fill hread
    exact ih mid.length (by simp [hfront] at hn shorter; omega) options rfl

theorem styleNext_fate (array : Option String) (style : Option AccessMode) :
    Fate gap (styleNext array style) front := by
  cases array with
  | none => exact .before style front fun _ _ => rfl
  | some name =>
    cases hstyle : (gapKind front).style? with
    | none =>
      refine .before style front fun u hu => styleNext_of_none ?_
      rwa [firstKind_fill hu]
    | some mode =>
      by_cases hmixed : style.isSome ∧ style ≠ some mode
      · have mixed : Fate gap (refuse (.mixedArray name) : Reading (Option AccessMode)) front :=
          .refuse nofun
        refine mixed.congr fun u hu => styleNext_of_mixed ?_ hmixed
        rwa [firstKind_fill hu]
      · refine .before (some mode) front fun u hu => styleNext_of_some ?_ hmixed
        rwa [firstKind_fill hu]

section Inputs

variable {nested : Option String → Tail (List Input)}
  (h : ∀ array front, Fate gap (reading (nested array)) front)

include h

theorem inputBlock_fate (type : InputType) (name : String) :
    Fate gap (reading (inputBlock nested type name)) front := by
  rw [reading_inputBlock]
  refine .lookKind ?_
  split
  · exact .refuse nofun
  · refine .ifNext nofun (fun _ rest _ => ?_) (.pure [])
    apply (h _ rest).bind
    intro children mid _
    exact close_fate (by decide) _

theorem input_fate (inArray : Bool) : Fate gap (reading (input nested inArray)) front := by
  rw [reading_input]
  cases front with
  | nil =>
    -- the place that is kept is that of the integer, which is refused at once
    refine .misplaced .expectedInputType nofun fun u hu => ?_
    rw [look_bind]
    apply bind_of_error
    simp only [reading_inputHead, Gap.fill_nil, take, headStep_of_integer hu.kind]
  | cons t rest =>
    have declared : Fate gap (do
        let head ← reading (inputHead inArray)
        let options ← reading (inputOptions head.1 ⟨none, none⟩)
        let children ← reading (inputBlock nested head.1 head.2)
        pure ({
          name := head.2
          type := head.1
          children
          domain := options.domain
          accessMode := accessMode head.1 children
          index := options.index
          location := t.location } : Input)) (t :: rest) := by
      apply (inputHead_fate inArray).bind
      intro head mid _
      apply (inputOptions_fate _ _).bind
      intro options mid _
      exact (inputBlock_fate h _ _).map
    exact declared.congr fun _ _ => rfl

theorem inputList_fate (array : Option String) (style : Option AccessMode) :
    Fate gap (reading (inputList (input nested) array style)) front := by
  induction hn : front.length using Nat.strongRecOn generalizing style front with
  | ind n ih =>
    rw [reading_inputList]
    by_cases hend : gapKind front = .keyword .endWord
    · cases front with
      | nil => cases hend
      | cons t rest =>
        have ended : Fate gap (pure [] : Reading (List Input)) (t :: rest) := .pure []
        exact ended.congr fun u _ => congrFun (if_pos hend) _
    · have declared : Fate gap (do
          let style ← styleNext array style
          let input ← reading (input nested array.isSome)
          let inputs ← reading (inputList (Reader.input nested) array style)
          pure (input :: inputs)) front := by
        apply (styleNext_fate array style).bind
        intro style mid hstyle
        apply (input_fate h array.isSome).bind
        intro first more hread
        obtain ⟨u, hu, shorter⟩ := length_lt_of_fill hread
        have unread := congrArg List.length (styleNext_rest (hstyle u hu))
        exact (ih more.length (by simp at shorter unread; omega) style rfl).map
      cases front with
      | nil =>
        refine declared.congr fun u hu => ?_
        exact congrFun (if_neg (by rw [hu.kind]; decide)) _
      | cons t rest => exact declared.congr fun u _ => congrFun (if_neg hend) _

end Inputs

theorem inputs_fate (room : Nat) (array : Option String) (front : List Token) :
    Fate gap (reading (inputs room array)) front := by
  induction room generalizing array front with
  | zero =>
    rw [inputs_eq]
    have deep (front : List Token) :
        Fate gap (refuse (.tooDeep .input) : Reading (List Input)) front := .refuse nofun
    exact inputList_fate (fun _ => deep) array none
  | succ room ih =>
    rw [inputs_eq]
    exact inputList_fate ih array none

end SchemaLang.Reader
