import SchemaLang.Proofs.Agreement.Basic
import SchemaLang.Proofs.Reading.Input
import SchemaLang.Proofs.Unplaced

namespace SchemaLang.Reader

open Reading

variable {T : Pairing}

theorem domainLiteral_steady : Steady T Eq (reading domainLiteral) := by
  intro ts us hts
  rw [reading_domainLiteral]
  refine .take hts trivial fun t u ts us _ ht hts => ?_
  unfold domainStep
  rw [← (T.alike ht).kind, ← (T.alike ht).raw]
  split
  · next hk => exact intStep_agree ht hts hk _
  · next hk => exact floatStep_agree ht hts hk _
  · exact .ok (.pure rfl hts)
  · exact .ok (.pure rfl hts)
  · exact .ok (.pure rfl hts)
  · exact .error trivial

theorem isInfinity_of_alike {t u : Token} (h : t.Alike u) : isInfinity t ↔ isInfinity u := by
  rw [isInfinity, isInfinity, h.kind, h.raw]

theorem infinity_steady (negative : Bool) : Steady T Eq (reading (infinity negative)) := by
  intro ts us hts
  rw [reading_infinity]
  refine .take hts trivial fun t u ts us _ ht hts => ?_
  simp only [← isInfinity_of_alike (T.alike ht)]
  split
  · exact .ok (.pure rfl hts)
  · exact .error trivial

theorem bound_steady : Steady T Eq (reading bound) := by
  intro ts us hts
  rw [reading_bound]
  refine .take hts trivial fun t u ts us _ ht hts => ?_
  unfold boundStep
  simp only [← isInfinity_of_alike (T.alike ht)]
  rw [← (T.alike ht).kind]
  split
  · next hk => exact intStep_agree ht hts hk _
  · next hk => exact floatStep_agree ht hts hk _
  · refine .ok (.look (firstKind_of_lists hts) ?_)
    split
    · exact infinity_steady true ts us hts
    · exact .refuseAt (.some ht) trivial
  · split
    · exact .ok (.pure rfl hts)
    · exact .error trivial

theorem dots_steady : Steady T Eq (reading dots) := by
  intro ts us hts
  rw [reading_dots]
  refine .take hts trivial fun t u ts us _ ht hts => ?_
  rw [← (T.alike ht).kind]
  split
  · exact .ok (.pure rfl hts)
  · split
    · exact .ok (.pure rfl hts)
    · exact .error trivial

theorem domain_steady : Steady T Eq (reading domain) := by
  intro ts us hts
  rw [reading_domain]
  refine .ifNext hts (fun _ _ ts us _ _ hts _ => ?_) ?_
  · exact (separated_steady (fun _ => domainLiteral_steady) [] ts us hts).map_same
  · -- the lower bound is kept for the refusal of bounds that do not agree
    rw [look_bind, look_bind]
    have first := head?_of_lists hts
    apply (bound_steady ts us hts).bind_same
    intro min ts us _ hts
    apply (dots_steady ts us hts).bind_same
    intro exclusive ts us _ hts
    apply (bound_steady ts us hts).bind_same
    intro max ts us _ hts
    split
    · exact .pure rfl hts
    · exact .refuseAt first trivial

theorem elementType_steady : Steady T Eq (reading elementType) := by
  intro ts us hts
  rw [reading_elementType]
  refine .take hts trivial fun t u ts us _ ht hts => ?_
  rw [← (T.alike ht).kind, ← (T.alike ht).raw, ← (T.alike ht).isWord]
  split
  · next hk =>
    split
    · exact .ok (.pure rfl hts)
    · exact .error ⟨t, rfl, t, u, ht, by rw [hk]; rfl, rfl⟩
  · split
    · exact .error trivial
    · exact .error trivial

/-- Both runs read one type and one name, which is the text of a symbol. -/
theorem inputHead_steady (inArray : Bool) :
    Steady T (fun a b => a = b ∧ T.Bare a.2) (reading (inputHead inArray)) := by
  have named (type : InputType) {ts us : List Token} (hts : T.Lists ts us) :
      Agree T (fun a b => a = b ∧ T.Bare a.2)
        ((reading symbol >>= fun name => Pure.pure (type, name)) ts)
        ((reading symbol >>= fun name => Pure.pure (type, name)) us) :=
    (symbol_steady ts us hts).map fun _ _ h => ⟨congrArg _ h.1, h.2⟩
  intro ts us hts
  rw [reading_inputHead]
  refine .take hts trivial fun t u ts us _ ht hts => ?_
  unfold headStep
  rw [← (T.alike ht).kind]
  split
  · exact .ok (named _ hts)
  · exact .ok (named _ hts)
  · exact .ok (named _ hts)
  · split
    · exact .ok (named _ hts)
    · exact .error trivial
  · split
    · refine .ok ((elementType_steady ts us hts).bind_same ?_)
      intro type ts us _ hts
      apply (expect_steady _ ts us hts).bind
      intro _ _ ts us _ _ hts
      exact named _ hts
    · exact .error trivial
  · exact .error trivial

theorem inputOption_steady (type : InputType) (options : InputOptions) :
    Steady T Eq (reading (inputOption type options)) := by
  intro ts us hts
  rw [reading_inputOption]
  refine .take hts trivial fun t u ts us _ ht hts => ?_
  unfold optionStep
  rw [← (T.alike ht).kind, ← (T.alike ht).raw]
  split
  · exact .error trivial
  · next hlabel =>
    split
    · exact .ok (domain_steady ts us hts).map_same
    · split
      · split
        · exact .ok (symbol_same ts us hts).map_same
        · exact .error trivial
      · have label : t.kind = .label := Decidable.not_not.mp hlabel
        exact .error ⟨t, rfl, t, u, ht, by rw [label]; rfl, rfl⟩

theorem inputOptions_steady (type : InputType) (options : InputOptions) :
    Steady T Eq (reading (inputOptions type options)) := by
  intro ts us hts
  induction hn : ts.length using Nat.strongRecOn generalizing options ts us with
  | ind n ih =>
    rw [reading_inputOptions]
    refine .ifNext hts (fun _ _ ts' us' hcons _ hlists _ => ?_) (.pure rfl hts)
    apply (inputOption_steady type options ts' us' hlists).bind_same
    intro options more more' hread hmore
    have shorter := reading_length hread
    exact ih more.length (by simp [hcons] at hn; omega) options more more' hmore rfl

theorem styleNext_steady {array : Option String} (harray : ∀ name ∈ array, T.Bare name)
    (style : Option AccessMode) : Steady T Eq (styleNext array style) := by
  intro ts us hts
  have same := firstKind_of_lists hts
  cases array with
  | none => exact .ok rfl hts
  | some name =>
    cases hstyle : (firstKind ts).style? with
    | none =>
      rw [styleNext_of_none hstyle, styleNext_of_none (same ▸ hstyle)]
      exact .ok rfl hts
    | some mode =>
      by_cases hmixed : style.isSome ∧ style ≠ some mode
      · rw [styleNext_of_mixed hstyle hmixed, styleNext_of_mixed (same ▸ hstyle) hmixed]
        exact .error ⟨head?_of_lists hts, .same, harray name rfl⟩
      · rw [styleNext_of_some hstyle hmixed, styleNext_of_some (same ▸ hstyle) hmixed]
        exact .ok rfl hts

/-- Inputs that differ in places only. -/
def SameInputs (inputs inputs' : List Input) : Prop :=
  inputs.map Input.unplaced = inputs'.map Input.unplaced

section Inputs

variable {nested : Option String → Tail (List Input)}
  (h : ∀ array : Option String, (∀ name ∈ array, T.Bare name) →
    Steady T SameInputs (reading (nested array)))

include h

theorem inputBlock_steady (type : InputType) {name : String} (hname : T.Bare name) :
    Steady T SameInputs (reading (inputBlock nested type name)) := by
  intro ts us hts
  rw [reading_inputBlock]
  refine .look (firstKind_of_lists hts) ?_
  split
  · exact .refuse hts hname
  · refine .ifNext hts (fun _ _ ts us _ _ hts _ => ?_) (.pure rfl hts)
    have array : ∀ other ∈ (if type.isArray then some name else none), T.Bare other := by
      intro other hother
      split at hother
      · cases hother
        exact hname
      · cases hother
    apply (h _ array ts us hts).bind
    intro children children' ts us _ hsame hts
    exact (expect_steady _ ts us hts).map fun _ _ _ => hsame

theorem input_steady (inArray : Bool) :
    Steady T (fun a b => a.unplaced = b.unplaced) (reading (input nested inArray)) := by
  intro ts us hts
  rw [reading_input, look_bind, look_bind]
  apply (inputHead_steady inArray ts us hts).bind
  rintro head _ ts us _ ⟨rfl, hname⟩ hts
  apply (inputOptions_steady _ _ ts us hts).bind_same
  intro options ts us _ hts
  apply (inputBlock_steady h head.1 hname ts us hts).map
  intro children children' hsame
  have types := Input.map_type_of_unplaced hsame
  rw [Input.unplaced, Input.unplaced, Input.listUnplaced_eq, Input.listUnplaced_eq, hsame,
    Input.accessMode_of_types types]

theorem inputList_steady {array : Option String} (harray : ∀ name ∈ array, T.Bare name)
    (style : Option AccessMode) :
    Steady T SameInputs (reading (inputList (input nested) array style)) := by
  intro ts us hts
  induction hn : ts.length using Nat.strongRecOn generalizing style ts us with
  | ind n ih =>
    rw [reading_inputList, look_bind, look_bind]
    cases hts with
    | nil => exact .ok rfl .nil
    | @cons t u ts us ht hts =>
      simp only [List.head?_cons, ← (T.alike ht).kind]
      split
      · exact .ok rfl (.cons ht hts)
      · apply (styleNext_steady harray style _ _ (.cons ht hts)).bind_same
        intro style same same' hread hlists
        have unread : same = t :: ts := styleNext_rest hread
        apply (input_steady h array.isSome same same' hlists).bind
        intro first first' more more' hread hfirst hmore
        have shorter := reading_length hread
        apply (ih more.length (by rw [unread] at shorter; omega) style more more' hmore rfl).map
        intro inputs inputs' hsame
        simpa [SameInputs, hfirst] using hsame

end Inputs

theorem inputs_steady (room : Nat) {array : Option String} (harray : ∀ name ∈ array, T.Bare name) :
    Steady T SameInputs (reading (inputs room array)) := by
  induction room generalizing array with
  | zero =>
    rw [inputs_eq]
    refine inputList_steady (fun _ _ ts us hts => ?_) harray none
    exact .error ⟨head?_of_lists hts, .same, trivial⟩
  | succ room ih =>
    rw [inputs_eq]
    exact inputList_steady (fun _ hother => ih hother) harray none

end SchemaLang.Reader
