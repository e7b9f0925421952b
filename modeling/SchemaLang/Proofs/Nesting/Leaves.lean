import SchemaLang.Proofs.Reading.Schema

namespace SchemaLang

/-- Whether tokens are refused because they nest too deeply. -/
def Cause.isDeep : Cause → Bool
  | .tooDeep _ => true
  | _ => false

namespace Reader

open Reading

variable {α β : Type}

/-- Some tokens are not refused for their depth. -/
def Shallow (x : Reading α) (ts : List Token) : Prop :=
  ∀ fault, x ts = .error fault → fault.cause.isDeep = false

/-- The same of what follows a token, or of the cause for which that is refused. -/
inductive StepShallow (rest : List Token) : Except Cause (Reading α) → Prop
  | error {cause : Cause} : cause.isDeep = false → StepShallow rest (.error cause)
  | ok {x : Reading α} : Shallow x rest → StepShallow rest (.ok x)

namespace Shallow

variable {ts : List Token}

theorem pure (a : α) : Shallow (pure a) ts := fun _ h => nomatch h

theorem refuseAt {token : Option Token} {cause : Cause} (h : cause.isDeep = false) :
    Shallow (refuseAt token cause : Reading α) ts := fun _ hfault => by
  cases hfault
  exact h

theorem refuse {cause : Cause} (h : cause.isDeep = false) :
    Shallow (refuse cause : Reading α) ts := fun _ hfault => by
  cases hfault
  exact h

theorem bind {x : Reading α} {k : α → Reading β} (h : Shallow x ts)
    (hk : ∀ a rest, x ts = .ok (a, rest) → Shallow (k a) rest) : Shallow (x >>= k) ts := by
  intro fault hfault
  cases hx : x ts with
  | error cause =>
    rw [bind_of_error hx] at hfault
    cases hfault
    exact h fault hx
  | ok q =>
    obtain ⟨a, rest⟩ := q
    rw [bind_of_ok hx] at hfault
    exact hk a rest hx fault hfault

theorem map {x : Reading α} {f : α → β} (h : Shallow x ts) :
    Shallow (do let a ← x; Pure.pure (f a)) ts :=
  h.bind fun _ _ _ => pure _

theorem look {view : List Token → α} {k : α → Reading β} (h : Shallow (k (view ts)) ts) :
    Shallow (Reading.look view >>= k) ts := h

theorem ifNext {kind : Kind} {yes : Token → Reading α} {no : Reading α}
    (hyes : ∀ t rest, ts = t :: rest → Shallow (yes t) rest) (hno : Shallow no ts) :
    Shallow (Reading.ifNext kind yes no) ts := by
  intro fault hfault
  cases ts with
  | nil => exact hno fault hfault
  | cons t rest =>
    by_cases hk : t.kind = kind
    · rw [ifNext_of_eq hk] at hfault
      exact hyes t rest rfl fault hfault
    · rw [ifNext_of_ne (show firstKind (t :: rest) ≠ kind from hk)] at hfault
      exact hno fault hfault

theorem take {atEnd : Cause} {step : Token → Except Cause (Reading α)}
    (hend : atEnd.isDeep = false) (h : ∀ t rest, ts = t :: rest → StepShallow rest (step t)) :
    Shallow (Reading.take atEnd step) ts := by
  intro fault hfault
  cases ts with
  | nil =>
    cases hfault
    exact hend
  | cons t rest =>
    have next := h t rest rfl
    rw [Reading.take] at hfault
    generalize step t = y at next hfault
    cases next with
    | error hcause =>
      cases hfault
      exact hcause
    | ok next => exact next fault hfault

end Shallow

/-- A token of one of the kinds wanted is taken, and any other refused. -/
theorem StepShallow.ite {p : Prop} [Decidable p] {rest : List Token} {a : α} {cause : Cause}
    (h : cause.isDeep = false) :
    StepShallow rest (if p then .ok (pure a) else .error cause) := by
  split
  · exact .ok (.pure a)
  · exact .error h

theorem expect_shallow (kind : Kind) (ts : List Token) : Shallow (reading (expect kind)) ts := by
  rw [reading_expect]
  exact .take rfl fun t rest _ => .ite rfl

theorem symbol_shallow (ts : List Token) : Shallow (reading symbol) ts := by
  rw [reading_symbol]
  refine .take rfl fun t rest _ => .ite ?_
  split <;> rfl

theorem separated_shallow {close : Kind} {item : List α → Reader α}
    (h : ∀ earlier ts, Shallow (reading (item earlier)) ts) (earlier : List α) (ts : List Token) :
    Shallow (reading (separated close item earlier)) ts := by
  induction hn : ts.length using Nat.strongRecOn generalizing earlier ts with
  | ind n ih =>
    rw [reading_separated]
    refine .look ?_
    split
    · exact (expect_shallow close ts).map
    · apply (h earlier ts).bind
      intro a rest hread
      have shorter := reading_length hread
      refine .ifNext (fun t more hmore => ?_) (expect_shallow close rest).map
      exact ih more.length (by simp [hmore] at shorter; omega) (a :: earlier) more rfl

theorem intStep_shallow (t : Token) (result : Int64 → α) (rest : List Token) :
    StepShallow rest (intStep t result) := by
  unfold intStep
  split
  · exact .ok (.pure _)
  · exact .error rfl

theorem floatStep_shallow (t : Token) (result : Float → α) (rest : List Token) :
    StepShallow rest (floatStep t result) := by
  unfold floatStep
  split
  · exact .ok (.pure _)
  · exact .error rfl

section Expressions

theorem fieldName_shallow (ts : List Token) : Shallow (reading fieldName) ts := by
  rw [reading_fieldName]
  exact .take rfl fun t rest _ => .ite rfl

theorem fieldNames_shallow (ts : List Token) : Shallow (reading fieldNames) ts := by
  induction hn : ts.length using Nat.strongRecOn generalizing ts with
  | ind n ih =>
    rw [reading_fieldNames]
    refine .ifNext (fun t rest hts => ?_) (.pure _)
    apply (fieldName_shallow rest).bind
    intro name more hread
    have shorter := reading_length hread
    exact (ih more.length (by simp [hts] at hn; omega) more rfl).map

theorem inputPath_shallow (ts : List Token) : Shallow (reading inputPath) ts := by
  rw [reading_inputPath]
  refine .ifNext (fun t rest _ => ?_) (.refuse rfl)
  apply (fieldName_shallow rest).bind
  intro name more _
  exact (fieldNames_shallow more).map

theorem hashKey_shallow (ts : List Token) : Shallow (reading hashKey) ts := by
  rw [reading_hashKey]
  refine .take rfl fun t rest _ => ?_
  have arrow (key : Literal) : Shallow (arrowAfter t key) rest :=
    .ifNext (fun _ _ _ => .pure _) (.refuse rfl)
  split
  · exact .ok (.pure _)
  · exact .ok (arrow _)
  · exact .ok (arrow _)
  · exact .error rfl

end Expressions

section Inputs

theorem domainLiteral_shallow (ts : List Token) : Shallow (reading domainLiteral) ts := by
  rw [reading_domainLiteral]
  refine .take rfl fun t rest _ => ?_
  unfold domainStep
  split
  · exact intStep_shallow t _ rest
  · exact floatStep_shallow t _ rest
  · exact .ok (.pure _)
  · exact .ok (.pure _)
  · exact .ok (.pure _)
  · exact .error rfl

theorem bound_shallow (ts : List Token) : Shallow (reading bound) ts := by
  rw [reading_bound]
  refine .take rfl fun t rest _ => ?_
  unfold boundStep
  split
  · exact intStep_shallow t _ rest
  · exact floatStep_shallow t _ rest
  · refine .ok (.look ?_)
    split
    · rw [reading_infinity]
      exact .take rfl fun _ _ _ => .ite rfl
    · exact .refuseAt rfl
  · exact .ite rfl

theorem domain_shallow (ts : List Token) : Shallow (reading domain) ts := by
  rw [reading_domain]
  refine .ifNext (fun t rest _ => ?_) (.look ?_)
  · exact (separated_shallow (fun _ => domainLiteral_shallow) [] rest).map
  · apply (bound_shallow ts).bind
    intro min rest _
    have dots : Shallow (reading dots) rest := by
      rw [reading_dots]
      refine .take rfl fun t rest _ => ?_
      split
      · exact .ok (.pure _)
      · exact .ite rfl
    apply dots.bind
    intro exclusive rest _
    apply (bound_shallow rest).bind
    intro max rest _
    split
    · exact .pure _
    · exact .refuseAt rfl

theorem elementType_shallow (ts : List Token) : Shallow (reading elementType) ts := by
  rw [reading_elementType]
  refine .take rfl fun t rest _ => ?_
  split
  · split
    · exact .ok (.pure _)
    · exact .error rfl
  · refine .error ?_
    split <;> rfl

theorem inputHead_shallow (inArray : Bool) (ts : List Token) :
    Shallow (reading (inputHead inArray)) ts := by
  rw [reading_inputHead]
  refine .take rfl fun t rest _ => ?_
  have named (type : InputType) :
      Shallow (do let name ← reading symbol; pure (type, name)) rest :=
    (symbol_shallow rest).map
  unfold headStep
  split
  · exact .ok (named _)
  · exact .ok (named _)
  · exact .ok (named _)
  · split
    · exact .ok (named _)
    · exact .error rfl
  · split
    · refine .ok ((elementType_shallow rest).bind fun type rest _ => ?_)
      exact (expect_shallow _ rest).bind fun _ rest _ => (symbol_shallow rest).map
    · exact .error rfl
  · exact .error rfl

theorem inputOption_shallow (type : InputType) (options : InputOptions) (ts : List Token) :
    Shallow (reading (inputOption type options)) ts := by
  rw [reading_inputOption]
  refine .take rfl fun t rest _ => ?_
  unfold optionStep
  split
  · exact .error rfl
  split
  · exact .ok (domain_shallow rest).map
  split
  · split
    · exact .ok (symbol_shallow rest).map
    · exact .error rfl
  · exact .error rfl

theorem inputOptions_shallow (type : InputType) (options : InputOptions) (ts : List Token) :
    Shallow (reading (inputOptions type options)) ts := by
  induction hn : ts.length using Nat.strongRecOn generalizing options ts with
  | ind n ih =>
    rw [reading_inputOptions]
    refine .ifNext (fun t rest hts => ?_) (.pure _)
    apply (inputOption_shallow type options rest).bind
    intro options' more hread
    have shorter := reading_length hread
    exact ih more.length (by simp [hts] at hn; omega) options' more rfl

theorem styleNext_shallow (array : Option String) (style : Option AccessMode) (ts : List Token) :
    Shallow (styleNext array style) ts := by
  intro fault hfault
  cases array with
  | none => cases hfault
  | some name =>
    cases hmode : (firstKind ts).style? with
    | none =>
      rw [styleNext_of_none hmode] at hfault
      cases hfault
    | some mode =>
      by_cases hmixed : style.isSome ∧ style ≠ some mode
      · rw [styleNext_of_mixed hmode hmixed] at hfault
        cases hfault
        rfl
      · rw [styleNext_of_some hmode hmixed] at hfault
        cases hfault

end Inputs

section Imports

theorem importNames_shallow (ts : List Token) : Shallow (reading importNames) ts := by
  induction hn : ts.length using Nat.strongRecOn generalizing ts with
  | ind n ih =>
    rw [reading_importNames]
    refine .ifNext (fun t rest hts => .look ?_) (.pure _)
    split
    · exact .pure _
    · apply (symbol_shallow rest).bind
      intro name more hread
      have shorter := reading_length hread
      exact (ih more.length (by simp [hts] at hn; omega) more rfl).map

theorem imports_shallow (ts : List Token) : Shallow (reading imports) ts := by
  induction hn : ts.length using Nat.strongRecOn generalizing ts with
  | ind n ih =>
    rw [reading_imports]
    refine .ifNext (fun t rest hts => ?_) (.pure _)
    apply (symbol_shallow rest).bind
    intro name afterName hname
    have := reading_length hname
    apply (importNames_shallow afterName).bind
    intro names afterNames hnames
    have := reading_length hnames
    have label : Shallow (reading fromLabel) afterNames := by
      rw [reading_fromLabel]
      exact .take rfl fun _ _ _ => .ite rfl
    apply label.bind
    intro _ afterLabel hlabel
    have := reading_length hlabel
    have path : Shallow (reading modulePath) afterLabel := by
      rw [reading_modulePath]
      exact .take rfl fun _ _ _ => .ite rfl
    apply path.bind
    intro source afterPath hpath
    have := reading_length hpath
    exact (ih afterPath.length (by simp [hts] at hn; omega) afterPath rfl).map

end Imports

end Reader

end SchemaLang
