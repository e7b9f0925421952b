import SchemaLang.Proofs.Complete.Basic
import SchemaLang.Proofs.Predictive.Input

namespace SchemaLang.Reader

open Reading

theorem domainLiteral_takes :
    Takes Grammar.DomainLiteral (fun _ => True) (reading domainLiteral) := by
  intro p value rest hp _
  rw [reading_domainLiteral]
  cases hp with
  | integer hk hn =>
    simp only [List.cons_append, List.nil_append, take, domainStep, hk, intStep,
      Grammar.denotes_iff.mp hn]
    rfl
  | float hk hx =>
    simp only [List.cons_append, List.nil_append, take, domainStep, hk, floatStep, hx]
    rfl
  | string hk => simp only [List.cons_append, List.nil_append, take, domainStep, hk]; rfl
  | symbol hk => simp only [List.cons_append, List.nil_append, take, domainStep, hk]; rfl
  | boolean hk => simp only [List.cons_append, List.nil_append, take, domainStep, hk]; rfl

theorem bound_takes : Takes Grammar.Bound (fun _ => True) (reading bound) := by
  intro p b rest hp _
  rw [reading_bound]
  cases hp with
  | integer hk hn =>
    simp only [List.cons_append, List.nil_append, take, boundStep, hk, intStep,
      Grammar.denotes_iff.mp hn]
    rfl
  | float hk hx =>
    simp only [List.cons_append, List.nil_append, take, boundStep, hk, floatStep, hx]
    rfl
  | infinity hk hi =>
    simp only [List.cons_append, List.nil_append, take, boundStep, hk,
      if_pos (show isInfinity _ from ⟨hk, hi⟩)]
    rfl
  | @negative minus t hm hk hi =>
    have constant : firstKind (t :: rest) = .constant := hk
    have infinity : isInfinity t := ⟨hk, hi⟩
    simp only [List.cons_append, List.nil_append, take, boundStep, hm, look_bind, if_pos constant,
      reading_infinity, if_pos infinity]
    rfl

theorem domain_takes : Takes Grammar.Domain (fun _ => True) (reading domain) := by
  intro p d rest hp _
  rw [reading_domain]
  cases hp with
  | values ho hp hc =>
    have start (p : List Token) (value : Literal) (rest : List Token)
        (hp : Grammar.DomainLiteral p value) : firstKind (p ++ rest) ≠ .mark .rightBracket := by
      intro he
      cases hp <;> simp_all [firstKind]
    have read := separated_of_takes (.mark .rightBracket) domainLiteral_takes start
      (fun _ _ _ => trivial) (by decide) hp hc rest
    simp only [List.cons_append, List.append_assoc, List.nil_append, ifNext_of_eq ho,
      bind_of_ok read]
    rfl
  | @range dots p q min max exclusive hp hd hq hagree =>
    have start : firstKind (p ++ dots :: (q ++ rest)) ≠ .mark .leftBracket := by
      intro he
      cases hp <;> simp_all [firstKind]
    have middle : reading Reader.dots (dots :: (q ++ rest)) = .ok (exclusive, q ++ rest) := by
      rw [reading_dots]
      cases exclusive with
      | false =>
        have two : dots.kind = .mark .dotDot := hd
        rw [take_of_ok (if_pos two)]
        rfl
      | true =>
        have three : dots.kind = .mark .dotDotDot := hd
        simp only [take, three]
        rfl
    rw [List.append_assoc, List.cons_append, ifNext_of_ne start, look_bind,
      bind_of_ok (bound_takes p min _ hp trivial), bind_of_ok middle,
      bind_of_ok (bound_takes q max _ hq trivial), if_pos (Bound.agree_iff.mpr hagree)]
    rfl

theorem inputHead_takes (inArray : Bool) :
    Takes (Grammar.Head inArray) (fun _ => True) (reading (inputHead inArray)) := by
  intro p head rest hp _
  rw [reading_inputHead]
  cases hp with
  | array hk hn =>
    simp only [List.cons_append, List.nil_append, take, headStep, hk,
      bind_of_ok (symbol_of_kind hn rest)]
    rfl
  | hash hk hn =>
    simp only [List.cons_append, List.nil_append, take, headStep, hk,
      bind_of_ok (symbol_of_kind hn rest)]
    rfl
  | primitive hk hn =>
    simp only [List.cons_append, List.nil_append, take, headStep, hk,
      bind_of_ok (symbol_of_kind hn rest)]
    rfl
  | index hk hn =>
    simp only [List.cons_append, List.nil_append, take, headStep, hk, if_true,
      bind_of_ok (symbol_of_kind hn rest)]
    rfl
  | @element t item comma name type hk hi htype hc hn =>
    have read : reading elementType (item :: comma :: name :: rest) =
        .ok (type, comma :: name :: rest) := by
      rw [reading_elementType]
      simp only [take, if_pos hi, htype]
      rfl
    simp only [List.cons_append, List.nil_append, take, headStep, hk, if_true, bind_of_ok read,
      bind_of_ok (expect_of_kind hc _), bind_of_ok (symbol_of_kind hn rest)]
    rfl

theorem inputOption_takes (type : InputType) (options : InputOptions) :
    Takes (Grammar.Setting type options) (fun _ => True) (reading (inputOption type options)) := by
  intro p options' rest hp _
  rw [reading_inputOption]
  cases hp with
  | domain hl hr hp =>
    simp only [List.cons_append, take, optionStep, hl, hr, ne_eq, not_true_eq_false, if_true,
      if_false, bind_of_ok (domain_takes _ _ rest hp trivial)]
    rfl
  | index ha hl hr hn =>
    have other : "index" ≠ "domain" := by decide
    simp only [List.cons_append, List.nil_append, take, optionStep, hl, hr, ha.isArray, ne_eq,
      not_true_eq_false, if_true, if_false, if_neg other, bind_of_ok (symbol_of_kind hn rest)]
    rfl

theorem inputOptions_takes {type : InputType} {options options' : InputOptions}
    {p : List Token} (hp : Grammar.Options type options p options') {rest : List Token}
    (hrest : firstKind rest ≠ .mark .comma) :
    reading (inputOptions type options) (p ++ rest) = .ok (options', rest) := by
  induction hp with
  | nil =>
    rw [reading_inputOptions]
    exact ifNext_of_ne hrest
  | @cons comma p q options options' options'' hc hp _ ih =>
    rw [reading_inputOptions, List.append_assoc, List.cons_append, ifNext_of_eq hc,
      bind_of_ok (inputOption_takes type options p options' _ hp trivial), ih]

def NestedTakes (N : Bool → Phrase (List Input))
    (nested : Option String → Tail (List Input)) : Prop :=
  ∀ array, Takes (N array.isSome) (fun rest => firstKind rest = .keyword .endWord)
    (reading (nested array))

variable {N : Bool → Phrase (List Input)} {nested : Option String → Tail (List Input)}

theorem inputBlock_takes (h : NestedTakes N nested) (type : InputType) (name : String) :
    Takes (Grammar.Block N type) (fun rest => firstKind rest ≠ .keyword .doWord)
      (reading (inputBlock nested type name)) := by
  intro p children rest hp hrest
  rw [reading_inputBlock, look_bind]
  cases hp with
  | none =>
    rw [List.nil_append, if_neg fun hk => hrest hk.1]
    exact ifNext_of_ne hrest
  | @some opening closing p children hcontainer ho hp hc =>
    have array : (if type.isArray then some name else none).isSome = type.isArray := by
      cases type.isArray <;> rfl
    rw [← hcontainer.isArray_eq, ← array] at hp
    have read := h _ p children (closing :: rest) hp hc
    rw [if_neg fun hk => Bool.false_ne_true (hk.2.symm.trans hcontainer.isContainer),
      List.append_assoc,
      List.cons_append, ifNext_of_eq ho, List.cons_append, List.nil_append, bind_of_ok read,
      bind_of_ok (expect_of_kind hc rest)]
    rfl

theorem input_takes (h : NestedTakes N nested) (inArray : Bool) :
    Takes (Grammar.InputDecl N inArray)
      (fun rest => firstKind rest ≠ .mark .comma ∧ firstKind rest ≠ .keyword .doWord)
      (reading (input nested inArray)) := by
  intro _ _ rest hdecl hrest
  obtain @⟨t, p, q, r, type, name, options, children, mode, hp, hq, hr, haccess⟩ := hdecl
  obtain ⟨hcomma, hdo⟩ := hrest
  have between : firstKind (r ++ rest) ≠ .mark .comma := by
    cases hr with
    | none => exact hcomma
    | some _ ho _ _ => exact ne_of_eq_of_ne ho (by decide)
  rw [reading_input, look_bind, List.append_assoc, List.append_assoc,
    bind_of_ok (inputHead_takes inArray (t :: p) _ _ hp trivial),
    bind_of_ok (inputOptions_takes hq between),
    bind_of_ok (inputBlock_takes h type name r children rest hr hdo),
    haccess.unique (Grammar.access_accessMode hp.isDeclarable children)]
  rfl

theorem inputDecl_firstKind {inArray : Bool} {p : List Token} {i : Input}
    (hp : Grammar.InputDecl N inArray p i) (rest : List Token) :
    ∃ word, firstKind (p ++ rest) = .type word := by
  obtain @⟨t, p, q, r, type, name, options, children, mode, hp, _, _, _⟩ := hp
  cases hp with
  | array hk _ => exact ⟨_, hk⟩
  | hash hk _ => exact ⟨_, hk⟩
  | primitive hk _ => exact ⟨_, hk⟩
  | index hk _ => exact ⟨_, hk⟩
  | element hk _ _ _ _ => exact ⟨_, hk⟩

/-- The style that a declaration adds is one that the reader allows. -/
theorem styleNext_of_uniform {array : Option String} {style : Option AccessMode}
    {styles : List (Option AccessMode)} (ts : List Token)
    (h : array.isSome → Grammar.Uniform (style :: (firstKind ts).style? :: styles)) :
    ∃ style', styleNext array style ts = .ok (style', ts) ∧
      (array.isSome → Grammar.Uniform (style' :: styles)) := by
  cases array with
  | none => exact ⟨style, rfl, by simp⟩
  | some name =>
    have uniform := h rfl
    cases hs : (firstKind ts).style? with
    | none =>
      rw [hs, Grammar.uniform_cons_none] at uniform
      exact ⟨style, styleNext_of_none hs, fun _ => uniform⟩
    | some mode =>
      rw [hs, Grammar.uniform_cons_some] at uniform
      exact ⟨some mode, styleNext_of_some hs uniform.1, fun _ => uniform.2⟩

theorem inputList_takes (h : NestedTakes N nested) (array : Option String)
    (style : Option AccessMode) :
    Takes (Styled N array.isSome style) (fun rest => firstKind rest = .keyword .endWord)
      (reading (inputList (input nested) array style)) := by
  intro p is rest hstyled hrest
  obtain ⟨hp, huniform⟩ := hstyled
  have stop : ∃ t us, rest = t :: us ∧ t.kind = .keyword .endWord := by
    cases rest with
    | nil => cases hrest
    | cons t us => exact ⟨t, us, rfl, hrest⟩
  induction hp generalizing style with
  | nil =>
    obtain ⟨t, us, rfl, ht⟩ := stop
    rw [reading_inputList, List.nil_append, look_bind]
    simp only [List.head?_cons, if_pos ht]
    rfl
  | @cons p q i is hp hq ih =>
    obtain ⟨t, p', rfl, hstyle⟩ := hp.exists_cons
    obtain ⟨word, hword⟩ := inputDecl_firstKind hp (q ++ rest)
    have after : firstKind (q ++ rest) ≠ .mark .comma ∧
        firstKind (q ++ rest) ≠ .keyword .doWord := by
      cases hq with
      | nil => rw [List.nil_append, hrest]; decide
      | @cons q₁ q₂ _ _ hq₁ _ =>
        obtain ⟨word, hword⟩ := inputDecl_firstKind hq₁ (q₂ ++ rest)
        rw [List.append_assoc, hword]
        simp
    have notEnd : t.kind ≠ .keyword .endWord := ne_of_eq_of_ne hword (by simp)
    rw [List.map_cons, hstyle] at huniform
    obtain ⟨style', hnext, huniform'⟩ :=
      styleNext_of_uniform (t :: p' ++ (q ++ rest)) huniform
    rw [reading_inputList, List.append_assoc, look_bind]
    simp only [List.cons_append, List.head?_cons, if_neg notEnd]
    rw [← List.cons_append, bind_of_ok hnext, bind_of_ok (input_takes h _ _ i _ hp after),
      bind_of_ok (ih style' huniform')]
    rfl

theorem NestedTakes.inputs {room : Nat} (h : NestedTakes N (nestedInputs room)) :
    NestedTakes (Grammar.InputList N) (inputs room) := by
  intro array p is rest hp hrest
  rw [inputs_eq]
  refine inputList_takes h array none p is rest ⟨hp.1, fun ha => ?_⟩ hrest
  exact Grammar.uniform_none_cons.mpr (hp.2 ha)

theorem inputs_takes (room : Nat) : NestedTakes (Grammar.Inputs room) (inputs room) := by
  induction room with
  | zero => exact NestedTakes.inputs fun _ _ _ _ hp => hp.elim
  | succ room ih => exact NestedTakes.inputs ih

end SchemaLang.Reader
