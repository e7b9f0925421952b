import SchemaLang.Proofs.Predictive.Basic
import SchemaLang.Proofs.Reading.Input

namespace SchemaLang.Reader

open Reading

variable {roomy : Prop}

theorem predicts_domainLiteral (ts : List Token) :
    Predicts roomy Grammar.DomainLiteral (reading domainLiteral) ts := by
  rw [reading_domainLiteral]
  refine Predicts.take (fun _ => ⟨[sample .string ""], _, .string rfl⟩) ?_
  intro t rest next _ hs
  rw [domainStep] at hs
  split at hs
  · next hk => exact predicts_intStep hs fun n hn => .integer hk hn
  · next hk => exact predicts_floatStep hs fun x hx => .float hk hx
  · next hk => cases hs; exact Predicts.pure (.string hk)
  · next hk => cases hs; exact Predicts.pure (.symbol hk)
  · next hk => cases hs; exact Predicts.pure (.boolean hk)
  · cases hs

theorem exists_infinite :
    Grammar.Bound [sample .constant "Float::INFINITY"] (infinite false) :=
  .infinity rfl rfl

/-- A bound without end agrees with every other. -/
theorem agree_infinite (b : Bound) (negative : Bool) : b.Agree (infinite negative) := by
  have unending : (if negative then -(1.0 / 0.0) else 1.0 / 0.0 : Float).isInf = true := by
    cases negative <;> decide
  exact .inr (.inr ⟨_, .inr rfl, unending⟩)

/-- Bounds with a property that those without end have: one that is started can be completed with
it, if one that is there has it. -/
theorem predicts_bound {P : Bound → Prop} (hP : ∀ negative, P (infinite negative))
    {ts : List Token} (hts : ∀ b rest, reading bound ts = .ok (b, rest) → P b) :
    Predicts roomy (fun p b => Grammar.Bound p b ∧ P b) (reading bound) ts := by
  have unbounded : ∃ s b, Grammar.Bound s b ∧ P b := ⟨_, _, exists_infinite, hP false⟩
  rw [reading_bound] at hts ⊢
  by_cases hm : ∃ t rest, ts = t :: rest ∧ t.kind = .operator .subtract ∧ firstKind rest ≠ .constant
  · obtain ⟨t, rest, rfl, ht, hr⟩ := hm
    refine Predicts.of_looksPast ⟨some t, .expectedBound⟩ ?_ rfl ?_ fun _ => unbounded
    · simp only [take, boundStep, ht, look_bind, if_neg hr]
      rfl
    · exact Or.inr (Or.inr ⟨rfl, ht, hr⟩)
  · apply Predicts.take (fun _ => unbounded)
    intro t rest next htoken hs
    subst htoken
    have value {b : Bound} (h : boundStep t = .ok (pure b)) : P b :=
      hts b rest (take_of_ok h rest)
    rw [boundStep] at hs value
    split at hs
    · next hk =>
      refine predicts_intStep hs fun n hn => ⟨.integer hk hn, value ?_⟩
      simp only [hk, intStep, Grammar.denotes_iff.mp hn]
    · next hk =>
      refine predicts_floatStep hs fun x hx => ⟨.float hk hx, value ?_⟩
      simp only [hk, floatStep, hx]
    · next hk =>
      cases hs
      have constant : firstKind rest = .constant :=
        Classical.byContradiction fun hne => hm ⟨t, rest, rfl, hk, hne⟩
      apply Predicts.look firstKind_congr
      rw [if_pos constant, reading_infinity]
      refine Predicts.take (fun _ => ?_) ?_
      · exact ⟨[sample .constant "Float::INFINITY"], _, .negative hk rfl rfl, hP true⟩
      · intro u _ _ _ hu
        split at hu
        · next hi => cases hu; exact Predicts.pure ⟨.negative hk hi.1 hi.2, hP true⟩
        · cases hu
    · split at hs
      · next hi => cases hs; exact Predicts.pure ⟨.infinity hi.1 hi.2, hP false⟩
      · cases hs

theorem predicts_dots (ts : List Token) :
    Predicts roomy
      (Single fun t exclusive => t.kind = .mark (if exclusive then .dotDotDot else .dotDot))
      (reading dots) ts := by
  rw [reading_dots]
  apply predicts_single ⟨sample (.mark .dotDot) "", false, rfl⟩
  intro t next hs
  split at hs
  · next hk => cases hs; exact ⟨false, rfl, hk⟩
  · split at hs
    · next hk => cases hs; exact ⟨true, rfl, hk⟩
    · cases hs

theorem predicts_domain (ts : List Token) :
    Predicts roomy Grammar.Domain (reading domain) ts := by
  rw [reading_domain]
  refine Predicts.ifNext ?_ fun _ => ?_
  · intro op rest _ ho
    apply (predicts_items predicts_domainLiteral rest).map
    intro q values hvalues
    obtain ⟨p, close, rfl, hc, hp⟩ := hvalues
    exact .values ho hp hc
  · apply Predicts.look (fun _ _ h => h)
    -- The refusal of bounds that do not agree goes back to the first token, so it is split off.
    by_cases hm : ∃ min mid exclusive mid' max rest, reading bound ts = .ok (min, mid) ∧
        reading dots mid = .ok (exclusive, mid') ∧ reading bound mid' = .ok (max, rest) ∧
        min.agree max = false
    · obtain ⟨min, mid, exclusive, mid', max, rest, hmin, hdots, hmax, hne⟩ := hm
      have any (us : List Token) : Predicts False (fun p b => Grammar.Bound p b ∧ True)
          (reading bound) us := predicts_bound (fun _ => trivial) fun _ _ _ => trivial
      obtain ⟨p, rfl, hp, _⟩ := (any ts).ok min mid hmin
      have dotted : Predicts False _ (reading dots) mid := predicts_dots mid
      obtain ⟨_, rfl, ⟨d, rfl, _⟩, _⟩ := dotted.ok exclusive mid' hdots
      obtain ⟨q, rfl, hq, _⟩ := (any mid').ok max rest hmax
      refine Predicts.of_looksPast ⟨_, .mixedRange⟩ ?_ rfl ?_ fun _ => ?_
      · rw [bind_of_ok hmin, bind_of_ok hdots, bind_of_ok hmax, hne]
        rfl
      · exact Or.inl ⟨rfl, p, d, q, rest, min, max, rfl, hp.1, hq.1, hne⟩
      · exact ⟨[_, sample (.mark .dotDot) "", _], .range _ _ false,
          .range exists_infinite rfl exists_infinite (agree_infinite _ false)⟩
    apply Predicts.bind (predicts_bound (fun _ => trivial) fun _ _ _ => trivial)
    · intro min p rest _ hmin hp
      apply Predicts.bind (predicts_dots rest)
      · intro exclusive p' rest' _ hdots hd
        obtain ⟨dots, rfl, hd⟩ := hd
        have agree (max : Bound) (rest'' : List Token)
            (hmax : reading bound rest' = .ok (max, rest'')) : min.Agree max := by
          refine Classical.byContradiction fun hne => hm ?_
          exact ⟨min, rest, exclusive, rest', max, rest'', hmin, hdots, hmax,
            Bool.eq_false_iff.mpr fun agree => hne (Bound.agree_iff.mp agree)⟩
        apply Predicts.bind (predicts_bound (agree_infinite min) agree)
        · intro max q _ _ _ hq
          rw [if_pos (Bound.agree_iff.mpr hq.2)]
          apply Predicts.pure
          simpa using Grammar.Domain.range hp.1 hd hq.1 hq.2
        · intro _ q max hq
          exact ⟨[], _, by simpa using Grammar.Domain.range hp.1 hd hq.1 hq.2⟩
      · intro _ p' exclusive hd
        obtain ⟨dots, rfl, hd⟩ := hd
        exact ⟨[_], _, .range hp.1 hd exists_infinite (agree_infinite min false)⟩
    · intro _ p min hp
      exact ⟨[sample (.mark .dotDot) "", _], .range min _ false,
        .range hp.1 rfl exists_infinite (agree_infinite min false)⟩

theorem predicts_elementType (ts : List Token) :
    Predicts roomy
      (Single fun t type => t.kind = .symbol ∧ InputType.ofElementName? t.raw = some type)
      (reading elementType) ts := by
  rw [reading_elementType]
  apply predicts_single ⟨sample .symbol "array", .array, rfl, rfl⟩
  intro t next hs
  split at hs
  · next hk =>
    split at hs
    · next type ht => cases hs; exact ⟨type, rfl, hk, ht⟩
    · cases hs
  · cases hs

theorem predicts_inputHead (inArray : Bool) (ts : List Token) :
    Predicts roomy (Grammar.Head inArray) (reading (inputHead inArray)) ts := by
  rw [reading_inputHead]
  refine Predicts.take (fun _ => ?_) ?_
  · exact ⟨[sample (.type .array) "", sample .symbol ""], _, .array rfl rfl⟩
  intro t rest next _ hs
  rw [headStep] at hs
  split at hs
  · next hk => cases hs; exact Predicts.lastSymbol fun name hn => .array hk hn
  · next hk => cases hs; exact Predicts.lastSymbol fun name hn => .hash hk hn
  · next hk => cases hs; exact Predicts.lastSymbol fun name hn => .primitive hk hn
  · next hk =>
    cases inArray with
    | false => cases hs
    | true => cases hs; exact Predicts.lastSymbol fun name hn => .index hk hn
  · next hk =>
    cases inArray with
    | false => cases hs
    | true =>
      cases hs
      apply (predicts_elementType rest).bind_single
      · intro item type rest' _ hitem
        apply Predicts.expect
        · intro comma rest'' _ hc
          apply Predicts.lastSymbol
          intro name hn
          exact .element hk hitem.1 hitem.2 hc hn
        · intro _ comma hc
          exact ⟨[sample .symbol ""], _, .element hk hitem.1 hitem.2 hc rfl⟩
      · intro _ item type hitem
        exact ⟨[sample (.mark .comma) "", sample .symbol ""], _,
          .element hk hitem.1 hitem.2 rfl rfl⟩
  · cases hs

theorem exists_domain : Grammar.Domain
    [sample (.mark .leftBracket) "", sample (.mark .rightBracket) ""] (.values []) :=
  .values rfl .nil rfl

theorem predicts_inputOption {type : InputType} (htype : type.IsDeclarable) (options : InputOptions)
    (ts : List Token) :
    Predicts roomy (Grammar.Setting type options) (reading (inputOption type options)) ts := by
  rw [reading_inputOption]
  refine Predicts.take (fun _ => ?_) ?_
  · exact ⟨sample .label "domain" :: _, _, .domain rfl rfl exists_domain⟩
  intro t rest next _ hs
  rw [optionStep] at hs
  split at hs
  · cases hs
  · next hk =>
    have label : t.kind = .label := Decidable.of_not_not hk
    split at hs
    · next hd =>
      cases hs
      apply (predicts_domain rest).map
      intro p d hp
      exact .domain label hd hp
    · split at hs
      · next hi =>
        split at hs
        · next ha =>
          cases hs
          apply Predicts.lastSymbol
          intro name hn
          exact .index ((InputType.isArray_iff htype).mp ha) label hi hn
        · cases hs
      · cases hs

theorem predicts_inputOptions {type : InputType} (htype : type.IsDeclarable)
    (options : InputOptions) (ts : List Token) :
    Predicts roomy (Grammar.Options type options) (reading (inputOptions type options)) ts := by
  induction hn : ts.length using Nat.strongRecOn generalizing options ts with
  | ind n ih =>
    rw [reading_inputOptions]
    refine Predicts.ifNext ?_ fun _ => Predicts.pure .nil
    intro comma rest hts hc
    subst hts
    apply Predicts.bind (predicts_inputOption htype options rest)
    · intro options' p rest' _ hread hp
      have shorter := reading_length hread
      have more := ih rest'.length (by simp at hn; omega) options' rest' rfl
      exact more.mono fun q options'' hq => .cons hc hp hq
    · intro _ p options' hp
      exact ⟨[], _, .cons hc hp .nil⟩

def NestedPredicts (roomy : Prop) (N : Bool → Phrase (List Input))
    (nested : Option String → Tail (List Input)) : Prop :=
  ∀ array ts, Predicts roomy (N array.isSome) (reading (nested array)) ts

variable {N : Bool → Phrase (List Input)} {nested : Option String → Tail (List Input)}

theorem predicts_inputBlock (h : NestedPredicts roomy N nested) {type : InputType}
    (htype : type.IsDeclarable) (name : String) (ts : List Token) :
    Predicts roomy (Grammar.Block N type) (reading (inputBlock nested type name)) ts := by
  rw [reading_inputBlock]
  apply Predicts.look firstKind_congr
  split
  · exact Predicts.refuse fun _ => ⟨[], [], .none⟩
  · next hk =>
    refine Predicts.ifNext ?_ fun _ => Predicts.pure .none
    intro opening rest hts ho
    subst hts
    have container : type.IsContainerType := by
      apply (InputType.isContainer_iff htype).mp
      cases hc : type.isContainer with
      | true => rfl
      | false => exact absurd ⟨ho, hc⟩ hk
    have array : (if type.isArray then some name else none).isSome = decide type.IsArrayType := by
      rw [← container.isArray_eq]
      cases type.isArray <;> rfl
    apply Predicts.bind (h _ rest)
    · intro children p rest' _ _ hp
      rw [array] at hp
      apply Predicts.close
      intro closing hc
      exact .some container ho hp hc
    · intro _ p children hp
      rw [array] at hp
      exact ⟨[sample (.keyword .endWord) ""], _, .some container ho hp rfl⟩

theorem predicts_input (h : NestedPredicts roomy N nested) (inArray : Bool) (ts : List Token) :
    Predicts roomy (Grammar.InputDecl N inArray) (reading (input nested inArray)) ts := by
  rw [reading_input]
  apply Predicts.look (fun us vs huv => by rw [firstLocation, huv, firstLocation])
  apply Predicts.bind (predicts_inputHead inArray ts)
  · intro head p rest hts _ hp
    obtain ⟨type, name⟩ := head
    obtain ⟨t, p, rfl⟩ := hp.exists_cons
    have location : firstLocation ts = t.location := by rw [hts]; rfl
    rw [location]
    apply Predicts.bind (predicts_inputOptions hp.isDeclarable ⟨none, none⟩ rest)
    · intro options q rest' _ _ hq
      apply (predicts_inputBlock h hp.isDeclarable name rest').map
      intro r children hr
      simpa using Grammar.InputDecl.of_head hp hq hr
    · intro _ q options hq
      exact ⟨[], _, by simpa using Grammar.InputDecl.of_head hp hq .none⟩
  · intro _ p head hp
    obtain ⟨type, name⟩ := head
    obtain ⟨t, p, rfl⟩ := hp.exists_cons
    exact ⟨[], _, by simpa using Grammar.InputDecl.of_head hp .nil .none⟩

/-- Further declarations in an array, after some in a style, or elsewhere. -/
def Styled (N : Bool → Phrase (List Input)) (inArray : Bool) (style : Option AccessMode) :
    Phrase (List Input) := fun p inputs =>
  Grammar.Many (Grammar.InputDecl N inArray) p inputs ∧
    (inArray → Grammar.Uniform (style :: inputs.map (·.type.style?)))

theorem styled_nil (array : Bool) (style : Option AccessMode) : Styled N array style [] [] :=
  ⟨.nil, fun _ => Grammar.uniform_singleton style⟩

/-- A declaration in a style, and the declarations that follow it. -/
theorem predicts_styledDecl (h : NestedPredicts roomy N nested) {array : Option String}
    {style style' : Option AccessMode} {ts : List Token}
    (hmore : ∀ rest : List Token, rest.length < ts.length →
      Predicts roomy (Styled N array.isSome style')
        (reading (inputList (input nested) array style')) rest)
    (hstyle : ∀ styles, array.isSome → Grammar.Uniform (style' :: styles) →
      Grammar.Uniform (style :: (firstKind ts).style? :: styles)) :
    Predicts roomy (Styled N array.isSome style) (do
      let input ← reading (input nested array.isSome)
      let inputs ← reading (inputList (Reader.input nested) array style')
      pure (input :: inputs)) ts := by
  have whole {p q : List Token} {i : Input} {is : List Input} (hts : ts.head? = p.head?)
      (hp : Grammar.InputDecl N array.isSome p i) (hq : Styled N array.isSome style' q is) :
      Styled N array.isSome style (p ++ q) (i :: is) := by
    refine ⟨.cons hp hq.1, fun ha => ?_⟩
    obtain ⟨t, p, rfl, ht⟩ := hp.exists_cons
    rw [List.map_cons, ht, ← show firstKind ts = t.kind from firstKind_congr _ _ hts]
    exact hstyle _ ha (hq.2 ha)
  apply Predicts.bind_of_append (predicts_input h array.isSome ts)
  · intro i p rest hts hread hp
    have head : ts.head? = p.head? := by
      obtain ⟨t, p, rfl, _⟩ := hp.exists_cons
      rw [hts]
      rfl
    apply (hmore rest (reading_length hread)).map
    intro q is hq
    exact whole head hp hq
  · intro _ p q s i hts hp
    cases p with
    | nil => exact ⟨[], [], styled_nil _ style⟩
    | cons t p =>
      have one := whole (by rw [hts]; rfl) hp (styled_nil _ style')
      exact ⟨s, _, by simpa using one⟩

theorem predicts_inputList (h : NestedPredicts roomy N nested) (array : Option String)
    (style : Option AccessMode) (ts : List Token) :
    Predicts roomy (Styled N array.isSome style)
      (reading (inputList (input nested) array style)) ts := by
  induction hn : ts.length using Nat.strongRecOn generalizing style ts with
  | ind n ih =>
    have more (style' : Option AccessMode) (rest : List Token) (hlt : rest.length < ts.length) :
        Predicts roomy (Styled N array.isSome style')
          (reading (inputList (input nested) array style')) rest :=
      ih rest.length (by omega) style' rest rfl
    have nothing : Styled N array.isSome style [] [] := styled_nil _ style
    rw [reading_inputList]
    apply Predicts.look (fun _ _ h => h)
    split
    · exact Predicts.pure nothing
    · split
      · exact Predicts.pure nothing
      · cases array with
        | none => exact predicts_styledDecl h (more style) (by simp)
        | some name =>
          cases hs : (firstKind ts).style? with
          | none =>
            have decl : Predicts roomy (Styled N true style) _ ts :=
              predicts_styledDecl h (more style) fun styles _ hu => by
                rw [hs]
                exact Grammar.uniform_cons_none.mpr hu
            refine Predicts.congr_head (fun us hu => ?_) decl
            rw [← firstKind_congr us ts hu] at hs
            exact bind_of_ok (styleNext_of_none hs)
          | some mode =>
            by_cases hmixed : style.isSome ∧ style ≠ some mode
            · have refused : Predicts roomy (Styled N true style)
                  (refuse (.mixedArray name)) ts := Predicts.refuse fun _ => ⟨[], [], nothing⟩
              refine Predicts.congr_head (fun us hu => ?_) refused
              rw [← firstKind_congr us ts hu] at hs
              exact bind_of_error (styleNext_of_mixed hs hmixed)
            · have decl : Predicts roomy (Styled N true style) _ ts :=
                predicts_styledDecl h (more (some mode)) fun styles _ hu => by
                  rw [hs]
                  exact Grammar.uniform_cons_some.mpr ⟨hmixed, hu⟩
              refine Predicts.congr_head (fun us hu => ?_) decl
              rw [← firstKind_congr us ts hu] at hs
              exact bind_of_ok (styleNext_of_some hs hmixed)

theorem NestedPredicts.inputs {room : Nat} (h : NestedPredicts roomy N (nestedInputs room)) :
    NestedPredicts roomy (Grammar.InputList N) (inputs room) := by
  intro array ts
  rw [inputs_eq]
  refine (predicts_inputList h array none ts).mono fun p is hp => ⟨hp.1, fun ha => ?_⟩
  exact Grammar.uniform_none_cons.mp (hp.2 ha)

/-- Readers of input declarations follow the grammar of as many levels. -/
theorem inputs_predicts (room : Nat) :
    NestedPredicts False (Grammar.Inputs room) (inputs room) := by
  induction room with
  | zero => exact NestedPredicts.inputs fun _ _ => Predicts.refuse False.elim
  | succ room ih => exact NestedPredicts.inputs ih

/-- With one level more than the readers may open, whatever they have read can be completed. -/
theorem inputs_predicts_roomy (room : Nat) :
    NestedPredicts True (Grammar.Inputs (room + 1)) (inputs room) := by
  induction room with
  | zero =>
    refine NestedPredicts.inputs fun _ _ => Predicts.refuse fun _ => ⟨[], [], .nil, fun _ => ?_⟩
    exact Grammar.uniform_none_cons.mp (Grammar.uniform_singleton none)
  | succ room ih => exact NestedPredicts.inputs ih

end SchemaLang.Reader
