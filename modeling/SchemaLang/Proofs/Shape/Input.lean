import SchemaLang.Proofs.Recognition

namespace SchemaLang

namespace Input

/-- Stands among some inputs or inside one of them, at any depth. -/
inductive Within (input : Input) : List Input → Prop
  | here {inputs : List Input} : input ∈ inputs → Within input inputs
  | inside {inputs : List Input} {parent : Input} :
    parent ∈ inputs → Within input parent.children → Within input inputs

mutual

/-- The input and all those inside it, each before those inside it. -/
def family : Input → List Input
  | ⟨name, type, domain, children, accessMode, index, location⟩ =>
    ⟨name, type, domain, children, accessMode, index, location⟩ :: families children

/-- Inputs and all those inside them, in the order of their declarations. -/
def families : List Input → List Input
  | [] => []
  | input :: inputs => input.family ++ families inputs

end

theorem family_eq (input : Input) : input.family = input :: families input.children := by
  cases input
  rw [family]

theorem families_eq (inputs : List Input) : families inputs = inputs.flatMap family := by
  induction inputs with
  | nil => rw [families, List.flatMap_nil]
  | cons input inputs ih => rw [families, ih, List.flatMap_cons]

/-- An input and those inside it stand in this order among all of some inputs. -/
theorem Within.sublist {input : Input} {inputs : List Input} (h : input.Within inputs) :
    (input :: families input.children).Sublist (families inputs) := by
  have member {input : Input} {inputs : List Input} (hmem : input ∈ inputs) :
      input.family.Sublist (families inputs) := by
    rw [families_eq]
    exact List.sublist_flatten_of_mem (List.mem_map.mpr ⟨input, hmem, rfl⟩)
  induction h with
  | here hmem => exact family_eq input ▸ member hmem
  | inside hmem _ ih =>
    have parent := family_eq _ ▸ member hmem
    exact ih.trans ((List.sublist_cons_self ..).trans parent)

theorem Within.mem {input : Input} {inputs : List Input} (h : input.Within inputs) :
    input ∈ families inputs := h.sublist.subset (List.mem_cons_self ..)

/-- What an input and those right inside it keep to. -/
structure Shaped (input : Input) : Prop where
  item : ∀ item, input.type = .element item → item.IsItem
  container : input.children ≠ [] → input.type.IsContainerType
  parts : ∀ child ∈ input.children, child.type.IsPartOfArray → input.type.IsArrayType
  style : input.type.IsArrayType →
    (∀ child ∈ input.children, child.type ≠ .index → child.type.IsElement) ∨
      ∀ child ∈ input.children, ¬child.type.IsElement
  accessMode : input.accessMode.isSome ↔ input.type.IsArrayType
  elementMode : input.accessMode = some .element ↔ ∃ child ∈ input.children, child.type.IsElement
  index : input.index.isSome → input.type.IsArrayType
  range : ∀ min max exclusive, input.domain = some (.range min max exclusive) → min.Agree max

end Input

section Types

variable {type : InputType}

theorem InputType.style?_eq_element_iff : type.style? = some .element ↔ type.IsElement := by
  cases type <;> simp [InputType.style?, IsElement]

theorem InputType.style?_eq_none_iff : type.style? = none ↔ type = .index := by
  cases type <;> simp [InputType.style?]

end Types

/-- Where the styles of some inputs are uniform, all that give one are elements, or none is. -/
theorem Grammar.Uniform.elements {inputs : List Input}
    (h : Uniform (inputs.map (·.type.style?))) :
    (∀ child ∈ inputs, child.type ≠ .index → child.type.IsElement) ∨
      ∀ child ∈ inputs, ¬child.type.IsElement := by
  obtain ⟨mode, hmode⟩ := h
  have styled (child : Input) (hchild : child ∈ inputs) :
      child.type.style? = none ∨ child.type.style? = some mode :=
    hmode _ (List.mem_map.mpr ⟨child, hchild, rfl⟩)
  cases mode with
  | element =>
    refine .inl fun child hchild hindex => ?_
    rcases styled child hchild with hnone | helement
    · exact absurd (InputType.style?_eq_none_iff.mp hnone) hindex
    · exact InputType.style?_eq_element_iff.mp helement
  | field =>
    refine .inr fun child hchild helement => ?_
    have style := InputType.style?_eq_element_iff.mpr helement
    rcases styled child hchild with hnone | hfield
    · cases style.symm.trans hnone
    · cases style.symm.trans hfield

namespace Grammar

/-- What stands only inside arrays is declared there. -/
theorem Head.inArray {inArray : Bool} {p : List Token} {type : InputType} {name : String}
    (h : Head inArray p (type, name)) (hpart : type.IsPartOfArray) : inArray := by
  cases h with
  | element _ _ _ _ _ => rfl
  | index _ _ => rfl
  | _ => simp [InputType.IsPartOfArray, InputType.IsElement] at hpart

section Access

variable {type : InputType} {children : List Input} {mode : Option AccessMode}

theorem Access.isSome_iff (h : Access type children mode) : mode.isSome ↔ type.IsArrayType := by
  cases h with
  | element ha _ => simpa using ha
  | field ha _ => simpa using ha
  | none ha => simpa using ha

theorem Access.eq_element_iff (h : Access type children mode)
    (hparts : ∀ child ∈ children, child.type.IsPartOfArray → type.IsArrayType) :
    mode = some .element ↔ ∃ child ∈ children, child.type.IsElement := by
  cases h with
  | element _ he => simpa using he
  | field _ hnone => simpa using hnone
  | none ha =>
    have nowhere (child : Input) (hchild : child ∈ children) : ¬child.type.IsElement :=
      fun he => ha (hparts child hchild (.inl he))
    simpa using nowhere

end Access

/-- What is said of an input of a type: only arrays have an index, and the bounds of a range
agree. -/
structure OptionsShaped (type : InputType) (options : Reader.InputOptions) : Prop where
  index : options.index.isSome → type.IsArrayType
  range : ∀ min max exclusive, options.domain = some (.range min max exclusive) → min.Agree max

theorem Setting.shaped {type : InputType} {options options' : Reader.InputOptions}
    {p : List Token} (h : Setting type options p options') (ho : OptionsShaped type options) :
    OptionsShaped type options' := by
  cases h with
  | domain _ _ hdomain =>
    refine ⟨ho.index, fun min max exclusive he => ?_⟩
    cases hdomain with
    | values _ _ _ => cases he
    | range _ _ _ hagree =>
      cases he
      exact hagree
  | index harray _ _ _ => exact ⟨fun _ => harray, ho.range⟩

theorem Options.shaped {type : InputType} {options options' : Reader.InputOptions}
    {p : List Token} (h : Options type options p options') (ho : OptionsShaped type options) :
    OptionsShaped type options' := by
  induction h with
  | nil => exact ho
  | cons _ hp _ ih => exact ih (hp.shaped ho)

/-- What some declarations right inside an array, or elsewhere, keep to: those that stand only
inside arrays do so, those inside an array are in one style, and all is well further in. -/
structure ListShaped (inArray : Bool) (inputs : List Input) : Prop where
  parts : ∀ input ∈ inputs, input.type.IsPartOfArray → inArray
  uniform : inArray → Uniform (inputs.map (·.type.style?))
  within : ∀ input : Input, input.Within inputs → input.Shaped

theorem Block.shaped {nested : Bool → Phrase (List Input)} {type : InputType} {p : List Token}
    {children : List Input}
    (hnested : ∀ inArray p inputs, nested inArray p inputs → ListShaped inArray inputs)
    (h : Block nested type p children) :
    (children ≠ [] → type.IsContainerType) ∧ ListShaped (decide type.IsArrayType) children := by
  cases h with
  | none =>
    refine ⟨fun hne => absurd rfl hne, by simp, fun _ => ⟨.field, by simp⟩, ?_⟩
    intro input hinput
    cases hinput with
    | here hmem => cases hmem
    | inside hmem _ => cases hmem
  | some hcontainer _ hp _ => exact ⟨fun _ => hcontainer, hnested _ _ _ hp⟩

theorem InputDecl.shaped {nested : Bool → Phrase (List Input)} {inArray : Bool} {p : List Token}
    {input : Input}
    (hnested : ∀ inArray p inputs, nested inArray p inputs → ListShaped inArray inputs)
    (h : InputDecl nested inArray p input) :
    (input.type.IsPartOfArray → inArray) ∧ input.Shaped ∧
      ∀ inner : Input, inner.Within input.children → inner.Shaped := by
  obtain @⟨t, p, q, r, type, name, options, children, mode, hhead, hoptions, hblock, haccess⟩ := h
  obtain ⟨hcontainer, hchildren⟩ := hblock.shaped hnested
  have said := hoptions.shaped ⟨by simp, by simp⟩
  have parts (child : Input) (hchild : child ∈ children) (hp : child.type.IsPartOfArray) :
      type.IsArrayType := of_decide_eq_true (hchildren.parts child hchild hp)
  refine ⟨hhead.inArray, ?_, hchildren.within⟩
  exact {
    item := hhead.isDeclarable
    container := hcontainer
    parts := parts
    style := fun harray => (hchildren.uniform (decide_eq_true harray)).elements
    accessMode := haccess.isSome_iff
    elementMode := haccess.eq_element_iff parts
    index := said.index
    range := said.range }

theorem InputList.shaped {nested : Bool → Phrase (List Input)} {inArray : Bool} {p : List Token}
    {inputs : List Input}
    (hnested : ∀ inArray p inputs, nested inArray p inputs → ListShaped inArray inputs)
    (h : InputList nested inArray p inputs) : ListShaped inArray inputs := by
  obtain ⟨hmany, huniform⟩ := h
  have each (input : Input) (hinput : input ∈ inputs) :
      (input.type.IsPartOfArray → inArray) ∧ input.Shaped ∧
        ∀ inner : Input, inner.Within input.children → inner.Shaped := by
    clear huniform
    induction hmany with
    | nil => cases hinput
    | cons hdecl _ ih =>
      rcases List.mem_cons.mp hinput with rfl | hrest
      · exact hdecl.shaped hnested
      · exact ih hrest
  refine ⟨fun input hinput => (each input hinput).1, huniform, fun input hwithin => ?_⟩
  cases hwithin with
  | here hmem => exact (each input hmem).2.1
  | inside hmem hinner => exact (each _ hmem).2.2 input hinner

theorem Inputs.shaped {room : Nat} {inArray : Bool} {p : List Token} {inputs : List Input}
    (h : Inputs room inArray p inputs) : ListShaped inArray inputs := by
  induction room generalizing inArray p inputs with
  | zero => exact InputList.shaped (fun _ _ _ hp => hp.elim) h
  | succ room ih => exact InputList.shaped (fun _ _ _ hp => ih hp) h

theorem Schema.inputs_shaped {limit : Nat} {p : List Token} {s : SchemaLang.Schema}
    (h : Schema limit p s) : ListShaped false s.inputs := by
  obtain ⟨_, _, _, hinputs, _, _, _⟩ := h
  obtain ⟨_, _, hlist, _⟩ := hinputs
  exact hlist.shaped

end Grammar

/-- The inputs of a schema that was read are shaped at every depth, and those at the top are
neither elements nor indices. -/
theorem Schema.ofTokens_inputs_shaped {tokens : List Token} {s : Schema}
    (h : Schema.ofTokens tokens = .ok s) :
    (∀ input ∈ s.inputs, ¬input.type.IsPartOfArray) ∧
      ∀ input : Input, input.Within s.inputs → input.Shaped := by
  have derived := Reader.schema_eq_ok_iff.mp (Schema.ofTokensWithin_eq_ok_iff.mp h)
  have shaped := derived.inputs_shaped
  exact ⟨fun input hinput hpart => Bool.false_ne_true (shaped.parts input hinput hpart),
    shaped.within⟩

/-- Rows of numbers with the position of each: an array of arrays, whose items are elements. -/
def Schema.rowsOfNumbers : List Token :=
  [Reader.sample (.keyword .schema) "schema", Reader.sample (.keyword .doWord) "do",
    Reader.sample (.keyword .input) "input", Reader.sample (.keyword .doWord) "do",
    Reader.sample (.type .array) "array", Reader.sample .symbol "rows",
    Reader.sample (.mark .comma) ",", Reader.sample .label "index", Reader.sample .symbol "row",
    Reader.sample (.keyword .doWord) "do", Reader.sample (.type .index) "index",
    Reader.sample .symbol "i", Reader.sample (.type .element) "element",
    Reader.sample .symbol "array", Reader.sample (.mark .comma) ",", Reader.sample .symbol "cells",
    Reader.sample (.keyword .doWord) "do", Reader.sample (.type (.primitive .integer)) "integer",
    Reader.sample .symbol "n", Reader.sample (.mark .comma) ",", Reader.sample .label "domain",
    Reader.sample .integer "0", Reader.sample (.mark .dotDot) "..", Reader.sample .integer "9",
    Reader.sample (.keyword .endWord) "end", Reader.sample (.keyword .endWord) "end",
    Reader.sample (.keyword .endWord) "end", Reader.sample (.keyword .endWord) "end"]

theorem Schema.rowsOfNumbers_shaped :
    ∃ s, Schema.ofTokens Schema.rowsOfNumbers = .ok s ∧
      s.inputs.map (fun input => (input.name, input.type, input.accessMode, input.index)) =
        [("rows", .array, some .element, some "row")] ∧
      (∀ input ∈ s.inputs, ¬input.type.IsPartOfArray) ∧
      ∀ input : Input, input.Within s.inputs → input.Shaped := by
  have judged : (Schema.ofTokens Schema.rowsOfNumbers).toOption.map (fun s =>
      s.inputs.map fun input => (input.name, input.type, input.accessMode, input.index)) =
        some [("rows", .array, some .element, some "row")] := by decide +kernel
  cases h : Schema.ofTokens Schema.rowsOfNumbers with
  | error e =>
    rw [h] at judged
    cases judged
  | ok s =>
    rw [h] at judged
    exact ⟨s, rfl, Option.some.inj judged, Schema.ofTokens_inputs_shaped h⟩

end SchemaLang
