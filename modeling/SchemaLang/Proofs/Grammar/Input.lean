import SchemaLang.Input.Reader
import SchemaLang.Proofs.Grammar.Basic
import SchemaLang.Proofs.Grammar.Number

namespace SchemaLang

namespace InputType

/-- An array, or the items of an array that are arrays themselves. -/
def IsArrayType (type : InputType) : Prop := type = .array ∨ type = .element .array

/-- A type whose inputs may hold further ones. -/
def IsContainerType (type : InputType) : Prop :=
  type.IsArrayType ∨ type = .hash ∨ type = .element .hash

instance (type : InputType) : Decidable type.IsArrayType := inferInstanceAs (Decidable (_ ∨ _))

def IsElement (type : InputType) : Prop := ∃ item, type = .element item

/-- A type that is declared only right inside an array. -/
def IsPartOfArray (type : InputType) : Prop := type.IsElement ∨ type = .index

/-- A type that the items of an array may be declared to have. -/
def IsItem (type : InputType) : Prop := (∃ p, type = .primitive p) ∨ type = .array ∨ type = .hash

/-- A type that an input may be declared to have: the items of an array are of a fitting type. -/
def IsDeclarable (type : InputType) : Prop := ∀ item, type = .element item → item.IsItem

/-- How an input of the type declares the items of the array around it. An index does not. -/
def style? : InputType → Option AccessMode
  | .index => none
  | .element _ => some .element
  | _ => some .field

def word : InputType → TypeWord
  | .primitive type => .primitive type
  | .array => .array
  | .hash => .hash
  | .element _ => .element
  | .index => .index

def ofElementName? (name : String) : Option InputType :=
  if name = "array" then some .array
  else if name = "hash" then some .hash
  else (Primitive.ofName? name).map .primitive

end InputType

section Types

variable {type : InputType}

theorem InputType.ofElementName?_isItem {name : String}
    (h : InputType.ofElementName? name = some type) : type.IsItem := by
  rw [InputType.ofElementName?] at h
  split at h
  · cases h
    exact .inr (.inl rfl)
  · split at h
    · cases h
      exact .inr (.inr rfl)
    · obtain ⟨p, _, rfl⟩ := Option.map_eq_some_iff.mp h
      exact .inl ⟨p, rfl⟩

theorem InputType.isArray_iff (h : type.IsDeclarable) :
    type.isArray ↔ type.IsArrayType := by
  cases type with
  | element item =>
    rcases h item rfl with ⟨p, rfl⟩ | rfl | rfl <;> simp [InputType.isArray, IsArrayType]
  | _ => simp [InputType.isArray, IsArrayType]

theorem InputType.isContainer_iff (h : type.IsDeclarable) :
    type.isContainer ↔ type.IsContainerType := by
  cases type with
  | element item =>
    rcases h item rfl with ⟨p, rfl⟩ | rfl | rfl <;>
      simp [InputType.isContainer, IsContainerType, IsArrayType]
  | _ => simp [InputType.isContainer, IsContainerType, IsArrayType]

theorem InputType.IsArrayType.isArray (h : type.IsArrayType) : type.isArray := by
  rcases h with rfl | rfl <;> rfl

theorem InputType.IsContainerType.isContainer (h : type.IsContainerType) : type.isContainer := by
  rcases h with (rfl | rfl) | rfl | rfl <;> rfl

theorem InputType.IsContainerType.isArray_eq (h : type.IsContainerType) :
    type.isArray = decide type.IsArrayType := by
  rcases h with (rfl | rfl) | rfl | rfl <;> rfl

end Types

/-- Both bounds are integers, both are floats, or one of them is a float without end. -/
def Bound.Agree (min max : Bound) : Prop :=
  (∃ m n, min = .int m ∧ max = .int n) ∨ (∃ x y, min = .float x ∧ max = .float y) ∨
    ∃ x : Float, (min = .float x ∨ max = .float x) ∧ x.isInf

theorem Bound.agree_iff {min max : Bound} : min.agree max ↔ min.Agree max := by
  cases min <;> cases max <;> simp [Bound.agree, Bound.Agree, Bound.isInfinite]

/-- How the declaration that starts with the kind declares the items of the array around it. -/
def Kind.style? : Kind → Option AccessMode
  | .type .index => none
  | .type .element => some .element
  | _ => some .field

namespace Grammar

inductive Name : Phrase String
  | mk {t : Token} : t.kind = .symbol → Name [t] t.raw

inductive DomainLiteral : Phrase Literal
  | integer {t : Token} {n : Int64} : t.kind = .integer → Denotes t n →
    DomainLiteral [t] (.integer n)
  | float {t : Token} {x : Float} : t.kind = .float →
    Decimal.readFloat? (Reader.digits t) = some x → DomainLiteral [t] (.float x)
  | string {t : Token} : t.kind = .string → DomainLiteral [t] (.string t.raw)
  | symbol {t : Token} : t.kind = .symbol → DomainLiteral [t] (.symbol t.raw)
  | boolean {t : Token} : t.kind = .boolean → DomainLiteral [t] (.boolean (t.raw = "true"))

inductive Bound : Phrase SchemaLang.Bound
  | integer {t : Token} {n : Int64} : t.kind = .integer → Denotes t n → Bound [t] (.int n)
  | float {t : Token} {x : Float} : t.kind = .float →
    Decimal.readFloat? (Reader.digits t) = some x → Bound [t] (.float x)
  | infinity {t : Token} :
    t.kind = .constant → t.raw = "Float::INFINITY" → Bound [t] (.float (1.0 / 0.0))
  | negative {minus t : Token} : minus.kind = .operator .subtract →
    t.kind = .constant → t.raw = "Float::INFINITY" → Bound [minus, t] (.float (-(1.0 / 0.0)))

/-- Literals in brackets, or a range whose ends agree. -/
inductive Domain : Phrase SchemaLang.Domain
  | values {op close : Token} {p : List Token} {values : List Literal} :
    op.kind = .mark .leftBracket → Items DomainLiteral p values →
    close.kind = .mark .rightBracket → Domain (op :: p ++ [close]) (.values values)
  | range {dots : Token} {p q : List Token} {min max : SchemaLang.Bound} {exclusive : Bool} :
    Bound p min → dots.kind = .mark (if exclusive then .dotDotDot else .dotDot) →
    Bound q max → min.Agree max → Domain (p ++ dots :: q) (.range min max exclusive)

/-- The type and the name that start a declaration, inside an array or elsewhere. -/
inductive Head : Bool → Phrase (InputType × String)
  | array {inArray : Bool} {t name : Token} : t.kind = .type .array → name.kind = .symbol →
    Head inArray [t, name] (.array, name.raw)
  | hash {inArray : Bool} {t name : Token} : t.kind = .type .hash → name.kind = .symbol →
    Head inArray [t, name] (.hash, name.raw)
  | primitive {inArray : Bool} {t name : Token} {type : Primitive} :
    t.kind = .type (.primitive type) → name.kind = .symbol →
    Head inArray [t, name] (.primitive type, name.raw)
  | index {t name : Token} : t.kind = .type .index → name.kind = .symbol →
    Head true [t, name] (.index, name.raw)
  | element {t item comma name : Token} {type : InputType} : t.kind = .type .element →
    item.kind = .symbol → InputType.ofElementName? item.raw = some type →
    comma.kind = .mark .comma → name.kind = .symbol →
    Head true [t, item, comma, name] (.element type, name.raw)

theorem Head.isDeclarable {inArray : Bool} {p : List Token} {type : InputType} {name : String}
    (h : Head inArray p (type, name)) : type.IsDeclarable := by
  intro item he
  cases h with
  | element _ _ hitem _ _ =>
    cases he
    exact InputType.ofElementName?_isItem hitem
  | _ => cases he

theorem Head.exists_cons {inArray : Bool} {p : List Token} {head : InputType × String}
    (h : Head inArray p head) : ∃ t q, p = t :: q := by
  cases h <;> exact ⟨_, _, rfl⟩

/-- An option of an input of a type, and what is said of the input after it. -/
inductive Setting (type : InputType) (options : Reader.InputOptions) : Phrase Reader.InputOptions
  | domain {label : Token} {p : List Token} {d : SchemaLang.Domain} : label.kind = .label →
    label.raw = "domain" → Domain p d →
    Setting type options (label :: p) { options with domain := some d }
  | index {label name : Token} : type.IsArrayType → label.kind = .label → label.raw = "index" →
    name.kind = .symbol → Setting type options [label, name] { options with index := some name.raw }

/-- Options, each after a comma. -/
inductive Options (type : InputType) : Reader.InputOptions → Phrase Reader.InputOptions
  | nil {options : Reader.InputOptions} : Options type options [] options
  | cons {comma : Token} {p q : List Token} {options options' options'' : Reader.InputOptions} :
    comma.kind = .mark .comma → Setting type options p options' →
    Options type options' q options'' → Options type options (comma :: p ++ q) options''

/-- The block of an input that may hold others. -/
inductive Block (nested : Bool → Phrase (List Input)) (type : InputType) : Phrase (List Input)
  | none : Block nested type [] []
  | some {opening closing : Token} {p : List Token} {children : List Input} :
    type.IsContainerType → opening.kind = .keyword .doWord →
    nested (decide type.IsArrayType) p children →
    closing.kind = .keyword .endWord → Block nested type (opening :: p ++ [closing]) children

/-- How the items of an input of a type are reached. Arrays tell it, by whether some of what is
right inside them is declared as an element. -/
inductive Access (type : InputType) (children : List Input) : Option AccessMode → Prop
  | element : type.IsArrayType → (∃ child ∈ children, child.type.IsElement) →
    Access type children (some .element)
  | field : type.IsArrayType → (∀ child ∈ children, ¬child.type.IsElement) →
    Access type children (some .field)
  | none : ¬type.IsArrayType → Access type children none

section Access

variable {type : InputType} {children : List Input} {mode mode' : Option AccessMode}

theorem Access.unique (h : Access type children mode) (h' : Access type children mode') :
    mode = mode' := by
  cases h with
  | element ha he =>
    obtain ⟨child, hchild, helement⟩ := he
    cases h' with
    | element _ _ => rfl
    | field _ hnone => exact absurd helement (hnone child hchild)
    | none hno => exact absurd ha hno
  | field ha hnone =>
    cases h' with
    | element _ he =>
      obtain ⟨child, hchild, helement⟩ := he
      exact absurd helement (hnone child hchild)
    | field _ _ => rfl
    | none hno => exact absurd ha hno
  | none hno =>
    cases h' with
    | element ha _ => exact absurd ha hno
    | field ha _ => exact absurd ha hno
    | none _ => rfl

theorem access_accessMode (htype : type.IsDeclarable)
    (children : List Input) : Access type children (Reader.accessMode type children) := by
  rw [Reader.accessMode]
  split
  · next ha =>
    have array := (InputType.isArray_iff htype).mp ha
    split
    · next hany =>
      obtain ⟨child, hchild, he⟩ := List.any_eq_true.mp hany
      refine .element array ⟨child, hchild, ?_⟩
      cases hc : child.type with
      | element item => exact ⟨item, rfl⟩
      | _ => simp [hc] at he
    · next hany =>
      refine .field array fun child hchild he => hany ?_
      obtain ⟨item, hitem⟩ := he
      exact List.any_eq_true.mpr ⟨child, hchild, by rw [hitem]⟩
  · next ha => exact .none fun array => ha array.isArray

end Access

inductive InputDecl (nested : Bool → Phrase (List Input)) (inArray : Bool) : Phrase Input
  | mk {t : Token} {p q r : List Token} {type : InputType} {name : String}
    {options : Reader.InputOptions} {children : List Input} {mode : Option AccessMode} :
    Head inArray (t :: p) (type, name) → Options type ⟨none, none⟩ q options →
    Block nested type r children → Access type children mode →
    InputDecl nested inArray (t :: p ++ q ++ r) {
      name, type, children
      domain := options.domain
      accessMode := mode
      index := options.index
      location := t.location }

/-- A declaration, with the way to the items that is read off its children. -/
theorem InputDecl.of_head {nested : Bool → Phrase (List Input)} {inArray : Bool} {t : Token}
    {p q r : List Token} {type : InputType} {name : String} {options : Reader.InputOptions}
    {children : List Input} (hp : Head inArray (t :: p) (type, name))
    (hq : Options type ⟨none, none⟩ q options) (hr : Block nested type r children) :
    InputDecl nested inArray (t :: p ++ q ++ r) {
      name, type, children
      domain := options.domain
      accessMode := Reader.accessMode type children
      index := options.index
      location := t.location } := .mk hp hq hr (access_accessMode hp.isDeclarable children)

theorem InputDecl.exists_cons {nested : Bool → Phrase (List Input)} {inArray : Bool}
    {p : List Token} {input : Input} (h : InputDecl nested inArray p input) :
    ∃ t q, p = t :: q ∧ input.type.style? = t.kind.style? := by
  cases h with
  | mk hp _ _ _ =>
    refine ⟨_, _, rfl, ?_⟩
    cases hp <;> simp only [*] <;> rfl

/-- Whether all the styles that are given are the same. -/
def Uniform (styles : List (Option AccessMode)) : Prop :=
  ∃ mode, ∀ style ∈ styles, style = none ∨ style = some mode

theorem uniform_singleton (style : Option AccessMode) : Uniform [style] :=
  ⟨style.getD .field, by cases style <;> simp⟩

theorem uniform_none_cons {styles : List (Option AccessMode)} :
    Uniform (none :: styles) ↔ Uniform styles := by
  simp [Uniform]

theorem uniform_cons_none {style : Option AccessMode} {styles : List (Option AccessMode)} :
    Uniform (style :: none :: styles) ↔ Uniform (style :: styles) := by
  simp [Uniform]

/-- A style that is given must be the one before it, if there is one. -/
theorem uniform_cons_some {style : Option AccessMode} {mode : AccessMode}
    {styles : List (Option AccessMode)} :
    Uniform (style :: some mode :: styles) ↔
      ¬(style.isSome ∧ style ≠ some mode) ∧ Uniform (some mode :: styles) := by
  cases style with
  | none => simp [Uniform]
  | some first =>
    constructor
    · intro uniform
      obtain ⟨m, h⟩ := uniform
      have hfirst : first = m := by simpa using h (some first) (by simp)
      have hmode : mode = m := by simpa using h (some mode) (by simp)
      refine ⟨by simp [hfirst, hmode], m, fun s hs => h s (List.mem_cons_of_mem _ hs)⟩
    · intro uniform
      obtain ⟨heq, m, h⟩ := uniform
      have same : first = mode := by simpa using heq
      exact ⟨m, by simpa [same] using h⟩

/-- Declarations, with the blocks that `nested` gives. Those right inside an array are all of
elements or all of fields. -/
def InputList (nested : Bool → Phrase (List Input)) (inArray : Bool) : Phrase (List Input) :=
  fun p inputs =>
    Many (InputDecl nested inArray) p inputs ∧ (inArray → Uniform (inputs.map (·.type.style?)))

/-- Declarations whose blocks go at most `room` levels further in. -/
def Inputs : Nat → Bool → Phrase (List Input)
  | 0 => InputList fun _ _ _ => False
  | room + 1 => InputList (Inputs room)

end Grammar

end SchemaLang
