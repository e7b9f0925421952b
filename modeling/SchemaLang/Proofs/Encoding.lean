import SchemaLang.Expr.Equality
import SchemaLang.Proofs.Floats
import SchemaLang.Schema.Encoding

namespace SchemaLang

/-- Both missing, or both there and the same. -/
def sameOption {α : Type} (same : α → α → Bool) : Option α → Option α → Bool
  | none, none => true
  | some a, some b => same a b
  | _, _ => false

namespace Json

mutual

/-- Equality of JSON values. Doubles are equal as numbers, a whole number is never equal to a
double, and the order of the fields of an object does not count. -/
def same : Json → Json → Bool
  | .null, .null => true
  | .bool a, .bool b => a == b
  | .int m, .int n => m == n
  | .float x, .float y => x == y
  | .str s, .str t => s == t
  | .arr as, .arr bs => sameItems as bs
  | .obj as, .obj bs => sameFields as bs && bs.all fun b => (as.lookup b.1).isSome
  | _, _ => false

def sameItems : List Json → List Json → Bool
  | [], [] => true
  | a :: as, b :: bs => same a b && sameItems as bs
  | _, _ => false

/-- Whether all of the first fields are among the others, with the same values. -/
def sameFields : List (String × Json) → List (String × Json) → Bool
  | [], _ => true
  | (name, a) :: as, bs => (bs.lookup name).any (same a) && sameFields as bs

end

theorem sameFields_lookup {as bs : List (String × Json)} (h : sameFields as bs) {name : String}
    {a : Json} (ha : as.lookup name = some a) : (bs.lookup name).any (same a) := by
  induction as with
  | nil => cases ha
  | cons first as ih =>
    obtain ⟨key, b⟩ := first
    rw [sameFields, Bool.and_eq_true] at h
    rw [List.lookup_cons] at ha
    split at ha
    · next hkey =>
      rw [eq_of_beq hkey]
      cases ha
      exact h.1
    · exact ih h.2 ha

/-- The same values have the same fields, and lack the same. -/
theorem same_field {a b : Json} (h : a.same b) (name : String) :
    sameOption same (a.field? name) (b.field? name) := by
  cases a with
  | obj as =>
    cases b with
    | obj bs =>
      rw [same, Bool.and_eq_true] at h
      obtain ⟨hfields, hnames⟩ := h
      change sameOption same (as.lookup name) (bs.lookup name)
      cases ha : as.lookup name with
      | none =>
        cases hb : bs.lookup name with
        | none => rfl
        | some b =>
          obtain ⟨before, after, rfl, _⟩ := List.lookup_eq_some_iff.mp hb
          have named := List.all_eq_true.mp hnames (name, b) (by simp)
          rw [ha] at named
          cases named
      | some a =>
        have found := sameFields_lookup hfields ha
        cases hb : bs.lookup name with
        | none =>
          rw [hb] at found
          cases found
        | some b =>
          rw [hb] at found
          exact found
    | _ => cases h
  | _ => cases b <;> first | rfl | cases h

/-- A field that two equal values have is the same in both. -/
theorem same_at {a b x y : Json} (h : a.same b) (name : String) (hx : a.field? name = some x)
    (hy : b.field? name = some y) : x.same y := by
  have field := same_field h name
  rw [hx, hy] at field
  exact field

theorem str_at {a b : Json} {s t : String} (h : a.same b) (name : String)
    (hs : a.field? name = some (.str s)) (ht : b.field? name = some (.str t)) : s = t :=
  eq_of_beq (same_at h name hs ht)

theorem same_pair {a b c d : Json} (h : (arr [a, b]).same (arr [c, d])) : a.same c ∧ b.same d := by
  simpa [same, sameItems] using h

theorem sameItems_map {α : Type} {f : α → Json} {same : α → α → Bool} {as bs : List α}
    (hsame : ∀ a ∈ as, ∀ b, (f a).same (f b) → same a b)
    (h : sameItems (as.map f) (bs.map f)) : as.isEqv bs same := by
  induction as generalizing bs with
  | nil =>
    cases bs with
    | nil => rfl
    | cons b bs => cases h
  | cons a as ih =>
    cases bs with
    | nil => cases h
    | cons b bs =>
      obtain ⟨hfirst, hmore⟩ := Bool.and_eq_true_iff.mp h
      obtain ⟨hhere, hlater⟩ := List.forall_mem_cons.mp hsame
      exact Bool.and_eq_true_iff.mpr ⟨hhere b hfirst, ih hlater hmore⟩

theorem sameItems_str {as bs : List String} (h : sameItems (as.map str) (bs.map str)) :
    as = bs := by
  have items : as.isEqv bs (· == ·) := sameItems_map (f := str) (fun _ _ _ hstr => hstr) h
  rwa [List.isEqv_eq] at items

theorem sameOption_map {α : Type} {f : α → Json} {same : α → α → Bool} {a b : Option α}
    (hsame : ∀ x ∈ a, ∀ y, (f x).same (f y) → same x y)
    (h : sameOption Json.same (a.map f) (b.map f)) : sameOption same a b := by
  cases a with
  | none =>
    cases b with
    | none => rfl
    | some y => cases h
  | some x =>
    cases b with
    | none => cases h
    | some y => exact hsame x rfl y h

theorem lookup_optional (key name : String) (value : Option Json) :
    (optional name value).lookup key = if key = name then value else none := by
  cases value with
  | none => simp [optional]
  | some x =>
    by_cases hkey : key = name
    · simp [optional, hkey]
    · have other : (key == name) = false := beq_false_of_ne hkey
      simp [optional, hkey, other, List.lookup_cons]

end Json

theorem Location.eq_of_toJson {here there : Location} (h : here.toJson.same there.toJson) :
    here = there := by
  have line := Json.same_at h "line" rfl rfl
  have column := Json.same_at h "column" rfl rfl
  obtain ⟨l, c⟩ := here
  obtain ⟨l', c'⟩ := there
  obtain rfl : l = l' := Int.ofNat.inj (eq_of_beq line)
  obtain rfl : c = c' := Int.ofNat.inj (eq_of_beq column)
  rfl

section Literals

theorem Json.same_ofFloat {x y : Float} (hx : x.isFinite)
    (h : (Json.ofFloat x).same (Json.ofFloat y)) : x == y := by
  rw [Json.ofFloat, Json.ofFloat, if_pos hx] at h
  split at h
  · exact h
  · cases h

def Literal.tag : Literal → String
  | .integer _ => "integer"
  | .float _ => "float"
  | .string _ => "string"
  | .boolean _ => "boolean"
  | .symbol _ => "symbol"

theorem Literal.field_type (a : Literal) : a.toJson.field? "type" = some (.str a.tag) := by
  cases a <;> rfl

/-- Literals are told apart by their tags, and then by their values. -/
theorem Literal.same_of_toJson {a b : Literal} (ha : ∀ x ∈ a.floats, x.isFinite)
    (h : a.toJson.same b.toJson) : a.same b := by
  have htag := Json.str_at h "type" a.field_type b.field_type
  cases a with
  | integer m =>
    cases b with
    | integer n =>
      have value := Json.same_at h "value" rfl rfl
      exact beq_of_eq (Int64.toInt_inj.mp (eq_of_beq value))
    | _ => simp [tag] at htag
  | float x =>
    cases b with
    | float y => exact Json.same_ofFloat (ha x (by simp [floats])) (Json.same_at h "value" rfl rfl)
    | _ => simp [tag] at htag
  | string s =>
    cases b with
    | string t => exact Json.same_at h "value" rfl rfl
    | _ => simp [tag] at htag
  | boolean p =>
    cases b with
    | boolean q => exact Json.same_at h "value" rfl rfl
    | _ => simp [tag] at htag
  | symbol s =>
    cases b with
    | symbol t => exact Json.same_at h "value" rfl rfl
    | _ => simp [tag] at htag

end Literals

namespace Expr

def tag : Expr → String
  | .literal _ => "literal"
  | .input _ => "input_reference"
  | .inputPath _ => "input_element_reference"
  | .reference _ => "declaration_reference"
  | .call .. => "call"
  | .array _ => "array"
  | .hash _ => "hash"
  | .cascade _ => "cascade"
  | .index _ => "index_reference"
  | .importCall .. => "import_call"

theorem field_node (e : Expr) : e.toJson.field? "node" = some (.str e.tag) := by
  cases e with
  | call function args opts => cases opts <;> rfl
  | _ => rfl

theorem field_function (function : String) (args : List Expr) (opts : List (String × Expr)) :
    (call function args opts).toJson.field? "function" = some (.str function) := by
  cases opts <;> rfl

theorem field_args (function : String) (args : List Expr) (opts : List (String × Expr)) :
    (call function args opts).toJson.field? "args" = some (.arr (listToJson args)) := by
  cases opts <;> rfl

/-- Keyed arguments are left out just when there are none. -/
theorem opts_of_toJson {function function' : String} {args args' : List Expr}
    {opts opts' : List (String × Expr)}
    (h : (call function args opts).toJson.same (call function' args' opts').toJson) :
    Json.sameItems (keyedToJson opts) (keyedToJson opts') := by
  have field := Json.same_field h "opts"
  cases opts with
  | nil =>
    cases opts' with
    | nil => rfl
    | cons o os => cases field
  | cons o os =>
    cases opts' with
    | nil => cases field
    | cons o' os' => exact field

mutual

/-- Expressions are told apart by the tags of their nodes, and then by their parts. -/
theorem same_of_toJson (e e' : Expr) (he : e.AllFloats (·.isFinite))
    (h : e.toJson.same e'.toJson) : e.same e' := by
  have htag := Json.str_at h "node" e.field_node e'.field_node
  cases e with
  | literal a =>
    cases e' with
    | literal b =>
      rw [same]
      exact Literal.same_of_toJson he (Json.same_at h "value" rfl rfl)
    | _ => simp [tag] at htag
  | input a =>
    cases e' with
    | input b =>
      rw [same]
      exact Json.same_at h "name" rfl rfl
    | _ => simp [tag] at htag
  | inputPath as =>
    cases e' with
    | inputPath bs =>
      rw [same]
      exact beq_of_eq (Json.sameItems_str (Json.same_at h "path" rfl rfl))
    | _ => simp [tag] at htag
  | reference a =>
    cases e' with
    | reference b =>
      rw [same]
      exact Json.same_at h "name" rfl rfl
    | _ => simp [tag] at htag
  | call function args opts =>
    cases e' with
    | call function' args' opts' =>
      have names := Json.str_at h "function" (field_function ..) (field_function ..)
      have items := Json.same_at h "args" (field_args ..) (field_args ..)
      have finite := allFloats_call.mp he
      have plain := sameList_of_toJson args args' finite.1 items
      have keyed := sameKeyed_of_toJson opts opts' finite.2 (opts_of_toJson h)
      rw [same, names, plain, keyed, beq_self_eq_true]
      rfl
    | _ => simp [tag] at htag
  | array as =>
    cases e' with
    | array bs =>
      rw [same]
      exact sameList_of_toJson as bs (forall_listFloats.mp he) (Json.same_at h "elements" rfl rfl)
    | _ => simp [tag] at htag
  | hash as =>
    cases e' with
    | hash bs =>
      rw [same]
      exact samePairs_of_toJson as bs (forall_pairFloats.mp he) (Json.same_at h "pairs" rfl rfl)
    | _ => simp [tag] at htag
  | cascade as =>
    cases e' with
    | cascade bs =>
      rw [same]
      exact sameCases_of_toJson as bs (forall_caseFloats.mp he) (Json.same_at h "cases" rfl rfl)
    | _ => simp [tag] at htag
  | index a =>
    cases e' with
    | index b =>
      rw [same]
      exact Json.same_at h "name" rfl rfl
    | _ => simp [tag] at htag
  | importCall name args =>
    cases e' with
    | importCall name' args' =>
      have names := Json.str_at h "name" rfl rfl
      have keyed := sameKeyed_of_toJson args args' (forall_keyedFloats.mp he)
        (Json.same_at h "args" rfl rfl)
      rw [same, names, keyed, beq_self_eq_true]
      rfl
    | _ => simp [tag] at htag
termination_by structural e

theorem sameList_of_toJson (as bs : List Expr) (has : ∀ a ∈ as, a.AllFloats (·.isFinite))
    (h : Json.sameItems (listToJson as) (listToJson bs)) : sameList as bs := by
  cases as with
  | nil =>
    cases bs with
    | nil => rw [sameList]
    | cons b bs => cases h
  | cons a as =>
    cases bs with
    | nil => cases h
    | cons b bs =>
      obtain ⟨hfirst, hmore⟩ := Bool.and_eq_true_iff.mp h
      obtain ⟨hhere, hlater⟩ := List.forall_mem_cons.mp has
      rw [sameList, same_of_toJson a b hhere hfirst, sameList_of_toJson as bs hlater hmore]
      rfl
termination_by structural as

theorem sameKeyed_of_toJson (as bs : List (String × Expr))
    (has : ∀ a ∈ as, a.2.AllFloats (·.isFinite))
    (h : Json.sameItems (keyedToJson as) (keyedToJson bs)) : sameKeyed as bs := by
  cases as with
  | nil =>
    cases bs with
    | nil => rw [sameKeyed]
    | cons b bs => cases h
  | cons a as =>
    cases bs with
    | nil => cases h
    | cons b bs =>
      obtain ⟨key, e⟩ := a
      obtain ⟨key', e'⟩ := b
      obtain ⟨hfirst, hmore⟩ := Bool.and_eq_true_iff.mp h
      obtain ⟨hkey, hvalue⟩ := Json.same_pair hfirst
      obtain ⟨hhere, hlater⟩ := List.forall_mem_cons.mp has
      rw [sameKeyed, same_of_toJson e e' hhere hvalue, sameKeyed_of_toJson as bs hlater hmore,
        eq_of_beq hkey, beq_self_eq_true]
      rfl
termination_by structural as

theorem samePairs_of_toJson (as bs : List (Literal × Expr))
    (has : ∀ a ∈ as, (∀ x ∈ a.1.floats, x.isFinite) ∧ a.2.AllFloats (·.isFinite))
    (h : Json.sameItems (pairsToJson as) (pairsToJson bs)) : samePairs as bs := by
  cases as with
  | nil =>
    cases bs with
    | nil => rw [samePairs]
    | cons b bs => cases h
  | cons a as =>
    cases bs with
    | nil => cases h
    | cons b bs =>
      obtain ⟨key, e⟩ := a
      obtain ⟨key', e'⟩ := b
      obtain ⟨hfirst, hmore⟩ := Bool.and_eq_true_iff.mp h
      obtain ⟨hkey, hvalue⟩ := Json.same_pair hfirst
      obtain ⟨⟨hfinite, hhere⟩, hlater⟩ := List.forall_mem_cons.mp has
      have key := Literal.same_of_toJson hfinite (Json.same_at hkey "value" rfl rfl)
      rw [samePairs, key, same_of_toJson e e' hhere hvalue, samePairs_of_toJson as bs hlater hmore]
      rfl
termination_by structural as

theorem sameCases_of_toJson (as bs : List (Expr × Expr))
    (has : ∀ a ∈ as, a.1.AllFloats (·.isFinite) ∧ a.2.AllFloats (·.isFinite))
    (h : Json.sameItems (casesToJson as) (casesToJson bs)) : sameCases as bs := by
  cases as with
  | nil =>
    cases bs with
    | nil => rw [sameCases]
    | cons b bs => cases h
  | cons a as =>
    cases bs with
    | nil => cases h
    | cons b bs =>
      obtain ⟨c, e⟩ := a
      obtain ⟨c', e'⟩ := b
      obtain ⟨hfirst, hmore⟩ := Bool.and_eq_true_iff.mp h
      obtain ⟨⟨hcondition, hresult⟩, hlater⟩ := List.forall_mem_cons.mp has
      have condition := same_of_toJson c c' hcondition (Json.same_at hfirst "condition" rfl rfl)
      have result := same_of_toJson e e' hresult (Json.same_at hfirst "result" rfl rfl)
      rw [sameCases, condition, result, sameCases_of_toJson as bs hlater hmore]
      rfl
termination_by structural as

end

end Expr

section Domains

/-- Equality of bounds, in which an integer is never equal to a double. -/
def Bound.same : Bound → Bound → Bool
  | .int m, .int n => m == n
  | .float x, .float y => x == y
  | _, _ => false

def Domain.same : Domain → Domain → Bool
  | .range min max exclusive, .range min' max' exclusive' =>
    min.same min' && max.same max' && exclusive == exclusive'
  | .values as, .values bs => as.isEqv bs Literal.same
  | _, _ => false

/-- A bound has no tag, and is told by the sort of its number. -/
theorem Bound.same_of_toJson {a b : Bound} (ha : ∀ x ∈ a.floats, x.isFinite)
    (h : a.toJson.same b.toJson) : a.same b := by
  cases a with
  | int m =>
    cases b with
    | int n => exact beq_of_eq (Int64.toInt_inj.mp (eq_of_beq h))
    | float y =>
      rw [toJson, toJson, Json.ofFloat] at h
      split at h <;> cases h
  | float x =>
    have finite := ha x (by simp [floats])
    cases b with
    | int n =>
      rw [toJson, toJson, Json.ofFloat, if_pos finite] at h
      cases h
    | float y => exact Json.same_ofFloat finite h

theorem Domain.same_of_toJson {a b : Domain} (ha : ∀ x ∈ a.floats, x.isFinite)
    (h : a.toJson.same b.toJson) : a.same b := by
  cases a with
  | range min max exclusive =>
    cases b with
    | range min' max' exclusive' =>
      obtain ⟨hmin, hmax⟩ := List.forall_mem_append.mp ha
      have low := Bound.same_of_toJson hmin (Json.same_at h "min" rfl rfl)
      have high := Bound.same_of_toJson hmax (Json.same_at h "max" rfl rfl)
      have limits : exclusive == exclusive' := Json.same_at h "exclusive" rfl rfl
      rw [same, low, high, limits]
      rfl
    | values bs => exact absurd (Json.str_at h "kind" rfl rfl) (by decide)
  | values as =>
    cases b with
    | range min max exclusive => exact absurd (Json.str_at h "kind" rfl rfl) (by decide)
    | values bs =>
      refine Json.sameItems_map (fun value hvalue _ => Literal.same_of_toJson fun x hx => ?_)
        (Json.same_at h "values" rfl rfl)
      exact ha x (List.mem_flatMap.mpr ⟨value, hvalue, hx⟩)

end Domains

def InputType.tag : InputType → String
  | .primitive _ => "primitive"
  | .array => "array"
  | .hash => "hash"
  | .element _ => "element"
  | .index => "index"

theorem InputType.field_kind (type : InputType) :
    type.toJson.field? "kind" = some (.str type.tag) := by
  cases type <;> rfl

theorem Primitive.name_injective {a b : Primitive} (h : a.name = b.name) : a = b := by
  have found (type : Primitive) : ofName? type.name = some type := by cases type <;> decide
  exact Option.some.inj ((found a).symm.trans (h ▸ found b))

theorem InputType.eq_of_toJson {a b : InputType} (h : a.toJson.same b.toJson) : a = b := by
  have htag := Json.str_at h "kind" a.field_kind b.field_kind
  induction a generalizing b with
  | primitive type =>
    cases b with
    | primitive type' => rw [Primitive.name_injective (Json.str_at h "of" rfl rfl)]
    | _ => simp [tag] at htag
  | element type ih =>
    cases b with
    | element type' =>
      have inner := Json.same_at h "of" rfl rfl
      rw [ih inner (Json.str_at inner "kind" (field_kind _) (field_kind _))]
    | _ => simp [tag] at htag
  | array => cases b <;> first | rfl | simp [tag] at htag
  | hash => cases b <;> first | rfl | simp [tag] at htag
  | index => cases b <;> first | rfl | simp [tag] at htag

namespace Input

mutual

/-- Equality of inputs: the same declarations at the same places, with equal domains. -/
def same : Input → Input → Bool
  | ⟨name, type, domain, children, accessMode, index, location⟩,
    ⟨name', type', domain', children', accessMode', index', location'⟩ =>
    name == name' && type == type' && sameOption Domain.same domain domain' &&
      sameList children children' && sameOption (· == ·) accessMode accessMode' &&
      sameOption (· == ·) index index' && location == location'

def sameList : List Input → List Input → Bool
  | [], [] => true
  | a :: as, b :: bs => same a b && sameList as bs
  | _, _ => false

end

section Fields

variable (input : Input)

theorem field_domain : input.toJson.field? "domain" = input.domain.map Domain.toJson := by
  cases input
  simp [toJson, Json.field?, List.lookup_append, Json.lookup_optional, List.lookup_cons]

theorem field_children : input.toJson.field? "children" =
    if (listToJson input.children).isEmpty then none
    else some (.arr (listToJson input.children)) := by
  cases input
  simp [toJson, Json.field?, List.lookup_append, Json.lookup_optional, List.lookup_cons]

theorem field_accessMode :
    input.toJson.field? "access_mode" = input.accessMode.map (.str ·.name) := by
  cases input
  simp [toJson, Json.field?, List.lookup_append, Json.lookup_optional, List.lookup_cons]

theorem field_index : input.toJson.field? "index" = input.index.map .str := by
  cases input
  simp [toJson, Json.field?, List.lookup_append, Json.lookup_optional, List.lookup_cons]

theorem field_loc : input.toJson.field? "loc" = some input.location.toJson := by
  cases input
  simp [toJson, Json.field?, List.lookup_append, Json.lookup_optional, List.lookup_cons]

end Fields

/-- Inputs inside an input are left out just when there are none. -/
theorem children_of_toJson {a b : Input} (h : a.toJson.same b.toJson) :
    Json.sameItems (listToJson a.children) (listToJson b.children) := by
  have field := Json.same_field h "children"
  rw [field_children, field_children] at field
  generalize listToJson a.children = as at field ⊢
  generalize listToJson b.children = bs at field ⊢
  cases as with
  | nil =>
    cases bs with
    | nil => rfl
    | cons b bs => cases field
  | cons a as =>
    cases bs with
    | nil => cases field
    | cons b bs => exact field

theorem accessMode_of_toJson {a b : Input} (h : a.toJson.same b.toJson) :
    sameOption (· == ·) a.accessMode b.accessMode := by
  have field := Json.same_field h "access_mode"
  rw [field_accessMode, field_accessMode] at field
  refine Json.sameOption_map (fun mode _ mode' hname => ?_) field
  have names : mode.name = mode'.name := eq_of_beq hname
  cases mode <;> cases mode' <;> first | rfl | simp [AccessMode.name] at names

theorem index_of_toJson {a b : Input} (h : a.toJson.same b.toJson) :
    sameOption (· == ·) a.index b.index := by
  have field := Json.same_field h "index"
  rw [field_index, field_index] at field
  exact Json.sameOption_map (f := Json.str) (fun _ _ _ hname => hname) field

theorem domain_of_toJson {a b : Input} (ha : ∀ x ∈ a.floats, x.isFinite)
    (h : a.toJson.same b.toJson) : sameOption Domain.same a.domain b.domain := by
  have field := Json.same_field h "domain"
  rw [field_domain, field_domain] at field
  refine Json.sameOption_map (fun d hd _ => Domain.same_of_toJson fun x hx => ha x ?_) field
  exact List.mem_flatMap.mpr ⟨d, Option.mem_toList.mpr hd, hx⟩

mutual

/-- Inputs are told apart by their fields, by those that are left out as well. -/
theorem same_of_toJson (a b : Input) (ha : ∀ x ∈ a.floats, x.isFinite)
    (hinside : AllFloats (·.isFinite) a.children)
    (h : a.toJson.same b.toJson) : a.same b := by
  cases a with
  | mk name type domain children mode index location =>
    cases b with
    | mk name' type' domain' children' mode' index' location' =>
      have sameName : name = name' := Json.str_at h "name" rfl rfl
      have sameType : type = type' := InputType.eq_of_toJson (Json.same_at h "type" rfl rfl)
      have sameDomain : sameOption Domain.same domain domain' := domain_of_toJson ha h
      have below := sameList_of_toJson children children' hinside (children_of_toJson h)
      have sameMode : sameOption (· == ·) mode mode' := accessMode_of_toJson h
      have sameIndex : sameOption (· == ·) index index' := index_of_toJson h
      have place : location = location' :=
        Location.eq_of_toJson (Json.same_at h "loc" (field_loc _) (field_loc _))
      rw [same, sameName, sameType, sameDomain, below, sameMode, sameIndex, place]
      simp
termination_by structural a

theorem sameList_of_toJson (as bs : List Input)
    (has : AllFloats (·.isFinite) as)
    (h : Json.sameItems (listToJson as) (listToJson bs)) : sameList as bs := by
  cases as with
  | nil =>
    cases bs with
    | nil => rfl
    | cons b bs => cases h
  | cons a as =>
    cases bs with
    | nil => cases h
    | cons b bs =>
      obtain ⟨hfirst, hmore⟩ := Bool.and_eq_true_iff.mp h
      obtain ⟨hown, hinside, hlater⟩ := allFloats_cons.mp has
      exact Bool.and_eq_true_iff.mpr
        ⟨same_of_toJson a b hown hinside hfirst, sameList_of_toJson as bs hlater hmore⟩
termination_by structural as

end

end Input

def Value.same (a b : Value) : Bool :=
  a.name == b.name && a.expression.same b.expression && a.inline == b.inline &&
    a.location == b.location

def Trait.same (a b : Trait) : Bool :=
  a.name == b.name && a.expression.same b.expression && a.location == b.location

/-- Equality of schemas: the same declarations in the same order, and equal doubles in them. -/
def Schema.same (s t : Schema) : Bool :=
  Input.sameList s.inputs t.inputs && s.values.isEqv t.values Value.same &&
    s.traits.isEqv t.traits Trait.same && s.imports == t.imports

theorem Value.same_of_toJson {a b : Value} (ha : a.expression.AllFloats (·.isFinite))
    (h : a.toJson.same b.toJson) : a.same b := by
  have name := Json.str_at h "name" rfl rfl
  have expression := Expr.same_of_toJson _ _ ha (Json.same_at h "expression" rfl rfl)
  have inline : a.inline == b.inline := Json.same_at h "inline" rfl rfl
  have location := Location.eq_of_toJson (Json.same_at h "loc" rfl rfl)
  rw [same, name, expression, inline, location, beq_self_eq_true, beq_self_eq_true]
  rfl

theorem Trait.same_of_toJson {a b : Trait} (ha : a.expression.AllFloats (·.isFinite))
    (h : a.toJson.same b.toJson) : a.same b := by
  have name := Json.str_at h "name" rfl rfl
  have expression := Expr.same_of_toJson _ _ ha (Json.same_at h "expression" rfl rfl)
  have location := Location.eq_of_toJson (Json.same_at h "loc" rfl rfl)
  rw [same, name, expression, location, beq_self_eq_true, beq_self_eq_true]
  rfl

theorem Import.eq_of_toJson {a b : Import} (h : a.toJson.same b.toJson) : a = b := by
  cases a with
  | mk names source location =>
    cases b with
    | mk names' source' location' =>
      have sameNames : names = names' := Json.sameItems_str (Json.same_at h "names" rfl rfl)
      have sameSource : source = source' := Json.str_at h "module" rfl rfl
      have place : location = location' := Location.eq_of_toJson (Json.same_at h "loc" rfl rfl)
      rw [sameNames, sameSource, place]

/-- Schemas with the same JSON are the same, if all doubles of one of them are finite. -/
theorem Schema.same_of_toJson {s t : Schema} (hs : ∀ x ∈ s.floats, x.isFinite)
    (h : s.toJson.same t.toJson) : s.same t := by
  rw [floats, List.forall_mem_append, List.forall_mem_append, List.forall_mem_flatMap,
    List.forall_mem_flatMap, List.forall_mem_flatMap] at hs
  obtain ⟨hinputs, hvalues, htraits⟩ := hs
  have inputs := Input.sameList_of_toJson s.inputs t.inputs hinputs
    (Json.same_at h "inputs" rfl rfl)
  have values : s.values.isEqv t.values Value.same :=
    Json.sameItems_map (fun v hv _ => Value.same_of_toJson (hvalues v hv))
      (Json.same_at h "values" rfl rfl)
  have traits : s.traits.isEqv t.traits Trait.same :=
    Json.sameItems_map (fun d hd _ => Trait.same_of_toJson (htraits d hd))
      (Json.same_at h "traits" rfl rfl)
  have imports : s.imports.isEqv t.imports (· == ·) :=
    Json.sameItems_map (fun _ _ _ himport => beq_of_eq (Import.eq_of_toJson himport))
      (Json.same_at h "imports" rfl rfl)
  rw [List.isEqv_eq] at imports
  rw [same, inputs, values, traits, imports, beq_self_eq_true]
  rfl

theorem isFinite_of_isNaN {x : Float} (hnan : x.isNaN = false) (hinf : x.isInf = false) :
    x.isFinite := by
  change x.toModel.unpack.isNaN = false at hnan
  change x.toModel.unpack.isInf = false at hinf
  change x.toModel.unpack.isFinite
  cases hx : x.toModel.unpack with
  | notANumber =>
    rw [hx] at hnan
    cases hnan
  | infinity s =>
    rw [hx] at hinf
    cases hinf
  | zero s => rfl
  | finite s m e hm => rfl

/-- The JSON of a schema that is read loses nothing. If no double of the schema is infinite, every
schema with the same JSON is the same schema, but for the sign of a zero. -/
theorem Source.toJson_lossless {source : Source} {s t : Schema} (h : source.schema = .ok s)
    (hs : ∀ x ∈ s.floats, x.isInf = false) (hjson : s.toJson.same t.toJson) : s.same t :=
  Schema.same_of_toJson
    (fun x hx => isFinite_of_isNaN (isNaN_of_mem_floats h x hx) (hs x hx)) hjson

/-- An array of numbers in a range, and a value with a zero among its keyed arguments. -/
def Source.zeros (zero : String) : Source :=
  ⟨anonymous, "schema do input do array :r do float :x, domain: 0.5..9.5 end end " ++
    "let :b, f(1, k: " ++ zero ++ ") end"⟩

theorem Source.zeros_lossless :
    ∃ s t, (zeros "0.0").schema = .ok s ∧ (zeros "-0.0").schema = .ok t ∧
      s.floats.map (·.isInf) = [false, false, false] ∧ s.toJson.same t.toJson ∧ s.same t := by
  have judged : (zeros "0.0").schema.toOption.bind (fun s => (zeros "-0.0").schema.toOption.map
      fun t => (s.floats.map (·.isInf), s.toJson.same t.toJson)) =
        some ([false, false, false], true) := by decide +kernel
  cases hs : (zeros "0.0").schema with
  | error e =>
    rw [hs] at judged
    cases judged
  | ok s =>
    cases ht : (zeros "-0.0").schema with
    | error e =>
      rw [hs, ht] at judged
      cases judged
    | ok t =>
      rw [hs, ht] at judged
      obtain ⟨floats, json⟩ := Prod.mk.inj (Option.some.inj judged)
      have finite (x : Float) (hx : x ∈ s.floats) : x.isInf = false := by
        have flag : x.isInf ∈ [false, false, false] := floats ▸ List.mem_map_of_mem hx
        simpa using flag
      exact ⟨s, t, rfl, rfl, floats, json, toJson_lossless hs finite json⟩

end SchemaLang
