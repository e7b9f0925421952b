import SchemaLang.Proofs.Unplaced
import SchemaLang.Proofs.Writing.Literal

namespace SchemaLang

open Lexical

/-- The pieces of the type and the name of an input. -/
def headPieces (type : InputType) (name : String) : List Piece :=
  match type with
  | .element item =>
    [.type .element, .symbol item.word.spelling, .mark .comma, .symbol name]
  | type => [.type type.word, .symbol name]

def indexPieces : Option String → List Piece
  | none => []
  | some name => [.mark .comma, .label "index", .symbol name]

/-- The block around the pieces of some inputs, if there are any. -/
def blockPieces (children : List (List Piece)) : List Piece :=
  if children.isEmpty then []
  else .keyword .doWord :: children.flatten ++ [.keyword .endWord]

section

variable (spell : Float → FloatForm)

def Bound.pieces : Bound → List Piece
  | .int n => [.integer n]
  | .float x => (spell x).pieces

def Domain.pieces : Domain → List Piece
  | .range min max exclusive =>
    min.pieces spell ++ .mark (if exclusive then .dotDotDot else .dotDot) :: max.pieces spell
  | .values vs => .mark .leftBracket :: commas (vs.map (·.pieces spell)) ++ [.mark .rightBracket]

def domainPieces : Option Domain → List Piece
  | none => []
  | some d => .mark .comma :: .label "domain" :: d.pieces spell

mutual

def Input.pieces : Input → List Piece
  | ⟨name, type, domain, children, _, index, _⟩ =>
    headPieces type name ++ (domainPieces spell domain ++ indexPieces index) ++
      blockPieces (Input.listPieces children)

def Input.listPieces : List Input → List (List Piece)
  | [] => []
  | input :: inputs => input.pieces :: Input.listPieces inputs

end

inductive Bound.WellFormed : Bound → Prop
  | int {n : Int64} : WellFormed (.int n)
  | float {x : Float} : (spell x).Denotes x → WellFormed (.float x)

inductive Domain.WellFormed : Domain → Prop
  | range {min max : Bound} {exclusive : Bool} : min.WellFormed spell → max.WellFormed spell →
    min.agree max → WellFormed (.range min max exclusive)
  | values {vs : List Literal} : (∀ value ∈ vs, value.WellFormed spell) → WellFormed (.values vs)

end

/-- Types that inputs may have, right inside an array or elsewhere. -/
inductive InputType.WellFormed : Bool → InputType → Prop
  | primitive {inArray : Bool} {type : Primitive} : WellFormed inArray (.primitive type)
  | array {inArray : Bool} : WellFormed inArray .array
  | hash {inArray : Bool} : WellFormed inArray .hash
  | index : WellFormed true .index
  | element {item : InputType} : WellFormed false item → WellFormed true (.element item)

theorem InputType.WellFormed.isDeclarable {inArray : Bool} {type : InputType}
    (h : type.WellFormed inArray) : type.IsDeclarable := by
  intro item he
  cases h with
  | element hitem =>
    cases he
    cases hitem <;> simp [IsItem]
  | _ => cases he

/-- Inputs that can be written: names are words, only containers hold others, only arrays have an
index, and the inputs right inside an array are declared in one style. -/
inductive Input.WellFormed (spell : Float → FloatForm) : Bool → Input → Prop
  | mk {inArray : Bool} {name : String} {type : InputType} {domain : Option Domain}
    {children : List Input} {index : Option String} {location : Location} : Word name.toList →
    type.WellFormed inArray → (∀ d ∈ domain, d.WellFormed spell) →
    (∀ i ∈ index, type.isArray ∧ Word i.toList) → (children ≠ [] → type.isContainer) →
    (∀ child ∈ children, WellFormed spell type.isArray child) →
    (type.isArray → Grammar.Uniform (children.map (·.type.style?))) →
    WellFormed spell inArray ⟨name, type, domain, children, Reader.accessMode type children, index,
      location⟩

namespace Input

mutual

/-- The levels of blocks inside an input. -/
def levels : Input → Nat
  | ⟨_, _, _, children, _, _, _⟩ =>
    if children.isEmpty then 0 else 1 + deepest (listLevels children)

def listLevels : List Input → List Nat
  | [] => []
  | input :: inputs => input.levels :: listLevels inputs

end

theorem listPieces_eq {spell : Float → FloatForm} (inputs : List Input) :
    listPieces spell inputs = inputs.map (pieces spell) := by
  induction inputs with
  | nil => rw [listPieces, List.map_nil]
  | cons input inputs ih => rw [listPieces, ih, List.map_cons]

theorem listLevels_eq (inputs : List Input) : listLevels inputs = inputs.map levels := by
  induction inputs with
  | nil => rw [listLevels, List.map_nil]
  | cons input inputs ih => rw [listLevels, ih, List.map_cons]

end Input

section Phrases

variable {spell : Float → FloatForm}

theorem InputType.ofElementName?_word {item : InputType} (h : item.WellFormed false) :
    InputType.ofElementName? item.word.spelling = some item := by
  cases h with
  | @primitive _ type => cases type <;> decide
  | array => decide
  | hash => decide

/-- The type and the name of an input are read back. -/
theorem InputType.WellFormed.writes {inArray : Bool} {type : InputType} {name : String}
    (h : type.WellFormed inArray) (hname : Word name.toList) :
    Writes (headPieces type name) (Grammar.Head inArray) (type, name) := by
  have two {word : TypeWord} {type : InputType}
      (hread : ∀ t u : Token, t.kind = .type word → u.kind = .symbol →
        Grammar.Head inArray [t, u] (type, u.raw)) :
      Writes [.type word, .symbol name] (Grammar.Head inArray) (type, name) := by
    refine .cons (by simp) (writes_name hname) fun t ts ht hts => ?_
    obtain ⟨hu⟩ := hts
    exact hread t _ ht.1 hu
  cases h with
  | primitive => exact two fun t u ht hu => .primitive ht hu
  | array => exact two fun t u ht hu => .array ht hu
  | hash => exact two fun t u ht hu => .hash ht hu
  | index => exact two fun t u ht hu => .index ht hu
  | @element item hitem =>
    refine ⟨?_, fun ts hts => ?_⟩
    · simpa [headPieces, hname] using (Piece.word_type item.word).1
    · obtain _ | ⟨ht, hts⟩ := hts
      obtain _ | ⟨hi, hts⟩ := hts
      obtain _ | ⟨hcomma, hts⟩ := hts
      obtain _ | ⟨hu, hts⟩ := hts
      cases hts
      have raw : _ = item.word.spelling := hi.2
      have known := InputType.ofElementName?_word hitem
      rw [← raw] at known
      have head := Grammar.Head.element ht.1 hi.1 known hcomma.1 hu.1
      rwa [hu.2] at head

theorem Bound.WellFormed.writes {b : Bound} (h : b.WellFormed spell) :
    Writes (b.pieces spell) Grammar.Bound b := by
  cases h with
  | int => exact .single trivial fun t ht => .integer ht.1 (Piece.denotes_of_spells ht)
  | @float x hx =>
    rw [Bound.pieces]
    generalize spell x = form at hx
    cases hx with
    | decimal hnumeral hread =>
      exact FloatForm.writes_decimal (.decimal hnumeral hread) fun t hk hread => .float hk hread
    | infinity => exact .single valid_infinity fun t ht => .infinity ht.1 ht.2
    | negative =>
      refine ⟨by simpa [FloatForm.pieces] using valid_infinity, fun ts hts => ?_⟩
      obtain _ | ⟨ht, hts⟩ := hts
      obtain _ | ⟨hu, hts⟩ := hts
      cases hts
      exact .negative ht.1 hu.1 hu.2

theorem Domain.WellFormed.writes {d : Domain} (h : d.WellFormed spell) :
    Writes (d.pieces spell) Grammar.Domain d := by
  cases h with
  | @range min max exclusive hmin hmax hagree =>
    have dots : (Piece.mark (if exclusive then .dotDotDot else .dotDot)).Valid := by
      cases exclusive <;> simp
    apply hmin.writes.append (hmax.writes.after dots)
    intro ts us hts hus
    obtain ⟨hdots, hus⟩ := hus
    exact .range hts hdots hus (Bound.agree_iff.mp hagree)
  | values h =>
    have literals := Writes.items fun value hvalue => (h value hvalue).writes
    exact .between (by simp) literals (by simp) fun _ _ _ ht hts hu => .values ht.1 hts hu.1

/-- The options of an input are read back. -/
theorem writes_options {type : InputType} {domain : Option Domain} {index : Option String}
    (htype : type.IsDeclarable) (hdomain : ∀ d ∈ domain, d.WellFormed spell)
    (hindex : ∀ i ∈ index, type.isArray ∧ Word i.toList) :
    Writes (domainPieces spell domain ++ indexPieces index)
      (Grammar.Options type ⟨none, none⟩) ⟨domain, index⟩ := by
  have labels : Word "domain".toList ∧ Word "index".toList := by decide
  have last : Writes (indexPieces index) (Grammar.Options type ⟨domain, none⟩) ⟨domain, index⟩ := by
    cases index with
    | none => exact .nil .nil
    | some name =>
      obtain ⟨harray, hname⟩ := hindex name rfl
      have setting : Writes [.label "index", .symbol name]
          (Grammar.Setting type ⟨domain, none⟩) ⟨domain, some name⟩ := by
        refine .cons labels.2 (writes_name hname) fun t ts ht hts => ?_
        obtain ⟨hu⟩ := hts
        exact .index ((InputType.isArray_iff htype).mp harray) ht.1 ht.2 hu
      refine .cons (by simp) setting fun t ts ht hts => ?_
      have options := Grammar.Options.cons ht.1 hts .nil
      rwa [List.append_nil] at options
  cases domain with
  | none => exact last
  | some d =>
    have setting : Writes (.label "domain" :: d.pieces spell)
        (Grammar.Setting type ⟨none, none⟩) ⟨some d, none⟩ :=
      .cons labels.1 (hdomain d rfl).writes fun t ts ht hts => .domain ht.1 ht.2 hts
    apply (setting.after (p := .mark .comma) (by simp)).append last
    intro ts us hts hus
    obtain ⟨hcomma, hts⟩ := hts
    exact .cons hcomma hts hus

end Phrases

namespace Input

open Grammar

variable {spell : Float → FloatForm}

/-- The phrases of a block that has a number of levels left, itself among them. -/
def nested : Nat → Bool → Phrase (List Input)
  | 0 => fun _ _ _ => False
  | room + 1 => Inputs room

theorem inputs_eq (room : Nat) : Inputs room = InputList (nested room) := by
  cases room <;> rfl

/-- Inputs that are each read back are so one after the other. -/
theorem writes_inputs {inArray : Bool} {inputs : List Input} {room : Nat}
    (h : ∀ input ∈ inputs,
      Writes (input.pieces spell) (UpTo unplaced (InputDecl (nested room) inArray)) input)
    (huniform : inArray → Uniform (inputs.map (·.type.style?))) :
    Writes ((inputs.map (pieces spell)).flatten) (UpTo (List.map unplaced) (Inputs room inArray))
      inputs := by
  rw [← List.flatMap_def, inputs_eq]
  apply (Writes.many h).imp
  intro ts hts
  obtain ⟨inputs', hinputs, hview⟩ := many_upTo hts
  refine ⟨inputs', ⟨hinputs, fun harray => ?_⟩, hview⟩
  have styles := congrArg (List.map InputType.style?) (map_type_of_unplaced hview)
  rw [List.map_map, List.map_map] at styles
  have uniform := huniform harray
  change Uniform (inputs'.map (InputType.style? ∘ Input.type))
  rw [styles]
  exact uniform

/-- Each input that can be written is read back, its place apart. -/
theorem WellFormed.writes {inArray : Bool} {input : Input} (h : input.WellFormed spell inArray) :
    ∀ room, input.levels ≤ room →
      Writes (input.pieces spell) (UpTo unplaced (InputDecl (nested room) inArray)) input := by
  induction h with
  | @mk inArray name type domain children index location hname htype hdomain hindex hcontainer _
    huniform ih =>
    intro room hroom
    rw [levels, listLevels_eq] at hroom
    rw [pieces, listPieces_eq]
    have block : Writes (blockPieces (children.map (pieces spell)))
        (UpTo (List.map unplaced) (Block (nested room) type)) children := by
      cases children with
      | nil => exact .nil ⟨[], .none, rfl⟩
      | cons child children =>
        rw [if_neg (by simp)] at hroom
        cases room with
        | zero => omega
        | succ room =>
          have inside := writes_inputs (fun c hc => ih c hc room (by
            have deep := le_deepest (List.mem_map_of_mem (f := levels) hc)
            omega)) huniform
          have container := (InputType.isContainer_iff htype.isDeclarable).mp (hcontainer (by simp))
          rw [container.isArray_eq] at inside
          refine .between (by simp) inside (by simp) fun t ts u ht hts hu => ?_
          obtain ⟨children', hchildren, hview⟩ := hts
          exact ⟨children', .some container ht.1 hchildren hu.1, hview⟩
    have front := (htype.writes hname).both (writes_options htype.isDeclarable hdomain hindex)
    apply front.append block
    intro ts us hts hus
    obtain ⟨hhead, hoptions⟩ := hts
    obtain ⟨children', hblock, hview⟩ := hus
    obtain ⟨t, rest, rfl⟩ := hhead.exists_cons
    refine ⟨_, .of_head hhead hoptions hblock, ?_⟩
    rw [unplaced, unplaced, listUnplaced_eq, listUnplaced_eq, hview,
      accessMode_of_types (map_type_of_unplaced hview)]

end Input

end SchemaLang
