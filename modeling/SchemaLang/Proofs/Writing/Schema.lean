import SchemaLang.Proofs.Writing.Expr
import SchemaLang.Proofs.Writing.Input

namespace SchemaLang

open Lexical

/-- Lists of pieces, each with a comma after it. -/
def ended (items : List (List Piece)) : List Piece := items.flatMap (· ++ [.mark .comma])

/-- An imported name is a symbol, and the label is written with a comma before it. -/
def Import.pieces (i : Import) : List Piece :=
  .keyword .importWord :: ended (i.names.map fun name => [.symbol name]) ++
    [.label "from", .constant i.source]

section

variable (spell : Float → FloatForm)

/-- A case with a call for a condition lists what the call is on; any other is a base case. -/
def casePieces : Expr × Expr → List Piece
  | (.call _ conditions _, result) =>
    .keyword .on :: ended (conditions.map (·.pieces spell)) ++ result.pieces spell
  | (_, result) => .keyword .base :: result.pieces spell

/-- What is written after the name of a value. -/
def bodyPieces : Expr → List Piece
  | .cascade cases =>
    .keyword .doWord :: cases.flatMap (casePieces spell) ++ [.keyword .endWord]
  | e => .mark .comma :: e.pieces spell

def Value.pieces (v : Value) : List Piece :=
  .keyword (if v.inline then .letWord else .value) :: .symbol v.name ::
    bodyPieces spell v.expression

def Trait.pieces (t : Trait) : List Piece :=
  .keyword .trait :: .symbol t.name :: .mark .comma :: t.expression.pieces spell

def Reader.Declaration.pieces : Reader.Declaration → List Piece
  | .value v => v.pieces spell
  | .trait t => t.pieces spell

end

namespace Schema

/-- The values, then the traits. -/
def declarations (s : Schema) : List Reader.Declaration :=
  s.values.map .value ++ s.traits.map .trait

def inputPieces (spell : Float → FloatForm) (inputs : List Input) : List Piece :=
  .keyword .input :: (.keyword .doWord :: (inputs.map (·.pieces spell)).flatten) ++
    [.keyword .endWord]

def pieces (spell : Float → FloatForm) (s : Schema) : List Piece :=
  .keyword .schema :: (.keyword .doWord :: (s.imports.flatMap Import.pieces ++
    inputPieces spell s.inputs ++ s.declarations.flatMap (·.pieces spell))) ++ [.keyword .endWord]

/-- The text of a schema. -/
def written (spell : Float → FloatForm) (s : Schema) : String :=
  String.ofList (Piece.layout (s.pieces spell))

end Schema

section

variable (spell : Float → FloatForm) (imported : List String)

/-- Cases that can be written: conditions that all hold, none of them a symbol, or a base case. -/
inductive CaseWellFormed : Expr × Expr → Prop
  | on {conditions : List Expr} {result : Expr} : conditions ≠ [] →
    (∀ c ∈ conditions, c.WellFormed spell imported) →
    (∀ c ∈ conditions, ∀ name, c ≠ .symbol name) → result.WellFormed spell imported →
    CaseWellFormed (.apply "cascade_and" conditions, result)
  | base {result : Expr} : result.WellFormed spell imported →
    CaseWellFormed (.boolean true, result)

/-- Only as the whole of a value may an expression be a cascade. -/
inductive BodyWellFormed : Expr → Prop
  | expression {e : Expr} : e.WellFormed spell imported → BodyWellFormed e
  | cascade {cases : List (Expr × Expr)} : (∀ c ∈ cases, CaseWellFormed spell imported c) →
    BodyWellFormed (.cascade cases)

end

structure Import.WellFormed (i : Import) : Prop where
  nonempty : i.names ≠ []
  names : ∀ name ∈ i.names, Word name.toList
  source : Constant i.source.toList

/-- Schemas that can be written. -/
structure Schema.WellFormed (spell : Float → FloatForm) (s : Schema) : Prop where
  imports : ∀ i ∈ s.imports, i.WellFormed
  inputs : ∀ input ∈ s.inputs, input.WellFormed spell false
  values : ∀ v ∈ s.values, Word v.name.toList ∧
    BodyWellFormed spell (s.imports.flatMap Import.names) v.expression
  traits : ∀ t ∈ s.traits, Word t.name.toList ∧
    t.expression.WellFormed spell (s.imports.flatMap Import.names)

def caseLevels : Expr × Expr → Nat
  | (.call _ conditions _, result) => deepest (result.levels :: conditions.map Expr.levels)
  | (_, result) => result.levels

def bodyLevels : Expr → Nat
  | .cascade cases => deepest (cases.map caseLevels)
  | e => e.levels

/-- The levels that a schema opens, in expressions and in blocks of inputs. -/
def Schema.levels (s : Schema) : Nat :=
  deepest (s.inputs.map Input.levels ++ s.values.map (fun v => bodyLevels v.expression) ++
    s.traits.map fun t => t.expression.levels)

section Phrases

open Grammar

variable {spell : Float → FloatForm} {imported : List String}

theorem ended_map_cons {α : Type} (write : α → List Piece) (a : α) (as : List α) :
    ended ((a :: as).map write) = write a ++ (.mark .comma :: ended (as.map write)) := by
  simp [ended]

theorem writes_names {names : List String} (h : ∀ name ∈ names, Word name.toList) :
    Writes (ended (names.map fun name => [.symbol name])) (Items Name) names := by
  induction names with
  | nil => exact .nil .nil
  | cons name names ih =>
    have more := ih fun other hother => h other (by simp [hother])
    rw [ended_map_cons]
    refine (writes_name (h name (by simp))).append (more.after (p := .mark .comma) (by simp))
      fun ts us hts hus => ?_
    obtain ⟨hcomma, hus⟩ := hus
    exact .cons hts hcomma hus

theorem Import.WellFormed.writes {i : Import} (h : i.WellFormed) :
    Writes i.pieces (UpTo Import.unplaced Grammar.Import) i := by
  have names := writes_names h.names
  have label : (Piece.label "from").Valid := by
    have word : Word "from".toList := by decide
    exact word
  have source : (Piece.constant i.source).Valid := h.source
  refine ⟨?_, fun ts hts => ?_⟩
  · simpa [Import.pieces, label, source, or_imp, forall_and] using names.valid
  · obtain _ | ⟨ht, hts⟩ := hts
    obtain ⟨us, vs, rfl, hus, hvs⟩ := spells_append hts
    obtain _ | ⟨hlabel, hvs⟩ := hvs
    obtain _ | ⟨hsource, hvs⟩ := hvs
    cases hvs
    refine ⟨_, .mk ht.1 (names.spells us hus) h.nonempty hlabel.1 hlabel.2 hsource.1, ?_⟩
    have raw : _ = i.source := hsource.2
    rw [Import.unplaced, Import.unplaced, raw]

/-- Conditions, each with a comma after it. -/
theorem writes_conditions {expr : Phrase Expr} {conditions : List Expr} (hne : conditions ≠ [])
    (h : ∀ c ∈ conditions, Writes (c.pieces spell) expr c) :
    Writes (ended (conditions.map (·.pieces spell))) (Conditions expr) conditions := by
  induction conditions with
  | nil => exact absurd rfl hne
  | cons c conditions ih =>
    have first := h c (by simp)
    rw [ended_map_cons]
    cases conditions with
    | nil =>
      have comma : Writes [.mark .comma]
          (fun ts _ => ∃ t : Token, ts = [t] ∧ t.kind = .mark .comma) () :=
        .single (by simp) fun t ht => ⟨t, rfl, ht.1⟩
      apply first.append comma
      intro ts us hts hus
      obtain ⟨t, rfl, ht⟩ := hus
      exact .one hts ht
    | cons d conditions =>
      have more := ih (by simp) fun other hother => h other (by simp [hother])
      apply first.append (more.after (p := .mark .comma) (by simp))
      intro ts us hts hus
      obtain ⟨hcomma, hus⟩ := hus
      exact .cons hts hcomma hus

theorem condition_of_ne_symbol {c : Expr} (h : ∀ name, c ≠ .symbol name) :
    Reader.condition c = c := by
  unfold Reader.condition
  split
  · next name => exact absurd rfl (h name)
  · rfl

theorem CaseWellFormed.writes {expr : Phrase Expr} {case : Expr × Expr}
    (h : CaseWellFormed spell imported case)
    (hexpr : ∀ e : Expr, e.WellFormed spell imported → e.levels ≤ caseLevels case →
      Writes (e.pieces spell) expr e) :
    Writes (casePieces spell case) (Case expr) case := by
  cases h with
  | @on conditions result hne hconditions hsymbol hresult =>
    have deep : ∀ n ∈ result.levels :: conditions.map Expr.levels,
        n ≤ caseLevels (.apply "cascade_and" conditions, result) := fun n hn => le_deepest hn
    have tried := writes_conditions hne fun c hc =>
      hexpr c (hconditions c hc) (deep _ (List.mem_cons_of_mem _ (List.mem_map_of_mem hc)))
    have given := hexpr result hresult (deep _ (List.mem_cons_self ..))
    have same : conditions.map Reader.condition = conditions :=
      (List.map_congr_left fun c hc => condition_of_ne_symbol (hsymbol c hc)).trans (List.map_id _)
    refine .cons (by simp) (tried.both given) fun t ts ht hts => ?_
    obtain ⟨hconds, hres⟩ := hts
    have on := Case.on ht.1 hconds.conditions hres
    rwa [same] at on
  | base hresult =>
    exact .cons (by simp) (hexpr _ hresult (Nat.le_refl _)) fun t ts ht hts => .base ht.1 hts

theorem BodyWellFormed.writes {expr : Phrase Expr} {body : Expr}
    (h : BodyWellFormed spell imported body)
    (hexpr : ∀ e : Expr, e.WellFormed spell imported → e.levels ≤ bodyLevels body →
      Writes (e.pieces spell) expr e) :
    Writes (bodyPieces spell body) (Body expr) body := by
  cases h with
  | expression h =>
    have plain : bodyPieces spell body = .mark .comma :: body.pieces spell ∧
        bodyLevels body = body.levels := by
      cases h <;> exact ⟨rfl, rfl⟩
    rw [plain.1]
    rw [plain.2] at hexpr
    exact .cons (by simp) (hexpr body h (Nat.le_refl _)) fun t ts ht hts => .expression ht.1 hts
  | @cascade cases h =>
    have each : ∀ c ∈ cases, Writes (casePieces spell c) (Case expr) c := by
      intro c hc
      refine (h c hc).writes fun e he hlevels => hexpr e he ?_
      have deep : caseLevels c ≤ deepest (cases.map caseLevels) :=
        le_deepest (List.mem_map_of_mem hc)
      exact Nat.le_trans hlevels deep
    exact .between (by simp) (Writes.many each) (by simp) fun _ _ _ ht hts hu =>
      .cascade ht.1 hts hu.1

theorem writes_value {expr : Phrase Expr} {v : Value} (hname : Word v.name.toList)
    (h : Writes (bodyPieces spell v.expression) (Body expr) v.expression) :
    Writes (v.pieces spell) (UpTo Reader.Declaration.unplaced (Declaration expr)) (.value v) := by
  obtain ⟨name, e, inline, location⟩ := v
  refine .cons (by simp) ((writes_name hname).both h) fun t ts ht hts => ?_
  obtain ⟨⟨hsymbol⟩, hbody⟩ := hts
  cases inline with
  | false => exact ⟨_, .value ht.1 hsymbol hbody, rfl⟩
  | true => exact ⟨_, .letValue ht.1 hsymbol hbody, rfl⟩

theorem writes_trait {expr : Phrase Expr} {t : Trait} (hname : Word t.name.toList)
    (h : Writes (t.expression.pieces spell) expr t.expression) :
    Writes (t.pieces spell) (UpTo Reader.Declaration.unplaced (Declaration expr)) (.trait t) := by
  obtain ⟨name, e, location⟩ := t
  have body := h.after (p := .mark .comma) (by simp)
  refine .cons (by simp) ((writes_name hname).both body) fun t ts ht hts => ?_
  obtain ⟨⟨hsymbol⟩, ⟨hcomma, hexpr⟩⟩ := hts
  exact ⟨_, .trait ht.1 hsymbol hcomma hexpr, rfl⟩

end Phrases

namespace Schema

open Grammar

variable {spell : Float → FloatForm}

theorem writes_inputSection {inputs : List Input} {limit : Nat}
    (h : ∀ input ∈ inputs, input.WellFormed spell false)
    (hlevels : ∀ input ∈ inputs, input.levels ≤ limit) :
    Writes (inputPieces spell inputs) (UpTo (List.map Input.unplaced) (InputSection limit))
      inputs := by
  have inside := Input.writes_inputs
    (fun input hinput => (h input hinput).writes limit (hlevels input hinput)) (by simp)
  refine .between (by simp) (inside.after (p := .keyword .doWord) (by simp)) (by simp)
    fun t ts u ht hts hu => ?_
  obtain ⟨hopening, inputs', hinputs, hview⟩ := hts
  exact ⟨inputs', .mk ht.1 hopening hinputs hu.1, hview⟩

theorem writes_imports {imports : List Import} (h : ∀ i ∈ imports, i.WellFormed) :
    Writes (imports.flatMap Import.pieces)
      (UpTo (List.map Import.unplaced) (Many Grammar.Import)) imports :=
  (Writes.many fun i hi => (h i hi).writes).imp fun _ hts => many_upTo hts

/-- The values and traits of a schema are read back, their places apart. -/
theorem WellFormed.writes_declarations {s : Schema} {limit : Nat} (h : s.WellFormed spell)
    (hlevels : s.levels ≤ limit) :
    Writes (s.declarations.flatMap (·.pieces spell))
      (UpTo (List.map Reader.Declaration.unplaced)
        (Many (Declaration (Expression (s.imports.flatMap Import.names) limit))))
      s.declarations := by
  have read (e : Expr) (he : e.WellFormed spell (s.imports.flatMap Import.names))
      (hle : e.levels ≤ limit) :
      Writes (e.pieces spell) (Expression (s.imports.flatMap Import.names) limit) e :=
    he.read.climb hle 0
  have each : ∀ d ∈ s.declarations, Writes (d.pieces spell) (UpTo Reader.Declaration.unplaced
      (Declaration (Expression (s.imports.flatMap Import.names) limit))) d := by
    intro d hd
    rcases List.mem_append.mp hd with hd | hd
    · obtain ⟨v, hv, rfl⟩ := List.mem_map.mp hd
      obtain ⟨hname, hbody⟩ := h.values v hv
      have deep : bodyLevels v.expression ≤ s.levels := by
        refine le_deepest (List.mem_append_left _ (List.mem_append_right _ ?_))
        exact List.mem_map.mpr ⟨v, hv, rfl⟩
      exact writes_value hname (hbody.writes fun e he hle => read e he (by omega))
    · obtain ⟨t, ht, rfl⟩ := List.mem_map.mp hd
      obtain ⟨hname, hexpr⟩ := h.traits t ht
      have deep : t.expression.levels ≤ s.levels :=
        le_deepest (List.mem_append_right _ (List.mem_map.mpr ⟨t, ht, rfl⟩))
      exact writes_trait hname (read _ hexpr (by omega))
  exact (Writes.many each).imp fun _ hts => many_upTo hts

/-- A schema is made of its own parts. -/
theorem ofParts_declarations (s : Schema) :
    Schema.ofParts s.imports s.inputs s.declarations = s := by
  have values : s.declarations.filterMap (·.value?) = s.values := by
    simp [declarations, List.filterMap_append, List.filterMap_map, Reader.Declaration.value?]
  have traits : s.declarations.filterMap (·.trait?) = s.traits := by
    simp [declarations, List.filterMap_append, List.filterMap_map, Reader.Declaration.trait?]
  rw [Schema.ofParts, values, traits]

/-- A schema that can be written is read back, places apart, within as many levels as it opens. -/
theorem WellFormed.writes {s : Schema} {limit : Nat} (h : s.WellFormed spell)
    (hlevels : s.levels ≤ limit) :
    Writes (s.pieces spell) (UpTo Schema.unplaced (Grammar.Schema limit)) s := by
  have inputs := writes_inputSection h.inputs fun input hinput => by
    have deep : input.levels ≤ s.levels := le_deepest (List.mem_append_left _
      (List.mem_append_left _ (List.mem_map.mpr ⟨input, hinput, rfl⟩)))
    exact Nat.le_trans deep hlevels
  have parts := ((writes_imports h.imports).both inputs).both (h.writes_declarations hlevels)
  refine .between (by simp) (parts.after (p := .keyword .doWord) (by simp)) (by simp)
    fun t ts u ht hts hu => ?_
  obtain ⟨hopening, ⟨⟨imports', himports, himportsView⟩, ⟨inputs', hinputs, hinputsView⟩⟩,
    ⟨decls', hdecls, hdeclsView⟩⟩ := hts
  rw [← names_of_unplaced himportsView] at hdecls
  refine ⟨_, .of_parts ht.1 hopening himports hinputs hdecls hu.1, ?_⟩
  rw [ofParts_unplaced himportsView hinputsView hdeclsView, ofParts_declarations]

end Schema

end SchemaLang
