import SchemaLang.Proofs.Grammar.Schema

namespace SchemaLang

namespace Input

mutual

/-- The input without the places where it and those inside it are declared. -/
def unplaced : Input → Input
  | ⟨name, type, domain, children, accessMode, index, _⟩ =>
    ⟨name, type, domain, listUnplaced children, accessMode, index, .start⟩

def listUnplaced : List Input → List Input
  | [] => []
  | input :: inputs => input.unplaced :: listUnplaced inputs

end

theorem listUnplaced_eq (inputs : List Input) : listUnplaced inputs = inputs.map unplaced := by
  induction inputs with
  | nil => rw [listUnplaced, List.map_nil]
  | cons input inputs ih => rw [listUnplaced, ih, List.map_cons]

@[simp] theorem unplaced_type (input : Input) : input.unplaced.type = input.type := by
  cases input
  rfl

/-- Inputs that differ in places only have the same types. -/
theorem map_type_of_unplaced {inputs inputs' : List Input}
    (h : inputs'.map unplaced = inputs.map unplaced) :
    inputs'.map Input.type = inputs.map Input.type := by
  have types := congrArg (List.map Input.type) h
  simpa only [List.map_map, Function.comp_def, unplaced_type] using types

theorem accessMode_of_types {type : InputType} {inputs inputs' : List Input}
    (h : inputs'.map Input.type = inputs.map Input.type) :
    Reader.accessMode type inputs' = Reader.accessMode type inputs := by
  unfold Reader.accessMode
  -- the two sides differ in the list whose types are tested
  congr 3
  induction inputs' generalizing inputs with
  | nil =>
    cases inputs with
    | nil => rfl
    | cons b bs => cases h
  | cons a as ih =>
    cases inputs with
    | nil => cases h
    | cons b bs =>
      obtain ⟨hab, hrest⟩ := List.cons.inj h
      rw [List.any_cons, List.any_cons, hab, Bool.or_eq_true, Bool.or_eq_true, ih hrest]

end Input

def Import.unplaced (i : Import) : Import := { i with location := .start }

def Value.unplaced (v : Value) : Value := { v with location := .start }

def Trait.unplaced (t : Trait) : Trait := { t with location := .start }

/-- The schema without the places where its parts are declared. -/
def Schema.unplaced (s : Schema) : Schema where
  inputs := s.inputs.map Input.unplaced
  values := s.values.map Value.unplaced
  traits := s.traits.map Trait.unplaced
  imports := s.imports.map Import.unplaced

def Reader.Declaration.unplaced : Reader.Declaration → Reader.Declaration
  | .value v => .value v.unplaced
  | .trait t => .trait t.unplaced

namespace Schema

theorem value?_unplaced (d : Reader.Declaration) :
    d.unplaced.value? = d.value?.map Value.unplaced := by
  cases d <;> rfl

theorem trait?_unplaced (d : Reader.Declaration) :
    d.unplaced.trait? = d.trait?.map Trait.unplaced := by
  cases d <;> rfl

theorem names_of_unplaced {imports imports' : List Import}
    (h : imports'.map Import.unplaced = imports.map Import.unplaced) :
    imports'.flatMap Import.names = imports.flatMap Import.names := by
  have names := congrArg (List.flatMap Import.names) h
  rwa [List.flatMap_map, List.flatMap_map] at names

/-- Parts that differ in places only make schemas that do so. -/
theorem ofParts_unplaced {imports imports' : List Import} {inputs inputs' : List Input}
    {decls decls' : List Reader.Declaration}
    (himports : imports.map Import.unplaced = imports'.map Import.unplaced)
    (hinputs : inputs.map Input.unplaced = inputs'.map Input.unplaced)
    (hdecls : decls.map Reader.Declaration.unplaced = decls'.map Reader.Declaration.unplaced) :
    (Schema.ofParts imports inputs decls).unplaced =
      (Schema.ofParts imports' inputs' decls').unplaced := by
  have values (ds : List Reader.Declaration) : (ds.filterMap (·.value?)).map Value.unplaced =
      (ds.map Reader.Declaration.unplaced).filterMap (·.value?) := by
    rw [List.map_filterMap, List.filterMap_map]
    exact congrArg (List.filterMap · ds) (funext fun d => (value?_unplaced d).symm)
  have traits (ds : List Reader.Declaration) : (ds.filterMap (·.trait?)).map Trait.unplaced =
      (ds.map Reader.Declaration.unplaced).filterMap (·.trait?) := by
    rw [List.map_filterMap, List.filterMap_map]
    exact congrArg (List.filterMap · ds) (funext fun d => (trait?_unplaced d).symm)
  rw [Schema.ofParts, Schema.ofParts, unplaced, unplaced, values, values, traits, traits, hdecls,
    himports, hinputs]

end Schema

end SchemaLang
