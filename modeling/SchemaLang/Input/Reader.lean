import SchemaLang.Input.Domain

namespace SchemaLang.Reader

/-- The type that `element` gives the items of an array. -/
def elementType : Reader InputType := fun ts => do
  let ⟨name, rest, _⟩ ← symbol ts
  match name with
  | "array" => return .mk .array rest
  | "hash" => return .mk .hash rest
  | _ =>
    match Primitive.ofName? name with
    | some type => return .mk (.primitive type) rest
    | none => fail ts .unknownElementType

/-- The type and the name that start a declaration. Elements and indices are declared only right
inside an array. -/
def inputHead (inArray : Bool) : Reader (InputType × String)
  | [] => fail [] .expectedInputType
  | t :: rest =>
    let named (type : InputType) :
        Except Fault (Parsed (InputType × String) (t :: rest).length) := do
      let ⟨name, rest, _⟩ ← symbol rest
      return .mk (type, name) rest
    match t.kind with
    | .type .array => named .array
    | .type .hash => named .hash
    | .type (.primitive type) => named (.primitive type)
    | .type .index => if inArray then named .index else fail (t :: rest) .indexOutsideArray
    | .type .element =>
      if inArray then do
        let ⟨type, rest, _⟩ ← elementType rest
        let ⟨_, rest, _⟩ ← expect (.mark .comma) rest
        let ⟨name, rest, _⟩ ← symbol rest
        return .mk (.element type, name) rest
      else fail (t :: rest) .elementOutsideArray
    | _ => fail (t :: rest) .expectedInputType

/-- What may be said of an input after its name. -/
structure InputOptions where
  domain : Option Domain
  index : Option String

/-- One option: its label and what it says. Only arrays have an index. -/
def inputOption (type : InputType) (options : InputOptions) : Reader InputOptions
  | [] => fail [] .expectedOption
  | t :: rest =>
    if t.kind ≠ .label then fail (t :: rest) .expectedOption
    else if t.raw = "domain" then do
      let ⟨d, rest, _⟩ ← domain rest
      return .mk { options with domain := some d } rest
    else if t.raw = "index" then
      if type.isArray then do
        let ⟨name, rest, _⟩ ← symbol rest
        return .mk { options with index := some name } rest
      else fail (t :: rest) .indexOption
    else fail (t :: rest) .unknownOption

/-- Options, each after a comma. Of two with one label the later counts. -/
def inputOptions (type : InputType) (options : InputOptions) (ts : List Token) :
    Except Fault (Parsed InputOptions (ts.length + 1)) :=
  match accept? (.mark .comma) ts with
  | none => .ok (.mk options ts)
  | some ⟨_, rest, _⟩ => do
    let ⟨options, rest, _⟩ ← inputOption type options rest
    let ⟨options, rest, _⟩ ← inputOptions type options rest
    return .mk options rest
termination_by ts.length
decreasing_by omega

/-- How the children of an array are declared, once the next one starts with a kind. Indices do
not count. -/
def nextStyle (array : String) (style : Option AccessMode) (ts : List Token) :
    Except Fault (Option AccessMode) :=
  match firstKind ts with
  | .type .index => .ok style
  | kind =>
    let next : AccessMode := if kind = .type .element then .element else .field
    if style.isSome ∧ style ≠ some next then fail ts (.mixedArray array) else .ok (some next)

/-- Declarations up to the end of their block. Those right inside an array, whose name is given
then, are all elements or all fields. -/
def inputList (decl : Bool → Reader Input) (array : Option String) (style : Option AccessMode)
    (ts : List Token) : Except Fault (Parsed (List Input) (ts.length + 1)) :=
  match ts with
  | [] => .ok (.mk [] [])
  | t :: rest =>
    if t.kind = .keyword .endWord then .ok (.mk [] (t :: rest))
    else do
      let style ← array.elim (pure style) fun name => nextStyle name style (t :: rest)
      let ⟨input, rest, _⟩ ← decl array.isSome (t :: rest)
      let ⟨inputs, rest, _⟩ ← inputList decl array style rest
      return .mk (input :: inputs) rest
termination_by ts.length
decreasing_by all_goals
  simp only [List.length_cons] at *
  omega

/-- How the items of an input are reached, given its type and its children. -/
def accessMode (type : InputType) (children : List Input) : Option AccessMode :=
  if type.isArray then
    some (if children.any fun c => c.type matches .element _ then .element else .field)
  else none

/-- The block that may follow a declaration, read by `nested`. Only containers have one. -/
def inputBlock (nested : Option String → Tail (List Input)) (type : InputType) (name : String) :
    Tail (List Input) := fun ts =>
  match accept? (.keyword .doWord) ts with
  | none => .ok (.mk [] ts)
  | some ⟨_, rest, _⟩ =>
    if !type.isContainer then fail ts (.notContainer name)
    else do
      let ⟨children, rest, _⟩ ← nested (if type.isArray then some name else none) rest
      let ⟨_, rest, _⟩ ← expect (.keyword .endWord) rest
      return .mk children rest

def input (nested : Option String → Tail (List Input)) (inArray : Bool) : Reader Input :=
  fun ts => do
    let ⟨(type, name), rest, _⟩ ← inputHead inArray ts
    let ⟨options, rest, _⟩ ← inputOptions type ⟨none, none⟩ rest
    let ⟨children, rest, _⟩ ← inputBlock nested type name rest
    return .mk {
      name, type, children
      domain := options.domain
      accessMode := accessMode type children
      index := options.index
      location := (ts.head?.map Token.location).getD .start } rest

/-- Declarations whose blocks go at most `room` levels further in. -/
def inputs (room : Nat) (array : Option String) : Tail (List Input) :=
  let nested (array : Option String) : Tail (List Input) := fun ts =>
    match room with
    | 0 => fail ts (.tooDeep .input)
    | room + 1 => inputs room array ts
  inputList (input nested) array none

end SchemaLang.Reader
