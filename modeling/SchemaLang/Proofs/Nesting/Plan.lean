import SchemaLang.Proofs.Reading.Schema

namespace SchemaLang.Reader

open Reading

/-- What may be separated by commas. -/
inductive Item : Type → Type
  | argument : Item Argument
  | importArgument (function : String) : Item (String × Expr)
  | element : Item Expr
  | pair : Item (Literal × Expr)

/-- The token after the last item. -/
def Item.close {α : Type} : Item α → Kind
  | .argument | .importArgument _ => .mark .rightParen
  | .element => .mark .rightBracket
  | .pair => .mark .rightBrace

/-- What is read more than once, where the imported functions have some names. -/
inductive Proc : Type → Type 1
  /-- Operands between operators of at least a precedence. -/
  | climb (imported : List String) (least : Nat) : Proc Expr
  /-- An operand, with the indices after it. -/
  | operand (imported : List String) : Proc Expr
  /-- The indices after an operand. -/
  | indices (imported : List String) (e : Expr) : Proc Expr
  /-- The operators after a left side, each with its right side. -/
  | chain (imported : List String) (least : Nat) (left : Expr) : Proc Expr
  /-- Items after earlier ones, up to the closing token. -/
  | items {α : Type} (imported : List String) (item : Item α) (earlier : List α) : Proc (List α)
  /-- Declarations of inputs, up to the end of their block. -/
  | inputs (array : Option String) (style : Option AccessMode) : Proc (List Input)
  /-- Further expressions, each after a comma. -/
  | moreExpressions (imported : List String) : Proc (List Expr)
  /-- The cases of a cascade, up to its end. -/
  | caseList (imported : List String) : Proc (List (Expr × Expr))
  /-- Values and traits, up to the end of the schema. -/
  | declarations (imported : List String) : Proc (List Declaration)

/-- Steps that read a value. -/
inductive Plan : Type → Type 1
  /-- Reads what opens no level. -/
  | read {α : Type} (x : Reading α) : Plan α
  /-- Goes on as the tokens at hand tell. -/
  | look {α : Type} (next : List Token → Plan α) : Plan α
  | bind {α β : Type} (x : Plan α) (next : α → Plan β) : Plan β
  | call {α : Type} (proc : Proc α) : Plan α
  /-- Opens a level, and closes it when the value is read or refused. -/
  | enter {α : Type} (nesting : Nesting) (proc : Proc α) : Plan α

instance : Monad Plan where
  pure a := .read (pure a)
  bind := .bind

namespace Plan

variable {α : Type}

def skip : Plan Unit := .read fun ts => .ok ((), ts.tail)

def ifNext (kind : Kind) (yes : Token → Plan α) (no : Plan α) : Plan α :=
  .look fun
    | [] => no
    | t :: _ => if t.kind = kind then .bind skip fun _ => yes t else no

/-- Takes the first token and goes on as it tells, unless it is refused. -/
def take (atEnd : Cause) (step : Token → Except Cause (Plan α)) : Plan α :=
  .look fun
    | [] => .read (refuseAt none atEnd)
    | t :: _ =>
      match step t with
      | .error cause => .read (refuseAt (some t) cause)
      | .ok next => .bind skip fun _ => next

section Expressions

variable (imported : List String)

def expression : Plan Expr := .enter .expression (.climb imported 0)

def keyedArgument (earlier : List String) : Plan (String × Expr) :=
  take .expectedExpression fun t =>
    if t.raw ∈ earlier then .error .duplicateKey
    else .ok do
      let value ← expression imported
      pure (t.raw, value)

def argument (earlier : List Argument) : Plan Argument :=
  .look fun ts =>
    if firstKind ts = .label then do
      let q ← keyedArgument imported (Argument.keys earlier)
      pure (.keyed q.1 q.2)
    else if !(Argument.keys earlier).isEmpty then .read (refuse .positionalAfterKey)
    else do
      let value ← expression imported
      pure (.positional value)

def importArgument (function : String) (earlier : List (String × Expr)) : Plan (String × Expr) :=
  .look fun ts =>
    if firstKind ts = .label then keyedArgument imported (earlier.map Prod.fst)
    else .read (refuse (.keysOnly function))

def hashPair : Plan (Literal × Expr) := do
  let key ← Plan.read (reading hashKey)
  let value ← expression imported
  pure (key, value)

def item : {α : Type} → Item α → List α → Plan α
  | _, .argument, earlier => argument imported earlier
  | _, .importArgument function, earlier => importArgument imported function earlier
  | _, .element, _ => expression imported
  | _, .pair, _ => hashPair imported

def items (kind : Item α) (earlier : List α) : Plan (List α) :=
  .look fun ts =>
    if firstKind ts = kind.close then do
      let _ ← Plan.read (reading (expect kind.close))
      pure earlier.reverse
    else do
      let a ← item imported kind earlier
      ifNext (.mark .comma) (fun _ => .call (.items imported kind (a :: earlier))) do
        let _ ← Plan.read (reading (expect kind.close))
        pure (a :: earlier).reverse

def named (name : String) : Plan Expr :=
  ifNext (.mark .leftParen) (fun _ =>
    if name = "ref" then do
      let target ← Plan.read (reading symbol)
      let _ ← Plan.read (reading (expect (.mark .rightParen)))
      pure (.reference target)
    else if name ∈ imported then do
      let args ← Plan.call (.items imported (.importArgument name) [])
      pure (.importCall name args)
    else do
      let args ← Plan.call (.items imported .argument [])
      pure (Argument.call name args)) (pure (.reference name))

def functionCall : Plan Expr := do
  let _ ← Plan.read (reading (expect (.mark .leftParen)))
  let function ← Plan.read (reading symbol)
  ifNext (.mark .comma) (fun _ => do
    let args ← Plan.call (.items imported .argument [])
    pure (Argument.call function args)) do
    let _ ← Plan.read (reading (expect (.mark .rightParen)))
    pure (.apply function [])

/-- What follows the token that starts an operand. -/
def primaryStep (t : Token) : Except Cause (Plan Expr) :=
  match t.kind with
  | .integer => (intStep t .int).map .read
  | .float => (floatStep t .float).map .read
  | .string => .ok (pure (.string t.raw))
  | .boolean => .ok (pure (.boolean (t.raw = "true")))
  | .symbol => .ok (pure (.symbol t.raw))
  | .constant =>
    if t.raw = "Float::INFINITY" then .ok (pure (.float (1.0 / 0.0))) else .error .unknownConstant
  | .operator .subtract => .ok do
    let e ← Plan.enter .expression (.operand imported)
    pure (.apply "subtract" [.int 0, e])
  | .keyword .input => .ok (.read (reading inputPath))
  | .identifier => .ok (named imported t.raw)
  | .keyword .fn => .ok (functionCall imported)
  | .type .index => .ok <| ifNext (.mark .leftParen) (fun _ => do
      let name ← Plan.read (reading symbol)
      let _ ← Plan.read (reading (expect (.mark .rightParen)))
      pure (.index name)) (.read (refuseAt (some t) .expectedExpression))
  | .mark .leftParen => .ok do
    let e ← expression imported
    let _ ← Plan.read (reading (expect (.mark .rightParen)))
    pure e
  | .mark .leftBracket => .ok do
    let es ← Plan.call (.items imported .element [])
    pure (.array es)
  | .mark .leftBrace => .ok do
    let pairs ← Plan.call (.items imported .pair [])
    pure (.hash pairs)
  | _ => .error .expectedExpression

def indices (e : Expr) : Plan Expr :=
  ifNext (.mark .leftBracket) (fun _ => do
    let i ← expression imported
    let _ ← Plan.read (reading (expect (.mark .rightBracket)))
    Plan.call (.indices imported (.apply "at" [e, i]))) (pure e)

def operand : Plan Expr := do
  let e ← take .expectedExpression (primaryStep imported)
  Plan.call (.indices imported e)

/-- What a token starts after a left side: a right side, after an operator of at least a
precedence. -/
def chainStep (least : Nat) (left : Expr) : Kind → Plan Expr
  | .operator op =>
    if op.precedence < least then pure left
    else do
      let _ ← skip
      let right ← Plan.enter .expression (.climb imported op.rightPrecedence)
      Plan.call (.chain imported least (.apply op.function [left, right]))
  | _ => pure left

def chain (least : Nat) (left : Expr) : Plan Expr :=
  .look fun ts => chainStep imported least left (firstKind ts)

def climb (least : Nat) : Plan Expr := do
  let left ← operand imported
  let e ← Plan.call (.chain imported least left)
  .look fun ts => if startsWithSigned ts then .read (refuse .foldedMinus) else pure e

end Expressions

section Inputs

def inputBlock (type : InputType) (name : String) : Plan (List Input) :=
  .look fun ts =>
    if firstKind ts = .keyword .doWord ∧ type.isContainer = false then
      .read (refuse (.notContainer name))
    else ifNext (.keyword .doWord) (fun _ => do
      let children ← Plan.enter .input (.inputs (if type.isArray then some name else none) none)
      let _ ← Plan.read (reading (expect (.keyword .endWord)))
      pure children) (pure [])

def input (inArray : Bool) : Plan Input :=
  .look fun ts => do
    let head ← Plan.read (reading (inputHead inArray))
    let options ← Plan.read (reading (inputOptions head.1 ⟨none, none⟩))
    let children ← inputBlock head.1 head.2
    pure {
      name := head.2
      type := head.1
      children
      domain := options.domain
      accessMode := accessMode head.1 children
      index := options.index
      location := firstLocation ts }

def inputs (array : Option String) (style : Option AccessMode) : Plan (List Input) :=
  .look fun
    | [] => pure []
    | t :: _ =>
      if t.kind = .keyword .endWord then pure []
      else do
        let style ← Plan.read (styleNext array style)
        let input ← input array.isSome
        let inputs ← Plan.call (.inputs array style)
        pure (input :: inputs)

def inputSection : Plan (List Input) := do
  let _ ← Plan.read (reading (expect (.keyword .input)))
  let _ ← Plan.read (reading (expect (.keyword .doWord)))
  let inputs ← Plan.call (.inputs none none)
  let _ ← Plan.read (reading (expect (.keyword .endWord)))
  pure inputs

end Inputs

section Declarations

variable (imported : List String)

def moreExpressions : Plan (List Expr) :=
  ifNext (.mark .comma) (fun _ => do
    let e ← expression imported
    let es ← Plan.call (.moreExpressions imported)
    pure (e :: es)) (pure [])

def onCase : Plan (Expr × Expr) := do
  let first ← expression imported
  let more ← Plan.call (.moreExpressions imported)
  match more.getLast? with
  | none => .read (refuse .missingResult)
  | some result => pure (.apply "cascade_and" ((first :: more.dropLast).map condition), result)

def caseStep (t : Token) : Except Cause (Plan (List (Expr × Expr))) :=
  match t.kind with
  | .keyword .on => .ok do
    let c ← onCase imported
    let cs ← Plan.call (.caseList imported)
    pure (c :: cs)
  | .keyword .base => .ok do
    let result ← expression imported
    let cs ← Plan.call (.caseList imported)
    pure ((.boolean true, result) :: cs)
  | .keyword .endWord => .ok (pure [])
  | _ => .error .expectedCase

def caseList : Plan (List (Expr × Expr)) := take .expectedCase (caseStep imported)

def valueStep (name : String) (t : Token) : Except Cause (Plan Expr) :=
  match t.kind with
  | .mark .comma => .ok (expression imported)
  | .keyword .doWord => .ok do
    let cases ← Plan.call (.caseList imported)
    pure (.cascade cases)
  | kind => .error (if kind.startsExpression then .missingComma name else .expectedBody name)

def value (inline : Bool) (location : Location) : Plan Declaration := do
  let name ← Plan.read (reading symbol)
  let e ← take (.expectedBody name) (valueStep imported name)
  pure (.value ⟨name, e, inline, location⟩)

def trait (location : Location) : Plan Declaration := do
  let name ← Plan.read (reading symbol)
  let _ ← Plan.read (reading (expect (.mark .comma)))
  let e ← expression imported
  pure (.trait ⟨name, e, location⟩)

/-- What follows the word that starts a declaration, or why that word starts none. -/
def declaration (t : Token) : Except Cause (Plan Declaration) :=
  match t.kind with
  | .keyword .value => .ok (value imported false t.location)
  | .keyword .letWord => .ok (value imported true t.location)
  | .keyword .trait => .ok (trait imported t.location)
  | .keyword .input => .error .secondInputBlock
  | .keyword .importWord => .error .lateImport
  | _ => .error .expectedDeclaration

def declarationStep (t : Token) : Except Cause (Plan (List Declaration)) :=
  if t.kind = .keyword .endWord then .ok (pure [])
  else (declaration imported t).map fun body => do
    let d ← body
    let ds ← Plan.call (.declarations imported)
    pure (d :: ds)

def declarations : Plan (List Declaration) := take .unclosedSchema (declarationStep imported)

end Declarations

def schema : Plan Schema := do
  let _ ← Plan.read (reading (expect (.keyword .schema)))
  let _ ← Plan.read (reading (expect (.keyword .doWord)))
  let imports ← Plan.read (reading imports)
  let inputs ← inputSection
  let decls ← Plan.call (.declarations (imports.flatMap Import.names))
  .look fun ts =>
    if ts.isEmpty then pure (.ofParts imports inputs decls) else .read (refuse .afterSchema)

end Plan

def Proc.body : {α : Type} → Proc α → Plan α
  | _, .climb imported least => .climb imported least
  | _, .operand imported => .operand imported
  | _, .indices imported e => .indices imported e
  | _, .chain imported least left => .chain imported least left
  | _, .items imported kind earlier => .items imported kind earlier
  | _, .inputs array style => .inputs array style
  | _, .moreExpressions imported => .moreExpressions imported
  | _, .caseList imported => .caseList imported
  | _, .declarations imported => .declarations imported

end SchemaLang.Reader
