import SchemaLang.Proofs.Nesting.Plan

namespace SchemaLang

/-- Tokens to walk along. -/
structure Track where
  tokens : List Token
  /-- The token that stands for the end behind the last of them. -/
  stop : Token
  stop_kind : stop.kind = .eof
  /-- The most levels that may be open at once. -/
  limit : Nat

def Track.tokenAt (track : Track) (pos : Nat) : Token := track.tokens[pos]?.getD track.stop

/-- Where a walk stands: how many tokens it has behind it, how many levels are open, and how many
steps it may still take. -/
structure Cursor where
  pos : Nat
  depth : Nat
  steps : Nat

/-- Why a walk halts early. A refusal is an answer; all else is a mishap. -/
inductive Halt where
  | refused (refusal : Refusal)
  /-- It passed a token for the end. -/
  | overrun
  /-- It closed a level that was not open. -/
  | unbalanced
  /-- It passed no token between a call and a call of the same rank or a higher one. -/
  | stalled
  /-- It had no steps left. -/
  | exhausted

/-- A walk that ends with a value or halts early. It has a cursor in both cases. -/
abbrev Walk (α : Type) := ReaderT Track (EStateM Halt Cursor) α

namespace Walk

open Reader

variable {α β : Type}

def current : Walk Token := fun track c => .ok (track.tokenAt c.pos) c

/-- The kind of the token after that at the cursor. -/
def kindAfter : Walk Kind := fun track c => .ok (track.tokenAt (c.pos + 1)).kind c

def advance : Walk Unit := fun track c =>
  if (track.tokenAt c.pos).kind = .eof then .error .overrun c
  else .ok () { c with pos := c.pos + 1 }

/-- Refuses a token that was seen earlier. -/
def refuseAt (t : Token) (cause : Cause) : Walk α := fun _ c => .error (.refused ⟨t, cause⟩) c

def refuse (cause : Cause) : Walk α := do refuseAt (← current) cause

def descend (nesting : Nesting) : Walk Unit := fun track c =>
  if track.limit ≤ c.depth then refuse (.tooDeep nesting) track c
  else .ok () { c with depth := c.depth + 1 }

def ascend : Walk Unit := fun _ c =>
  match c.depth with
  | 0 => .error .unbalanced c
  | depth + 1 => .ok () { c with depth }

/-- The value of a walk, or why it halted. -/
def outcome (x : Walk α) : Walk (Except Halt α) := fun track c =>
  match x track c with
  | .ok a c => .ok (.ok a) c
  | .error halt c => .ok (.error halt) c

/-- A walk on a level of its own, which is closed however the walk ends. -/
def within (nesting : Nesting) (x : Walk α) : Walk α := do
  descend nesting
  let result ← x.outcome
  ascend
  match result with
  | .ok a => pure a
  | .error halt => throw halt

/-- Passes a token of the given kind, if one stands at the cursor. -/
def ifNext (kind : Kind) (yes : Token → Walk α) (no : Walk α) : Walk α := do
  let t ← current
  if t.kind = kind then do
    advance
    yes t
  else no

/-- Passes the token at the cursor and goes on as it tells, unless it is refused. -/
def take (step : Token → Except Cause (Walk α)) : Walk α := do
  let t ← current
  match step t with
  | .error cause => refuse cause
  | .ok next => do
    advance
    next

def expect (kind : Kind) : Walk Token :=
  take fun t => if t.kind = kind then .ok (pure t) else .error (.missing kind)

def symbol : Walk String :=
  take fun t =>
    if t.kind = .symbol then .ok (pure t.raw)
    else .error (if t.isWord then .missingColon else .expectedSymbol)

def integer (t : Token) : Except Cause Int64 :=
  match Decimal.readInt64? (digits t) with
  | some n => .ok n
  | none => .error .integerRange

def float (t : Token) : Except Cause Float :=
  match Decimal.readFloat? (digits t) with
  | some x => .ok x
  | none => .error .invalidFloat

/-- A value that a token denotes, when the token has been passed. -/
def valueOf (t : Token) : Except Cause α → Walk α
  | .ok a => pure a
  | .error cause => refuseAt t cause

/-- Items with commas between them, and perhaps after the last, up to the closing token. `again`
goes on after a comma. -/
def separated (close : Kind) (item : List α → Walk α) (again : List α → Walk (List α))
    (earlier : List α) : Walk (List α) := do
  let t ← current
  if t.kind = close then do
    let _ ← expect close
    pure earlier.reverse
  else do
    let a ← item earlier
    ifNext (.mark .comma) (fun _ => again (a :: earlier)) do
      let _ ← expect close
      pure (a :: earlier).reverse

end Walk

/-- What is read more than once or inside itself. -/
inductive Routine : Type → Type 1
  | schema : Routine Schema
  | imports : Routine (List Import)
  | importDecl : Routine Import
  | importNames : Routine (List String)
  | inputs (array : Option String) (style : Option AccessMode) : Routine (List Input)
  | inputDecl (inArray : Bool) : Routine Input
  | inputOptions (type : InputType) (options : Reader.InputOptions) : Routine Reader.InputOptions
  | domain : Routine Domain
  | domainValues (earlier : List Literal) : Routine (List Literal)
  | declarations (imported : List String) : Routine (List Reader.Declaration)
  | value (imported : List String) (inline : Bool) : Routine Reader.Declaration
  | trait (imported : List String) : Routine Reader.Declaration
  | caseList (imported : List String) : Routine (List (Expr × Expr))
  | onCase (imported : List String) : Routine (Expr × Expr)
  | moreExpressions (imported : List String) : Routine (List Expr)
  | climb (imported : List String) (least : Nat) : Routine Expr
  | operand (imported : List String) : Routine Expr
  | primary (imported : List String) : Routine Expr
  | indices (imported : List String) (e : Expr) : Routine Expr
  | chain (imported : List String) (least : Nat) (left : Expr) : Routine Expr
  | fieldNames : Routine (List String)
  | arrayLiteral (imported : List String) : Routine Expr
  | hashLiteral (imported : List String) : Routine Expr
  | items {α : Type} (imported : List String) (item : Reader.Item α) (earlier : List α) :
    Routine (List α)

namespace Routine

variable {α : Type}

/-- The kind of the token that a routine is called at, where it takes that token unseen. -/
@[simp]
def opening? : Routine α → Option Kind
  | .importDecl => some (.keyword .importWord)
  | .value _ inline => some (.keyword (if inline then .letWord else .value))
  | .trait _ => some (.keyword .trait)
  | .onCase _ => some (.keyword .on)
  | .arrayLiteral _ => some (.mark .leftBracket)
  | .hashLiteral _ => some (.mark .leftBrace)
  | _ => none

/-- Whether a routine passes a token whenever it ends with a value. -/
@[simp]
def takes : Routine α → Bool
  | .imports | .importNames | .inputs _ _ | .inputOptions _ _ | .moreExpressions _
  | .indices _ _ | .chain _ _ _ | .fieldNames => false
  | _ => true

/-- The order of calls: before it passes a token, a routine calls only those of lower rank. -/
@[simp]
def rank : Routine α → Nat
  | .items _ _ _ => 4
  | .climb _ _ => 3
  | .operand _ => 2
  | .primary _ | .caseList _ | .declarations _ | .imports | .inputs _ _ => 1
  | _ => 0

end Routine

namespace Walk

open Reader

variable (call : {β : Type} → Routine β → Walk β)

section Expressions

variable (imported : List String)

def expression : Walk Expr := call (.climb imported 0)

def fieldName : Walk String :=
  take fun t => if t.isWord then .ok (pure t.raw) else .error .expectedField

def fieldNames : Walk (List String) :=
  ifNext (.mark .dot) (fun _ => do
    let name ← fieldName
    let names ← call .fieldNames
    pure (name :: names)) (pure [])

def inputPath : Walk Expr :=
  ifNext (.mark .dot) (fun _ => do
    let name ← fieldName
    let names ← call .fieldNames
    pure (if names.isEmpty then .input name else .inputPath (name :: names))) (refuse .missingDot)

def keyedArgument (earlier : List String) : Walk (String × Expr) :=
  take fun t =>
    if t.raw ∈ earlier then .error .duplicateKey
    else .ok do
      let value ← expression call imported
      pure (t.raw, value)

def argument (earlier : List Argument) : Walk Argument := do
  let t ← current
  if t.kind = .label then do
    let q ← keyedArgument call imported (Argument.keys earlier)
    pure (.keyed q.1 q.2)
  else if !(Argument.keys earlier).isEmpty then refuse .positionalAfterKey
  else do
    let value ← expression call imported
    pure (.positional value)

def importArgument (function : String) (earlier : List (String × Expr)) : Walk (String × Expr) := do
  let t ← current
  if t.kind = .label then keyedArgument call imported (earlier.map Prod.fst)
  else refuse (.keysOnly function)

def arrowAfter (key : Token) (value : Literal) : Walk Literal :=
  ifNext (.mark .arrow) (fun _ => pure value) (refuse (.missingArrow key))

def hashKey : Walk Literal :=
  take fun t =>
    match t.kind with
    | .label => .ok (pure (.symbol t.raw))
    | .string => .ok (arrowAfter t (.string t.raw))
    | .symbol => .ok (arrowAfter t (.symbol t.raw))
    | _ => .error .expectedHashKey

def hashPair : Walk (Literal × Expr) := do
  let key ← hashKey
  let value ← expression call imported
  pure (key, value)

def item : {α : Type} → Item α → List α → Walk α
  | _, .argument, earlier => argument call imported earlier
  | _, .importArgument function, earlier => importArgument call imported function earlier
  | _, .element, _ => expression call imported
  | _, .pair, _ => hashPair call imported

def items {α : Type} (kind : Item α) (earlier : List α) : Walk (List α) :=
  separated kind.close (item call imported kind) (fun es => call (.items imported kind es)) earlier

def arrayLiteral : Walk Expr := do
  advance
  let es ← call (.items imported .element [])
  pure (.array es)

def hashLiteral : Walk Expr := do
  advance
  let pairs ← call (.items imported .pair [])
  pure (.hash pairs)

def named (name : String) : Walk Expr :=
  ifNext (.mark .leftParen) (fun _ =>
    if name = "ref" then do
      let target ← symbol
      let _ ← expect (.mark .rightParen)
      pure (.reference target)
    else if name ∈ imported then do
      let args ← call (.items imported (.importArgument name) [])
      pure (.importCall name args)
    else do
      let args ← call (.items imported .argument [])
      pure (Argument.call name args)) (pure (.reference name))

def functionCall : Walk Expr := do
  let _ ← expect (.mark .leftParen)
  let function ← symbol
  ifNext (.mark .comma) (fun _ => do
    let args ← call (.items imported .argument [])
    pure (Argument.call function args)) do
    let _ ← expect (.mark .rightParen)
    pure (.apply function [])

def indexReference : Walk Expr := do
  if (← kindAfter) = .mark .leftParen then do
    advance
    advance
    let name ← symbol
    let _ ← expect (.mark .rightParen)
    pure (.index name)
  else refuse .expectedExpression

def primary : Walk Expr := do
  let t ← current
  match t.kind with
  | .integer => do advance; valueOf t ((integer t).map .int)
  | .float => do advance; valueOf t ((float t).map .float)
  | .string => do advance; pure (.string t.raw)
  | .boolean => do advance; pure (.boolean (t.raw = "true"))
  | .symbol => do advance; pure (.symbol t.raw)
  | .constant =>
    if t.raw = "Float::INFINITY" then do advance; pure (.float (1.0 / 0.0))
    else refuse .unknownConstant
  | .operator .subtract => do
    advance
    let e ← within .expression (call (.operand imported))
    pure (.apply "subtract" [.int 0, e])
  | .keyword .input => do advance; inputPath call
  | .identifier => do advance; named call imported t.raw
  | .keyword .fn => do advance; functionCall call imported
  | .type .index => indexReference
  | .mark .leftParen => do
    advance
    let e ← expression call imported
    let _ ← expect (.mark .rightParen)
    pure e
  | .mark .leftBracket => call (.arrayLiteral imported)
  | .mark .leftBrace => call (.hashLiteral imported)
  | _ => refuse .expectedExpression

def indices (e : Expr) : Walk Expr :=
  ifNext (.mark .leftBracket) (fun _ => do
    let i ← expression call imported
    let _ ← expect (.mark .rightBracket)
    call (.indices imported (.apply "at" [e, i]))) (pure e)

def operand : Walk Expr := do
  let e ← call (.primary imported)
  call (.indices imported e)

def chain (least : Nat) (left : Expr) : Walk Expr := do
  let t ← current
  match t.kind with
  | .operator op =>
    if op.precedence < least then pure left
    else do
      advance
      let right ← call (.climb imported op.rightPrecedence)
      call (.chain imported least (.apply op.function [left, right]))
  | _ => pure left

def climb (least : Nat) : Walk Expr :=
  within .expression do
    let left ← call (.operand imported)
    let e ← call (.chain imported least left)
    let t ← current
    if startsWithSigned [t] then refuse .foldedMinus else pure e

end Expressions

section Inputs

def domainLiteral : Walk Literal :=
  take fun t =>
    match t.kind with
    | .integer => (integer t).map fun n => pure (.integer n)
    | .float => (float t).map fun x => pure (.float x)
    | .string => .ok (pure (.string t.raw))
    | .symbol => .ok (pure (.symbol t.raw))
    | .boolean => .ok (pure (.boolean (t.raw = "true")))
    | _ => .error .expectedDomainLiteral

def domainValues (earlier : List Literal) : Walk (List Literal) :=
  separated (.mark .rightBracket) (fun _ => domainLiteral) (fun es => call (.domainValues es))
    earlier

def infinity (negative : Bool) : Walk Bound :=
  take fun t => if isInfinity t then .ok (pure (infinite negative)) else .error .expectedBound

def bound : Walk Bound := do
  let t ← current
  if t.kind = .operator .subtract ∧ (← kindAfter) = .constant then do
    advance
    infinity true
  else
    take fun t =>
      match t.kind with
      | .integer => (integer t).map fun n => pure (.int n)
      | .float => (float t).map fun x => pure (.float x)
      | _ => if isInfinity t then .ok (pure (infinite false)) else .error .expectedBound

def dots : Walk Bool :=
  take fun t =>
    if t.kind = .mark .dotDot then .ok (pure false)
    else if t.kind = .mark .dotDotDot then .ok (pure true)
    else .error .expectedDots

def domain : Walk Domain :=
  ifNext (.mark .leftBracket) (fun _ => do
    let values ← call (.domainValues [])
    pure (.values values)) do
    let first ← current
    let min ← bound
    let exclusive ← dots
    let max ← bound
    if min.agree max then pure (.range min max exclusive) else refuseAt first .mixedRange

def elementType : Walk InputType :=
  take fun t =>
    if t.kind = .symbol then
      match InputType.ofElementName? t.raw with
      | some type => .ok (pure type)
      | none => .ok (refuseAt t .unknownElementType)
    else .error (if t.isWord then .missingColon else .expectedSymbol)

def inputHead (inArray : Bool) : Walk (InputType × String) :=
  let named (type : InputType) : Walk (InputType × String) := do
    let name ← symbol
    pure (type, name)
  take fun t =>
    match t.kind with
    | .type .array => .ok (named .array)
    | .type .hash => .ok (named .hash)
    | .type (.primitive type) => .ok (named (.primitive type))
    | .type .index => if inArray then .ok (named .index) else .error .indexOutsideArray
    | .type .element =>
      if inArray then .ok do
        let type ← elementType
        let _ ← expect (.mark .comma)
        let name ← symbol
        pure (.element type, name)
      else .error .elementOutsideArray
    | _ => .error .expectedInputType

def inputOption (type : InputType) (options : InputOptions) : Walk InputOptions :=
  take fun t =>
    if t.kind ≠ .label then .error .expectedOption
    else if t.raw = "domain" then .ok do
      let d ← call .domain
      pure { options with domain := some d }
    else if t.raw = "index" then
      if type.isArray then .ok do
        let name ← symbol
        pure { options with index := some name }
      else .ok (refuseAt t .indexOption)
    else .ok (refuseAt t .unknownOption)

def inputOptions (type : InputType) (options : InputOptions) : Walk InputOptions :=
  ifNext (.mark .comma) (fun _ => do
    let options ← inputOption call type options
    call (.inputOptions type options)) (pure options)

def inputBlock (type : InputType) (name : String) : Walk (List Input) := do
  let t ← current
  if t.kind = .keyword .doWord ∧ type.isContainer = false then refuse (.notContainer name)
  else ifNext (.keyword .doWord) (fun _ => do
    let children ← within .input (call (.inputs (if type.isArray then some name else none) none))
    let _ ← expect (.keyword .endWord)
    pure children) (pure [])

def inputDecl (inArray : Bool) : Walk Input := do
  let t ← current
  let head ← inputHead inArray
  let options ← call (.inputOptions head.1 ⟨none, none⟩)
  let children ← inputBlock call head.1 head.2
  pure {
    name := head.2
    type := head.1
    children
    domain := options.domain
    accessMode := accessMode head.1 children
    index := options.index
    location := t.location }

/-- How the children of an array are declared, once the token of the next one is in view. -/
def styleNext (array : Option String) (style : Option AccessMode) (t : Token) :
    Walk (Option AccessMode) :=
  match array.elim (pure style) fun name => nextStyle name style [t] with
  | .ok style => pure style
  | .error fault => refuse fault.cause

def inputs (array : Option String) (style : Option AccessMode) : Walk (List Input) := do
  let t ← current
  if t.kind = .keyword .endWord ∨ t.kind = .eof then pure []
  else do
    let style ← styleNext array style t
    let input ← call (.inputDecl array.isSome)
    let inputs ← call (.inputs array style)
    pure (input :: inputs)

end Inputs

section Declarations

def importNames : Walk (List String) :=
  ifNext (.mark .comma) (fun _ => do
    let t ← current
    if t.kind = .label then pure []
    else do
      let name ← symbol
      let names ← call .importNames
      pure (name :: names)) (pure [])

def fromLabel : Walk Unit :=
  take fun t => if isFrom t then .ok (pure ()) else .error .missingSource

def modulePath : Walk String :=
  take fun t => if t.kind = .constant then .ok (pure t.raw) else .error .expectedModule

def importDecl : Walk Import := do
  let t ← current
  advance
  let name ← symbol
  let names ← call .importNames
  fromLabel
  let source ← modulePath
  pure ⟨name :: names, source, t.location⟩

def imports : Walk (List Import) := do
  let t ← current
  if t.kind = .keyword .importWord then do
    let first ← call .importDecl
    let more ← call .imports
    pure (first :: more)
  else pure []

variable (imported : List String)

def moreExpressions : Walk (List Expr) :=
  ifNext (.mark .comma) (fun _ => do
    let e ← expression call imported
    let es ← call (.moreExpressions imported)
    pure (e :: es)) (pure [])

def onCase : Walk (Expr × Expr) := do
  advance
  let first ← expression call imported
  let more ← call (.moreExpressions imported)
  match more.getLast? with
  | none => refuse .missingResult
  | some result => pure (.apply "cascade_and" ((first :: more.dropLast).map condition), result)

def caseList : Walk (List (Expr × Expr)) := do
  let t ← current
  match t.kind with
  | .keyword .on => do
    let c ← call (.onCase imported)
    let cs ← call (.caseList imported)
    pure (c :: cs)
  | .keyword .base => do
    advance
    let result ← expression call imported
    let cs ← call (.caseList imported)
    pure ((.boolean true, result) :: cs)
  | .keyword .endWord => do
    advance
    pure []
  | _ => refuse .expectedCase

def valueBody (name : String) : Walk Expr :=
  take fun t =>
    match t.kind with
    | .mark .comma => .ok (expression call imported)
    | .keyword .doWord => .ok do
      let cases ← call (.caseList imported)
      pure (.cascade cases)
    | kind => .error (if kind.startsExpression then .missingComma name else .expectedBody name)

def value (inline : Bool) : Walk Declaration := do
  let t ← current
  advance
  let name ← symbol
  let e ← valueBody call imported name
  pure (.value ⟨name, e, inline, t.location⟩)

def trait : Walk Declaration := do
  let t ← current
  advance
  let name ← symbol
  let _ ← expect (.mark .comma)
  let e ← expression call imported
  pure (.trait ⟨name, e, t.location⟩)

/-- The routine of the declaration that a token starts, or why it starts none. -/
def declaration (t : Token) : Except Cause (Routine Declaration) :=
  match t.kind with
  | .keyword .value => .ok (.value imported false)
  | .keyword .letWord => .ok (.value imported true)
  | .keyword .trait => .ok (.trait imported)
  | .keyword .input => .error .secondInputBlock
  | .keyword .importWord => .error .lateImport
  | .eof => .error .unclosedSchema
  | _ => .error .expectedDeclaration

def declarations : Walk (List Declaration) := do
  let t ← current
  if t.kind = .keyword .endWord then do
    advance
    pure []
  else
    match declaration imported t with
    | .error cause => refuse cause
    | .ok routine => do
      let d ← call routine
      let ds ← call (.declarations imported)
      pure (d :: ds)

def schema : Walk Schema := do
  let _ ← expect (.keyword .schema)
  let _ ← expect (.keyword .doWord)
  let imports ← call .imports
  let _ ← expect (.keyword .input)
  let _ ← expect (.keyword .doWord)
  let inputs ← call (.inputs none none)
  let _ ← expect (.keyword .endWord)
  let decls ← call (.declarations (imports.flatMap Import.names))
  let t ← current
  if t.kind = .eof then pure (.ofParts imports inputs decls) else refuse .afterSchema

end Declarations

end Walk

namespace Routine

/-- The walk of a routine, which calls routines in turn. -/
def body (call : {β : Type} → Routine β → Walk β) : {α : Type} → Routine α → Walk α
  | _, .schema => Walk.schema call
  | _, .imports => Walk.imports call
  | _, .importDecl => Walk.importDecl call
  | _, .importNames => Walk.importNames call
  | _, .inputs array style => Walk.inputs call array style
  | _, .inputDecl inArray => Walk.inputDecl call inArray
  | _, .inputOptions type options => Walk.inputOptions call type options
  | _, .domain => Walk.domain call
  | _, .domainValues earlier => Walk.domainValues call earlier
  | _, .declarations imported => Walk.declarations call imported
  | _, .value imported inline => Walk.value call imported inline
  | _, .trait imported => Walk.trait call imported
  | _, .caseList imported => Walk.caseList call imported
  | _, .onCase imported => Walk.onCase call imported
  | _, .moreExpressions imported => Walk.moreExpressions call imported
  | _, .climb imported least => Walk.climb call imported least
  | _, .operand imported => Walk.operand call imported
  | _, .primary imported => Walk.primary call imported
  | _, .indices imported e => Walk.indices call imported e
  | _, .chain imported least left => Walk.chain call imported least left
  | _, .fieldNames => Walk.fieldNames call
  | _, .arrayLiteral imported => Walk.arrayLiteral call imported
  | _, .hashLiteral imported => Walk.hashLiteral call imported
  | _, .items imported item earlier => Walk.items call imported item earlier

/-- A routine, at the cost of a step for it and for each call in it. From one call to the next one
inside it, tokens are passed or the rank falls. -/
def runFor : Nat → {α : Type} → Routine α → Walk α
  | 0, _, _ => fun _ c => .error .exhausted c
  | n + 1, _, r => fun track c =>
    match c.steps with
    | 0 => .error .exhausted c
    | steps + 1 =>
      r.body (fun inner track c' =>
        if c.pos < c'.pos ∨ inner.rank < r.rank then runFor n inner track c'
        else .error .stalled c') track { c with steps }

/-- A routine with the steps that its cursor has left. -/
def run {α : Type} (r : Routine α) : Walk α := fun track c => runFor c.steps r track c

end Routine

end SchemaLang
