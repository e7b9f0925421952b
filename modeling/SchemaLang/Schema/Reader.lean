import SchemaLang.Expr.Reader
import SchemaLang.Input.Reader
import SchemaLang.Schema.Basic

namespace SchemaLang

namespace Reader

/-- Further names of an import, each after a comma. A comma may also stand before the label that
ends them. -/
def importNames (ts : List Token) : Except Fault (Parsed (List String) (ts.length + 1)) :=
  match accept? (.mark .comma) ts with
  | none => .ok (.mk [] ts)
  | some ⟨_, rest, _⟩ =>
    if firstKind rest = .label then .ok (.mk [] rest)
    else do
      let ⟨name, rest, _⟩ ← symbol rest
      let ⟨names, rest, _⟩ ← importNames rest
      return .mk (name :: names) rest
termination_by ts.length
decreasing_by omega

def fromLabel : Reader Unit
  | [] => fail [] .missingSource
  | t :: rest =>
    if t.kind = .label ∧ t.raw = "from" then .ok (.mk () rest)
    else fail (t :: rest) .missingSource

def modulePath : Reader String
  | [] => fail [] .expectedModule
  | t :: rest =>
    if t.kind = .constant then .ok (.mk t.raw rest) else fail (t :: rest) .expectedModule

def imports (ts : List Token) : Except Fault (Parsed (List Import) (ts.length + 1)) :=
  match accept? (.keyword .importWord) ts with
  | none => .ok (.mk [] ts)
  | some ⟨t, rest, _⟩ => do
    let ⟨name, rest, _⟩ ← symbol rest
    let ⟨names, rest, _⟩ ← importNames rest
    let ⟨_, rest, _⟩ ← fromLabel rest
    let ⟨source, rest, _⟩ ← modulePath rest
    let ⟨more, rest, _⟩ ← imports rest
    return .mk (⟨name :: names, source, t.location⟩ :: more) rest
termination_by ts.length
decreasing_by omega

def inputSection (limit : Nat) : Reader (List Input) := fun ts => do
  let ⟨_, rest, _⟩ ← expect (.keyword .input) ts
  let ⟨_, rest, _⟩ ← expect (.keyword .doWord) rest
  let ⟨inputs, rest, _⟩ ← inputs limit none rest
  let ⟨_, rest, _⟩ ← expect (.keyword .endWord) rest
  return .mk inputs rest

def moreExpressions (expr : Reader Expr) (ts : List Token) :
    Except Fault (Parsed (List Expr) (ts.length + 1)) :=
  match accept? (.mark .comma) ts with
  | none => .ok (.mk [] ts)
  | some ⟨_, rest, _⟩ => do
    let ⟨e, rest, _⟩ ← expr rest
    let ⟨es, rest, _⟩ ← moreExpressions expr rest
    return .mk (e :: es) rest
termination_by ts.length
decreasing_by omega

/-- A symbol as a condition names a trait. -/
def condition : Expr → Expr
  | .literal (.symbol name) => .reference name
  | e => e

/-- What follows the word `on`: conditions, which must all hold, and the result. -/
def onCase (expr : Reader Expr) : Reader (Expr × Expr) := fun ts => do
  let ⟨first, rest, _⟩ ← expr ts
  let ⟨more, rest, _⟩ ← moreExpressions expr rest
  match more.getLast? with
  | none => fail rest .missingResult
  | some result =>
    let conditions := (first :: more.dropLast).map condition
    return .mk (.apply "cascade_and" conditions, result) rest

/-- The cases of a cascade, up to its end. -/
def caseList (expr : Reader Expr) (ts : List Token) :
    Except Fault (Parsed (List (Expr × Expr)) ts.length) :=
  match ts with
  | [] => fail [] .expectedCase
  | t :: rest =>
    match t.kind with
    | .keyword .on => do
      let ⟨c, rest, _⟩ ← onCase expr rest
      let ⟨cs, rest, _⟩ ← caseList expr rest
      return .mk (c :: cs) rest
    | .keyword .base => do
      let ⟨result, rest, _⟩ ← expr rest
      let ⟨cs, rest, _⟩ ← caseList expr rest
      return .mk ((.boolean true, result) :: cs) rest
    | .keyword .endWord => .ok (.mk [] rest)
    | _ => fail (t :: rest) .expectedCase
termination_by ts.length
decreasing_by all_goals
  simp only [List.length_cons] at *
  omega

/-- What follows the name of a value: an expression after a comma, or a cascade. -/
def valueBody (expr : Reader Expr) (name : String) : Reader Expr
  | [] => fail [] (.expectedBody name)
  | t :: rest =>
    match t.kind with
    | .mark .comma => do
      let ⟨e, rest, _⟩ ← expr rest
      return .mk e rest
    | .keyword .doWord => do
      let ⟨cases, rest, _⟩ ← caseList expr rest
      return .mk (.cascade cases) rest
    | kind =>
      fail (t :: rest) (if kind.startsExpression then .missingComma name else .expectedBody name)

inductive Declaration where
  | value (decl : Value)
  | trait (decl : Trait)

namespace Declaration

def value? : Declaration → Option Value
  | .value decl => some decl
  | .trait _ => none

def trait? : Declaration → Option Trait
  | .value _ => none
  | .trait decl => some decl

end Declaration

def value (expr : Reader Expr) (inline : Bool) (location : Location) : Reader Declaration :=
  fun ts => do
    let ⟨name, rest, _⟩ ← symbol ts
    let ⟨e, rest, _⟩ ← valueBody expr name rest
    return .mk (.value ⟨name, e, inline, location⟩) rest

def trait (expr : Reader Expr) (location : Location) : Reader Declaration := fun ts => do
  let ⟨name, rest, _⟩ ← symbol ts
  let ⟨_, rest, _⟩ ← expect (.mark .comma) rest
  let ⟨e, rest, _⟩ ← expr rest
  return .mk (.trait ⟨name, e, location⟩) rest

/-- What follows the word that starts a declaration, or why that word starts none. -/
def declaration (expr : Reader Expr) (t : Token) : Except Cause (Reader Declaration) :=
  match t.kind with
  | .keyword .value => .ok (value expr false t.location)
  | .keyword .letWord => .ok (value expr true t.location)
  | .keyword .trait => .ok (trait expr t.location)
  | .keyword .input => .error .secondInputBlock
  | .keyword .importWord => .error .lateImport
  | _ => .error .expectedDeclaration

def declarations (expr : Reader Expr) (ts : List Token) :
    Except Fault (Parsed (List Declaration) ts.length) :=
  match ts with
  | [] => fail [] .unclosedSchema
  | t :: rest =>
    if t.kind = .keyword .endWord then .ok (.mk [] rest)
    else
      match declaration expr t with
      | .error cause => fail (t :: rest) cause
      | .ok body => do
        let ⟨d, rest, _⟩ ← body rest
        let ⟨ds, rest, _⟩ ← declarations expr rest
        return .mk (d :: ds) rest
termination_by ts.length
decreasing_by all_goals
  simp only [List.length_cons] at *
  omega

/-- A whole schema, whose expressions and inputs nest at most `limit` levels. -/
def schema (limit : Nat) (ts : List Token) : Except Fault Schema := do
  let ⟨_, rest, _⟩ ← expect (.keyword .schema) ts
  let ⟨_, rest, _⟩ ← expect (.keyword .doWord) rest
  let ⟨imports, rest, _⟩ ← imports rest
  let ⟨inputs, rest, _⟩ ← inputSection limit rest
  let imported := imports.flatMap Import.names
  let ⟨decls, rest, _⟩ ← declarations (expression imported limit) rest
  if rest.isEmpty then
    return ⟨inputs, decls.filterMap (·.value?), decls.filterMap (·.trait?), imports⟩
  else fail rest .afterSchema

end Reader

/-- Tokens without comments, up to the first token for the end, and the token that stands for the
end. -/
structure Tokens where
  body : List Token
  stop : Token

/-- Where no token stands for the end, one is put at the place of the last token. -/
def Tokens.ofList (tokens : List Token) : Tokens :=
  let code := tokens.filter (·.kind ≠ .comment)
  let last := (tokens.getLast?.map Token.location).getD .start
  { body := code.takeWhile (·.kind ≠ .eof)
    stop := (code.find? (·.kind = .eof)).getD ⟨.eof, "", last, none⟩ }

namespace Schema

/-- The most levels that expressions and inputs may nest. -/
def nestingLimit : Nat := 128

/-- The schema that tokens spell, with at most `limit` levels. -/
def ofTokensWithin (limit : Nat) (tokens : List Token) : Except Refusal Schema :=
  let tokens := Tokens.ofList tokens
  (Reader.schema limit tokens.body).mapError (·.refusal tokens.stop)

/-- The schema that tokens spell, or the first token that does not fit. -/
def ofTokens (tokens : List Token) : Except Refusal Schema := ofTokensWithin nestingLimit tokens

end Schema

end SchemaLang
