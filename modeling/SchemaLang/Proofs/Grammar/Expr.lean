import SchemaLang.Expr.Reader
import SchemaLang.Proofs.Grammar.Basic
import SchemaLang.Proofs.Grammar.Number

namespace SchemaLang

/-- The function that is called in the place of an operator. -/
def Operator.callee : Operator → String
  | .add => "add"
  | .subtract => "subtract"
  | .multiply => "multiply"
  | .divide => "divide"
  | .modulo => "modulo"
  | .exponent => "power"
  | .eq => "=="
  | .ne => "!="
  | .gt => ">"
  | .lt => "<"
  | .ge => ">="
  | .le => "<="
  | .and => "and"
  | .or => "or"

theorem Operator.callee_eq_function (op : Operator) : op.callee = op.function := by
  cases op <;> rfl

/-- The least precedence that an operator on the left side of this one must have to be grouped with
that side. -/
def Operator.leftPrecedence (op : Operator) : Nat :=
  match op.associativity with
  | .left => op.precedence
  | .right => op.precedence + 1

namespace Grammar

/-- The phrases that stand one level further in. -/
structure Level where
  /-- Operands between operators of at least a precedence. -/
  climb : Nat → Phrase Expr
  /-- The operand of a minus. -/
  negated : Phrase Expr

def Level.expression (inner : Level) : Phrase Expr := inner.climb 0

inductive Fields : Phrase (List String)
  | nil : Fields [] []
  | cons {dot t : Token} {p : List Token} {names : List String} :
    dot.kind = .mark .dot → t.isWord → Fields p names → Fields (dot :: t :: p) (t.raw :: names)

inductive Keyed (inner : Level) : Phrase (String × Expr)
  | mk {key : Token} {p : List Token} {e : Expr} :
    key.kind = .label → inner.expression p e → Keyed inner (key :: p) (key.raw, e)

/-- A value, with or without a label. -/
inductive Argument (inner : Level) : Phrase Reader.Argument
  | positional {p : List Token} {e : Expr} :
    inner.expression p e → Argument inner p (.positional e)
  | keyed {p : List Token} {key : String} {e : Expr} :
    Keyed inner p (key, e) → Argument inner p (.keyed key e)

/-- Arguments up to their closing parenthesis: first those without keys, then those with, and no
key twice. -/
inductive Arguments (inner : Level) : Phrase (List Expr × List (String × Expr))
  | mk {p : List Token} {close : Token} {args : List Expr} {opts : List (String × Expr)} :
    Items (Argument inner) p
      (args.map Reader.Argument.positional ++ opts.map fun o => Reader.Argument.keyed o.1 o.2) →
    (opts.map Prod.fst).Nodup → close.kind = .mark .rightParen →
    Arguments inner (p ++ [close]) (args, opts)

/-- A key of a hash: a label, or a string or a symbol before an arrow. -/
inductive HashKey : Phrase Literal
  | label {t : Token} : t.kind = .label → HashKey [t] (.symbol t.raw)
  | string {t arrow : Token} :
    t.kind = .string → arrow.kind = .mark .arrow → HashKey [t, arrow] (.string t.raw)
  | symbol {t arrow : Token} :
    t.kind = .symbol → arrow.kind = .mark .arrow → HashKey [t, arrow] (.symbol t.raw)

inductive HashPair (inner : Level) : Phrase (Literal × Expr)
  | mk {p q : List Token} {key : Literal} {e : Expr} :
    HashKey p key → inner.expression q e → HashPair inner (p ++ q) (key, e)

/-- An operand without the indices after it and without a minus before it. -/
inductive Primary (imported : List String) (inner : Level) : Phrase Expr
  | integer {t : Token} {n : Int64} : t.kind = .integer → Denotes t n →
    Primary imported inner [t] (.int n)
  | float {t : Token} {x : Float} : t.kind = .float →
    Decimal.readFloat? (Reader.digits t) = some x → Primary imported inner [t] (.float x)
  | string {t : Token} : t.kind = .string → Primary imported inner [t] (.string t.raw)
  | boolean {t : Token} :
    t.kind = .boolean → Primary imported inner [t] (.boolean (t.raw = "true"))
  | symbol {t : Token} : t.kind = .symbol → Primary imported inner [t] (.symbol t.raw)
  | infinity {t : Token} : t.kind = .constant → t.raw = "Float::INFINITY" →
    Primary imported inner [t] (.float (1.0 / 0.0))
  | input {t : Token} {p : List Token} {name : String} :
    t.kind = .keyword .input → Fields p [name] → Primary imported inner (t :: p) (.input name)
  | inputPath {t : Token} {p : List Token} {first second : String} {more : List String} :
    t.kind = .keyword .input → Fields p (first :: second :: more) →
    Primary imported inner (t :: p) (.inputPath (first :: second :: more))
  | reference {t : Token} :
    t.kind = .identifier → Primary imported inner [t] (.reference t.raw)
  | ref {t op name close : Token} : t.kind = .identifier → t.raw = "ref" →
    op.kind = .mark .leftParen → name.kind = .symbol → close.kind = .mark .rightParen →
    Primary imported inner [t, op, name, close] (.reference name.raw)
  | importCall {t op close : Token} {p : List Token} {args : List (String × Expr)} :
    t.kind = .identifier → t.raw ≠ "ref" → t.raw ∈ imported → op.kind = .mark .leftParen →
    Items (Keyed inner) p args → (args.map Prod.fst).Nodup → close.kind = .mark .rightParen →
    Primary imported inner (t :: op :: p ++ [close]) (.importCall t.raw args)
  | call {t op : Token} {p : List Token} {args : List Expr} {opts : List (String × Expr)} :
    t.kind = .identifier → t.raw ≠ "ref" → t.raw ∉ imported → op.kind = .mark .leftParen →
    Arguments inner p (args, opts) →
    Primary imported inner (t :: op :: p) (.call t.raw args opts)
  | function {t op name close : Token} : t.kind = .keyword .fn → op.kind = .mark .leftParen →
    name.kind = .symbol → close.kind = .mark .rightParen →
    Primary imported inner [t, op, name, close] (.call name.raw [] [])
  | functionCall {t op name comma : Token} {p : List Token} {args : List Expr}
    {opts : List (String × Expr)} : t.kind = .keyword .fn → op.kind = .mark .leftParen →
    name.kind = .symbol → comma.kind = .mark .comma → Arguments inner p (args, opts) →
    Primary imported inner (t :: op :: name :: comma :: p) (.call name.raw args opts)
  | index {t op name close : Token} : t.kind = .type .index → op.kind = .mark .leftParen →
    name.kind = .symbol → close.kind = .mark .rightParen →
    Primary imported inner [t, op, name, close] (.index name.raw)
  | group {op close : Token} {p : List Token} {e : Expr} : op.kind = .mark .leftParen →
    inner.expression p e → close.kind = .mark .rightParen →
    Primary imported inner (op :: p ++ [close]) e
  | array {op close : Token} {p : List Token} {es : List Expr} : op.kind = .mark .leftBracket →
    Items inner.expression p es → close.kind = .mark .rightBracket →
    Primary imported inner (op :: p ++ [close]) (.array es)
  | hash {op close : Token} {p : List Token} {pairs : List (Literal × Expr)} :
    op.kind = .mark .leftBrace → Items (HashPair inner) p pairs →
    close.kind = .mark .rightBrace → Primary imported inner (op :: p ++ [close]) (.hash pairs)

/-- The indices after an operand, each in brackets and applied to what stands before it. -/
inductive Indices (inner : Level) : Expr → Phrase Expr
  | nil {e : Expr} : Indices inner e [] e
  | cons {op close : Token} {p q : List Token} {e i e' : Expr} : op.kind = .mark .leftBracket →
    inner.expression p i → close.kind = .mark .rightBracket →
    Indices inner (.apply "at" [e, i]) q e' → Indices inner e (op :: p ++ close :: q) e'

/-- An operand, with the indices after it. Those after the operand of a minus belong to that. -/
inductive Operand (imported : List String) (inner : Level) : Phrase Expr
  | negation {t : Token} {p : List Token} {e : Expr} :
    t.kind = .operator .subtract → inner.negated p e →
    Operand imported inner (t :: p) (.apply "subtract" [.int 0, e])
  | mk {p q : List Token} {e e' : Expr} : Primary imported inner p e → Indices inner e q e' →
    Operand imported inner (p ++ q) e'

/-- Operands between operators of at least a precedence. What stands on either side of an operator
binds more tightly than it, or as tightly on the side where such operators group first. The right
side is one level further in. -/
inductive Binary (imported : List String) (inner : Level) : Nat → Phrase Expr
  | operand {least : Nat} {p : List Token} {e : Expr} :
    Operand imported inner p e → Binary imported inner least p e
  | operator {least : Nat} {t : Token} {op : Operator} {p q : List Token} {left right : Expr} :
    t.kind = .operator op → least ≤ op.precedence →
    Binary imported inner op.leftPrecedence p left → inner.climb op.rightPrecedence q right →
    Binary imported inner least (p ++ t :: q) (.apply op.callee [left, right])

section Starts

variable {imported : List String} {inner : Level} {p : List Token} {e : Expr}

theorem Primary.starts (hp : Primary imported inner p e) :
    (Reader.firstKind p).startsExpression := by
  cases hp <;> simp only [List.cons_append, Reader.firstKind, *] <;> rfl

theorem Operand.starts (hp : Operand imported inner p e) :
    (Reader.firstKind p).startsExpression := by
  cases hp with
  | negation ht _ => simp only [Reader.firstKind, ht, Kind.startsExpression]
  | @mk p q _ _ hp _ =>
    have first := hp.starts
    cases p with
    | nil => cases first
    | cons t p => exact first

/-- An expression starts with a token of a kind that may start one. -/
theorem Binary.starts {least : Nat} (hp : Binary imported inner least p e) :
    (Reader.firstKind p).startsExpression := by
  induction hp with
  | operand ho => exact ho.starts
  | @operator least t op p q left right _ _ _ _ ih =>
    cases p with
    | nil => cases ih
    | cons t p => exact ih

end Starts

/-- The phrases that may open a number of levels, one inside the other. -/
def levels (imported : List String) : Nat → Level
  | 0 => ⟨fun _ _ _ => False, fun _ _ => False⟩
  | room + 1 =>
    let inner := levels imported room
    ⟨Binary imported inner, Operand imported inner⟩

/-- An expression that opens at most `room` levels, one inside the other. -/
def Expression (imported : List String) (room : Nat) : Phrase Expr :=
  (levels imported room).expression

end Grammar

end SchemaLang
