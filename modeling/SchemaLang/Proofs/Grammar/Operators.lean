import SchemaLang.Proofs.Grammar.Expr

namespace SchemaLang

namespace Operator

/-- A number above every precedence. -/
def ceiling : Nat := 8

theorem precedence_lt_ceiling (op : Operator) : op.precedence < ceiling := by
  cases op <;> decide

theorem leftPrecedence_le_ceiling (op : Operator) : op.leftPrecedence ≤ ceiling := by
  cases op <;> decide

theorem precedence_le_leftPrecedence (op : Operator) : op.precedence ≤ op.leftPrecedence := by
  cases op <;> decide

theorem precedence_le_rightPrecedence (op : Operator) : op.precedence ≤ op.rightPrecedence := by
  cases op <;> decide

/-- Whether one operator ends the right side of another, and whether it takes the other as its left
side, is the same question: operators of one precedence group on the same side. -/
theorem leftPrecedence_le_iff (op other : Operator) :
    op.leftPrecedence ≤ other.precedence ↔ op.precedence < other.rightPrecedence := by
  cases op <;> cases other <;> decide

end Operator

namespace Grammar

variable {imported : List String} {inner : Level}

/-- The operators of at least a precedence after a left side, each with its right side. The first
of them binds less tightly than `ceiling` says, and each other one too loosely to belong to the
right side before it. -/
inductive Links (inner : Level) (least : Nat) : Nat → Expr → Phrase Expr
  | nil {ceiling : Nat} {e : Expr} : Links inner least ceiling e [] e
  | cons {ceiling : Nat} {t : Token} {op : Operator} {p q : List Token} {left right e : Expr} :
    t.kind = .operator op → least ≤ op.precedence → op.precedence < ceiling →
    inner.climb op.rightPrecedence p right →
    Links inner least op.rightPrecedence (.apply op.callee [left, right]) q e →
    Links inner least ceiling left (t :: p ++ q) e

theorem Binary.weaken {least least' : Nat} {p : List Token} {e : Expr} (h : least' ≤ least)
    (hp : Binary imported inner least p e) : Binary imported inner least' p e := by
  cases hp with
  | operand ho => exact .operand ho
  | operator ht hle hl hr => exact .operator ht (Nat.le_trans h hle) hl hr

/-- A tree and the operators after it make a tree. -/
theorem Links.binary {least ceiling tight : Nat} {left e : Expr} {p q : List Token}
    (hq : Links inner least ceiling left q e) (hleast : least ≤ tight)
    (hceiling : ∀ op : Operator, op.precedence < ceiling → op.leftPrecedence ≤ tight)
    (hp : Binary imported inner tight p left) : Binary imported inner least (p ++ q) e := by
  induction hq generalizing p tight with
  | nil =>
    rw [List.append_nil]
    exact hp.weaken hleast
  | @cons ceiling t op p₁ q₁ left right e ht hle hlt hr _ ih =>
    have node : Binary imported inner op.precedence (p ++ t :: p₁)
        (.apply op.callee [left, right]) :=
      .operator ht (Nat.le_refl _) (hp.weaken (hceiling op hlt)) hr
    have whole := ih hle (fun other h => (other.leftPrecedence_le_iff op).mpr h) node
    simpa only [List.append_assoc, List.cons_append] using whole

/-- One more operator, which binds no more tightly than those before it. -/
theorem Links.snoc {least tight ceiling : Nat} {first left right : Expr} {p q : List Token}
    {t : Token} {op : Operator} (hp : Links inner tight ceiling first p left)
    (ht : t.kind = .operator op) (hleast : least ≤ op.precedence)
    (htight : op.leftPrecedence ≤ tight) (hlt : op.precedence < ceiling)
    (hq : inner.climb op.rightPrecedence q right) :
    Links inner least ceiling first (p ++ t :: q) (.apply op.callee [left, right]) := by
  induction hp with
  | @nil ceiling e =>
    have one : Links inner least ceiling e (t :: q ++ []) (.apply op.callee [e, right]) :=
      .cons ht hleast hlt hq .nil
    simpa only [List.append_nil, List.nil_append] using one
  | @cons ceiling u other p₁ q₁ first' right' e hu hle hlt' hr _ ih =>
    have loose : op.leftPrecedence ≤ other.precedence := Nat.le_trans htight hle
    have more := ih ((op.leftPrecedence_le_iff other).mp loose)
    have low : least ≤ other.precedence :=
      Nat.le_trans hleast (Nat.le_trans op.precedence_le_leftPrecedence loose)
    have all := Links.cons hu low hlt' hr more
    simpa only [List.append_assoc, List.cons_append] using all

theorem binary_iff_links {least : Nat} {p : List Token} {e : Expr} :
    Binary imported inner least p e ↔
      ∃ q r first, p = q ++ r ∧ Operand imported inner q first ∧
        Links inner least Operator.ceiling first r e := by
  constructor
  · intro h
    induction h with
    | operand ho => exact ⟨_, [], _, (List.append_nil _).symm, ho, .nil⟩
    | @operator least t op p q left right ht hle _ hr ih =>
      obtain ⟨p₀, r, first, rfl, ho, hl⟩ := ih
      refine ⟨p₀, r ++ t :: q, first, List.append_assoc .., ho, ?_⟩
      exact hl.snoc ht hle (Nat.le_refl _) op.precedence_lt_ceiling hr
  · intro hlinks
    obtain ⟨q, r, first, rfl, ho, hl⟩ := hlinks
    refine hl.binary (Nat.le_max_left least Operator.ceiling) (fun op _ => ?_) (.operand ho)
    exact Nat.le_trans op.leftPrecedence_le_ceiling (Nat.le_max_right _ _)

end Grammar

end SchemaLang
