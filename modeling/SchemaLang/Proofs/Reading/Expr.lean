import SchemaLang.Expr.Reader
import SchemaLang.Proofs.Reading.Basic

namespace SchemaLang.Reader

open Reading

theorem reading_fieldName :
    reading fieldName = take .expectedField fun t =>
      if t.isWord then .ok (pure t.raw) else .error .expectedField := by
  funext ts
  cases ts with
  | nil => rfl
  | cons t rest =>
    by_cases h : t.isWord
    · simp only [reading, fieldName, take, if_pos h]
      rfl
    · simp only [reading, fieldName, take, if_neg h]
      rfl

theorem reading_fieldNames :
    reading fieldNames = ifNext (.mark .dot) (fun _ => do
      let name ← reading fieldName
      let names ← reading fieldNames
      pure (name :: names)) (pure []) := by
  funext ts
  rw [reading, fieldNames]
  cases ts with
  | nil => rfl
  | cons t rest =>
    by_cases h : t.kind = .mark .dot
    · simp only [accept?, ifNext, if_pos h]
      apply reading_bind
      intro p
      exact reading_bind fun q => rfl
    · simp only [accept?, ifNext, if_neg h]
      rfl

theorem reading_inputPath :
    reading inputPath = ifNext (.mark .dot) (fun _ => do
      let name ← reading fieldName
      let names ← reading fieldNames
      pure (if names.isEmpty then .input name else .inputPath (name :: names)))
      (refuse .missingDot) := by
  funext ts
  rw [reading, inputPath]
  cases ts with
  | nil => rfl
  | cons t rest =>
    by_cases h : t.kind = .mark .dot
    · simp only [accept?, ifNext, if_pos h]
      apply reading_bind
      intro p
      exact reading_bind fun q => rfl
    · simp only [accept?, ifNext, if_neg h]
      rfl

theorem reading_keyedArgument (inner : Level) (earlier : List String) :
    reading (keyedArgument inner earlier) = take .expectedExpression fun t =>
      if t.raw ∈ earlier then .error .duplicateKey
      else .ok (do
        let value ← reading inner.expression
        pure (t.raw, value)) := by
  funext ts
  cases ts with
  | nil => rfl
  | cons t rest =>
    by_cases h : t.raw ∈ earlier
    · simp only [reading, keyedArgument, take, if_pos h]
      rfl
    · simp only [reading, keyedArgument, take, if_neg h]
      exact reading_bind fun p => rfl

def Argument.keys (args : List Argument) : List String :=
  (args.filterMap Argument.keyed?).map Prod.fst

theorem reading_argument (inner : Level) (earlier : List Argument) :
    reading (argument inner earlier) = (do
      let kind ← look firstKind
      if kind = .label then do
        let q ← reading (keyedArgument inner (Argument.keys earlier))
        pure (.keyed q.1 q.2)
      else if !(Argument.keys earlier).isEmpty then refuse .positionalAfterKey
      else do
        let value ← reading inner.expression
        pure (.positional value)) := by
  funext ts
  rw [look_bind, reading, argument]
  by_cases h : firstKind ts = .label
  · simp only [if_pos h]
    exact reading_bind fun p => rfl
  · simp only [if_neg h]
    unfold Argument.keys
    by_cases hk : (!((earlier.filterMap Argument.keyed?).map Prod.fst).isEmpty) = true
    · simp only [if_pos hk]
      rfl
    · simp only [if_neg hk]
      exact reading_bind fun p => rfl

theorem reading_importArgument (inner : Level) (function : String)
    (earlier : List (String × Expr)) :
    reading (importArgument inner function earlier) = (do
      let kind ← look firstKind
      if kind = .label then reading (keyedArgument inner (earlier.map Prod.fst))
      else refuse (.keysOnly function)) := by
  funext ts
  rw [look_bind, reading, importArgument]
  by_cases h : firstKind ts = .label
  · simp only [if_pos h]
    rfl
  · simp only [if_neg h]
    rfl

theorem reading_named (imported : List String) (inner : Level) (name : String) :
    reading (named imported inner name) = ifNext (.mark .leftParen) (fun _ =>
      if name = "ref" then do
        let target ← reading symbol
        let _ ← reading (expect (.mark .rightParen))
        pure (.reference target)
      else if name ∈ imported then do
        let args ← reading (separated (.mark .rightParen) (importArgument inner name) [])
        pure (.importCall name args)
      else do
        let args ← reading (arguments inner)
        pure (Argument.call name args)) (pure (.reference name)) := by
  funext ts
  rw [reading, named]
  cases ts with
  | nil => rfl
  | cons t rest =>
    by_cases h : t.kind = .mark .leftParen
    · simp only [accept?, ifNext, if_pos h]
      split
      · apply reading_bind
        intro p
        exact reading_bind fun q => rfl
      · split
        · exact reading_bind fun p => rfl
        · exact reading_bind fun p => rfl
    · simp only [accept?, ifNext, if_neg h]
      rfl

theorem reading_functionCall (inner : Level) :
    reading (functionCall inner) = (do
      let _ ← reading (expect (.mark .leftParen))
      let function ← reading symbol
      ifNext (.mark .comma) (fun _ => do
        let args ← reading (arguments inner)
        pure (Argument.call function args)) (do
        let _ ← reading (expect (.mark .rightParen))
        pure (.apply function []))) := by
  funext ts
  rw [reading, functionCall]
  apply reading_bind
  intro p
  apply reading_bind
  intro q
  obtain ⟨function, rest, _⟩ := q
  cases rest with
  | nil => exact reading_bind fun p => rfl
  | cons t rest =>
    by_cases h : t.kind = .mark .comma
    · simp only [accept?, ifNext, if_pos h]
      exact reading_bind fun p => rfl
    · simp only [accept?, ifNext, if_neg h]
      exact reading_bind fun p => rfl

/-- The arrow that must follow a key that is no label. -/
def arrowAfter (key : Token) (value : Literal) : Reading Literal :=
  ifNext (.mark .arrow) (fun _ => pure value) (refuse (.missingArrow key))

theorem reading_hashKey :
    reading hashKey = take .expectedHashKey fun t =>
      match t.kind with
      | .label => .ok (pure (.symbol t.raw))
      | .string => .ok (arrowAfter t (.string t.raw))
      | .symbol => .ok (arrowAfter t (.symbol t.raw))
      | _ => .error .expectedHashKey := by
  funext ts
  rcases ts with - | ⟨t, - | ⟨u, rest⟩⟩
  · rfl
  · rw [reading, hashKey]
    split
    · next h => simp only [take, h]; rfl
    · next h => simp only [take, h]; rfl
    · next h => simp only [take, h]; rfl
    · simp only [take, *]; rfl
  · by_cases hu : u.kind = .mark .arrow
    · have after (key : Literal) : arrowAfter t key (u :: rest) = .ok (key, rest) :=
        ifNext_of_eq hu rest
      rw [reading, hashKey]
      simp only [accept?, if_pos hu]
      split
      · next h => simp only [take, h]; rfl
      · next h => simp only [take, h, after]; rfl
      · next h => simp only [take, h, after]; rfl
      · simp only [take, *]; rfl
    · have after (key : Literal) :
          arrowAfter t key (u :: rest) = .error ⟨some u, .missingArrow t⟩ :=
        ifNext_of_ne hu
      rw [reading, hashKey]
      simp only [accept?, if_neg hu]
      split
      · next h => simp only [take, h]; rfl
      · next h => simp only [take, h, after]; rfl
      · next h => simp only [take, h, after]; rfl
      · simp only [take, *]; rfl

theorem reading_hashPair (inner : Level) :
    reading (hashPair inner) = (do
      let key ← reading hashKey
      let value ← reading inner.expression
      pure (key, value)) := by
  funext ts
  apply reading_bind
  intro p
  exact reading_bind fun q => rfl

/-- What follows the token that starts an operand. -/
def primaryStep (imported : List String) (inner : Level) (t : Token) :
    Except Cause (Reading Expr) :=
  match t.kind with
  | .integer => intStep t .int
  | .float => floatStep t .float
  | .string => .ok (pure (.string t.raw))
  | .boolean => .ok (pure (.boolean (t.raw = "true")))
  | .symbol => .ok (pure (.symbol t.raw))
  | .constant =>
    if t.raw = "Float::INFINITY" then .ok (pure (.float (1.0 / 0.0))) else .error .unknownConstant
  | .operator .subtract => .ok do
    let e ← reading inner.negated
    pure (.apply "subtract" [.int 0, e])
  | .keyword .input => .ok (reading inputPath)
  | .identifier => .ok (reading (named imported inner t.raw))
  | .keyword .fn => .ok (reading (functionCall inner))
  | .type .index => .ok <| ifNext (.mark .leftParen) (fun _ => do
      let name ← reading symbol
      let _ ← reading (expect (.mark .rightParen))
      pure (.index name)) (refuseAt (some t) .expectedExpression)
  | .mark .leftParen => .ok do
    let e ← reading inner.expression
    let _ ← reading (expect (.mark .rightParen))
    pure e
  | .mark .leftBracket => .ok do
    let es ← reading (separated (.mark .rightBracket) (fun _ => inner.expression) [])
    pure (.array es)
  | .mark .leftBrace => .ok do
    let pairs ← reading (separated (.mark .rightBrace) (fun _ => hashPair inner) [])
    pure (.hash pairs)
  | _ => .error .expectedExpression

theorem reading_primary (imported : List String) (inner : Level) :
    reading (primary imported inner) = take .expectedExpression (primaryStep imported inner) := by
  funext ts
  cases ts with
  | nil => rfl
  | cons t rest =>
    rw [reading, primary, take]
    split
    · next h =>
      simp only [primaryStep, h, intValue, intStep]
      cases Decimal.readInt64? (digits t) <;> rfl
    · next h =>
      simp only [primaryStep, h, floatValue, floatStep]
      cases Decimal.readFloat? (digits t) <;> rfl
    · next h => simp only [primaryStep, h]; rfl
    · next h => simp only [primaryStep, h]; rfl
    · next h => simp only [primaryStep, h]; rfl
    · next h =>
      by_cases hc : t.raw = "Float::INFINITY"
      · simp only [primaryStep, h, if_pos hc]; rfl
      · simp only [primaryStep, h, if_neg hc]; rfl
    · next h => simp only [primaryStep, h]; exact reading_bind fun p => rfl
    · next h => simp only [primaryStep, h]; exact reading_last fun p => rfl
    · next h => simp only [primaryStep, h]; exact reading_last fun p => rfl
    · next h => simp only [primaryStep, h]; exact reading_last fun p => rfl
    · next h =>
      simp only [primaryStep, h]
      cases rest with
      | nil => rfl
      | cons u rest =>
        by_cases hu : u.kind = .mark .leftParen
        · simp only [accept?, ifNext, if_pos hu]
          apply reading_bind
          intro p
          exact reading_bind fun q => rfl
        · simp only [accept?, ifNext, if_neg hu]
          rfl
    · next h =>
      simp only [primaryStep, h]
      apply reading_bind
      intro p
      exact reading_bind fun q => rfl
    · next h => simp only [primaryStep, h]; exact reading_bind fun p => rfl
    · next h => simp only [primaryStep, h]; exact reading_bind fun p => rfl
    · simp only [primaryStep, *]; rfl

theorem reading_indices (inner : Level) (e : Expr) :
    reading (indices inner e) = ifNext (.mark .leftBracket) (fun _ => do
      let i ← reading inner.expression
      let _ ← reading (expect (.mark .rightBracket))
      reading (indices inner (.apply "at" [e, i]))) (pure e) := by
  funext ts
  rw [reading, indices]
  cases ts with
  | nil => rfl
  | cons t rest =>
    by_cases h : t.kind = .mark .leftBracket
    · simp only [accept?, ifNext, if_pos h]
      apply reading_bind
      intro p
      apply reading_bind
      intro q
      exact reading_last fun r => rfl
    · simp only [accept?, ifNext, if_neg h]
      rfl

theorem reading_operand (imported : List String) (inner : Level) :
    reading (operand imported inner) = (do
      let e ← reading (primary imported inner)
      reading (indices inner e)) := by
  funext ts
  apply reading_bind
  intro p
  exact reading_last fun q => rfl

/-- What follows a minus: its operand, and indices that may be left. -/
theorem reading_operand_of_minus {imported : List String} {inner : Level} {t : Token}
    (ht : t.kind = .operator .subtract) (rest : List Token) :
    reading (operand imported inner) (t :: rest) = (do
      let e ← reading inner.negated
      reading (indices inner (.apply "subtract" [.int 0, e]))) rest := by
  rw [reading_operand, bind_apply, reading_primary]
  simp only [take, primaryStep, ht, bind_apply]
  cases reading inner.negated rest <;> rfl

theorem reading_chain_of_operator (inner : Level) (least : Nat) (left : Expr) {t : Token}
    {op : Operator} (ht : t.kind = .operator op) (rest : List Token) :
    reading (chain inner least left) (t :: rest) =
      if op.precedence < least then .ok (left, t :: rest)
      else (do
        let right ← reading (inner.climb op.rightPrecedence)
        reading (chain inner least (.apply op.function [left, right]))) rest := by
  rw [reading, chain]
  simp only [ht]
  split
  · rfl
  · apply reading_bind
    intro p
    exact reading_last fun q => rfl

theorem reading_chain_of_ne (inner : Level) (least : Nat) (left : Expr) {ts : List Token}
    (h : ∀ op, firstKind ts ≠ .operator op) :
    reading (chain inner least left) ts = .ok (left, ts) := by
  rw [reading]
  cases ts with
  | nil => rw [chain]; rfl
  | cons t rest =>
    rw [chain]
    split
    · next op ht => exact absurd ht (h op)
    · rfl

/-- Whether a kind is an operator that binds less tightly than `ceiling` says, or no operator. -/
def Below (ceiling : Nat) (kind : Kind) : Prop :=
  ∀ op : Operator, kind = .operator op → op.precedence < ceiling

theorem exists_of_not_below {ceiling : Nat} {ts : List Token}
    (h : ¬Below ceiling (firstKind ts)) :
    ∃ t rest op, ts = t :: rest ∧ t.kind = .operator op ∧ ceiling ≤ op.precedence := by
  rw [Below, Classical.not_forall] at h
  obtain ⟨op, h⟩ := h
  obtain ⟨hk, hlt⟩ := Classical.not_imp.mp h
  cases ts with
  | nil => cases hk
  | cons t rest => exact ⟨t, rest, op, rfl, hk, Nat.not_lt.mp hlt⟩

/-- A chain ends where no operator of at least its precedence stands. -/
theorem reading_chain_of_below {inner : Level} {least : Nat} {left : Expr} {ts : List Token}
    (h : Below least (firstKind ts)) : reading (chain inner least left) ts = .ok (left, ts) := by
  by_cases hop : ∃ op, firstKind ts = .operator op
  · obtain ⟨op, ht⟩ := hop
    cases ts with
    | nil => cases ht
    | cons t rest => rw [reading_chain_of_operator inner least left ht, if_pos (h op ht)]
  · exact reading_chain_of_ne inner least left fun op ht => hop ⟨op, ht⟩

/-- A chain goes on where an operator of at least its precedence stands. -/
theorem reading_chain_of_tight {inner : Level} {least : Nat} {left : Expr} {t : Token}
    {op : Operator} (ht : t.kind = .operator op) (hle : least ≤ op.precedence)
    (rest : List Token) :
    reading (chain inner least left) (t :: rest) = (do
      let right ← reading (inner.climb op.rightPrecedence)
      reading (chain inner least (.apply op.function [left, right]))) rest := by
  rw [reading_chain_of_operator inner least left ht, if_neg (Nat.not_lt.mpr hle)]

theorem reading_climb (imported : List String) (inner : Level) (least : Nat) :
    reading (climb imported inner least) = (do
      let left ← reading (operand imported inner)
      let e ← reading (chain inner least left)
      let signed ← look startsWithSigned
      if signed then refuse .foldedMinus else pure e) := by
  funext ts
  apply reading_bind
  intro p
  apply reading_bind
  intro q
  obtain ⟨e, rest, _⟩ := q
  rw [look_bind]
  by_cases hs : startsWithSigned rest = true
  · simp only [if_pos hs]
    rfl
  · simp only [if_neg hs]
    rfl

end SchemaLang.Reader
