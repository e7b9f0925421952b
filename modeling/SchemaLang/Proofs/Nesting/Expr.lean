import SchemaLang.Proofs.Nesting.Run

namespace SchemaLang.Reader

open Reading

variable {α : Type} {limit depth : Nat}

structure Level.Follows (limit depth : Nat) (imported : List String) (inner : Level) : Prop where
  climb : ∀ least ts, Reader.Follows limit depth (.enter .expression (.climb imported least))
    (reading (inner.climb least)) ts
  negated : ∀ ts, Reader.Follows limit depth (.enter .expression (.operand imported))
    (reading inner.negated) ts

/-- What may follow a token and opens no level. -/
theorem StepFollows.read {rest : List Token} {step : Except Cause (Reading α)}
    (h : StepShallow rest step) : StepFollows limit depth rest (step.map .read) step := by
  cases h with
  | error hcause => exact .error hcause
  | ok hx => exact .ok (.read hx)

/-- Items that follow their plans one by one do so as a list. -/
theorem items_follow {imported : List String} (kind : Item α) {item : List α → Reader α}
    (h : ∀ earlier ts,
      Follows limit depth (.item imported kind earlier) (reading (item earlier)) ts)
    (earlier : List α) (ts : List Token) :
    Follows limit depth (.call (.items imported kind earlier))
      (reading (separated kind.close item earlier)) ts := by
  induction hn : ts.length using Nat.strongRecOn generalizing earlier ts with
  | ind n ih =>
    rw [reading_separated]
    refine .call (.look ?_)
    split
    · exact (Follows.read (expect_shallow _ ts)).map
    · apply (h earlier ts).bind
      intro a rest hread
      have shorter := reading_length hread
      refine .ifNext (fun t more hmore => ?_) (Follows.read (expect_shallow _ rest)).map
      exact ih more.length (by simp [hmore] at shorter; omega) (a :: earlier) more rfl

theorem chainStep_of_below {imported : List String} {least : Nat} {left : Expr} {kind : Kind}
    (h : Below least kind) : Plan.chainStep imported least left kind = pure left := by
  cases kind with
  | operator op => exact if_pos (h op rfl)
  | _ => rfl

theorem chainStep_of_tight {imported : List String} {least : Nat} {left : Expr} {op : Operator}
    (h : least ≤ op.precedence) :
    Plan.chainStep imported least left (.operator op) = (do
      let _ ← Plan.skip
      let right ← Plan.enter .expression (.climb imported op.rightPrecedence)
      Plan.call (.chain imported least (.apply op.function [left, right]))) :=
  if_neg (Nat.not_lt.mpr h)

section Expressions

variable {imported : List String} {inner : Level} (h : inner.Follows limit depth imported)

include h

theorem expression_follows (ts : List Token) :
    Follows limit depth (.expression imported) (reading inner.expression) ts := h.climb 0 ts

theorem keyedArgument_follows (earlier : List String) (ts : List Token) :
    Follows limit depth (.keyedArgument imported earlier) (reading (keyedArgument inner earlier))
      ts := by
  rw [reading_keyedArgument]
  refine .take rfl fun t rest _ => ?_
  split
  · exact .error rfl
  · exact .ok (expression_follows h rest).map

theorem argument_follows (earlier : List Argument) (ts : List Token) :
    Follows limit depth (.argument imported earlier) (reading (argument inner earlier)) ts := by
  rw [reading_argument]
  refine .look ?_
  split
  · exact (keyedArgument_follows h _ ts).map
  · split
    · exact .refuse rfl
    · exact (expression_follows h ts).map

theorem importArgument_follows (function : String) (earlier : List (String × Expr))
    (ts : List Token) :
    Follows limit depth (.importArgument imported function earlier)
      (reading (importArgument inner function earlier)) ts := by
  rw [reading_importArgument]
  refine .look ?_
  split
  · exact keyedArgument_follows h _ ts
  · exact .refuse rfl

theorem hashPair_follows (ts : List Token) :
    Follows limit depth (.hashPair imported) (reading (hashPair inner)) ts := by
  rw [reading_hashPair]
  apply (Follows.read (hashKey_shallow ts)).bind
  intro key rest _
  exact (expression_follows h rest).map

theorem named_follows (name : String) (ts : List Token) :
    Follows limit depth (.named imported name) (reading (named imported inner name)) ts := by
  rw [reading_named]
  refine .ifNext (fun t rest _ => ?_) (.pure _)
  split
  · apply (Follows.read (symbol_shallow rest)).bind
    intro target rest _
    exact (Follows.read (expect_shallow _ rest)).map
  · split
    · exact (items_follow (.importArgument name) (importArgument_follows h name) [] rest).map
    · exact (items_follow .argument (argument_follows h) [] rest).map

theorem functionCall_follows (ts : List Token) :
    Follows limit depth (.functionCall imported) (reading (functionCall inner)) ts := by
  rw [reading_functionCall]
  apply (Follows.read (expect_shallow _ ts)).bind
  intro _ rest _
  apply (Follows.read (symbol_shallow rest)).bind
  intro function rest _
  refine .ifNext (fun t rest _ => ?_) (Follows.read (expect_shallow _ rest)).map
  exact (items_follow .argument (argument_follows h) [] rest).map

theorem primaryStep_follows (t : Token) (rest : List Token) :
    StepFollows limit depth rest (Plan.primaryStep imported t) (primaryStep imported inner t) := by
  unfold Plan.primaryStep
  split <;> simp only [primaryStep, *]
  · exact .read (intStep_shallow t _ rest)
  · exact .read (floatStep_shallow t _ rest)
  · exact .ok (.pure _)
  · exact .ok (.pure _)
  · exact .ok (.pure _)
  · split
    · exact .ok (.pure _)
    · exact .error rfl
  · exact .ok (h.negated rest).map
  · exact .ok (.read (inputPath_shallow rest))
  · exact .ok (named_follows h _ rest)
  · exact .ok (functionCall_follows h rest)
  · refine .ok (.ifNext (fun _ rest _ => ?_) (.read (.refuseAt rfl)))
    apply (Follows.read (symbol_shallow rest)).bind
    intro name rest _
    exact (Follows.read (expect_shallow _ rest)).map
  · refine .ok ((expression_follows h rest).bind fun e rest _ => ?_)
    exact (Follows.read (expect_shallow _ rest)).map
  · exact .ok (items_follow .element (fun _ => expression_follows h) [] rest).map
  · exact .ok (items_follow .pair (fun _ => hashPair_follows h) [] rest).map
  · exact .error rfl

theorem indices_follow (e : Expr) (ts : List Token) :
    Follows limit depth (.call (.indices imported e)) (reading (indices inner e)) ts := by
  induction hn : ts.length using Nat.strongRecOn generalizing e ts with
  | ind n ih =>
    rw [reading_indices]
    refine .call (.ifNext (fun t rest hts => ?_) (.pure _))
    apply (expression_follows h rest).bind
    intro i mid hread
    have first := reading_length hread
    apply (Follows.read (expect_shallow _ mid)).bind
    intro _ more hclose
    have second := reading_length hclose
    exact ih more.length (by simp [hts] at hn; omega) _ more rfl

theorem operand_follows (ts : List Token) :
    Follows limit depth (.operand imported) (reading (operand imported inner)) ts := by
  rw [reading_operand, reading_primary]
  have primary : Follows limit depth (.take .expectedExpression (Plan.primaryStep imported))
      (take .expectedExpression (primaryStep imported inner)) ts :=
    .take rfl fun t rest _ => primaryStep_follows h t rest
  exact primary.bind fun e rest _ => indices_follow h e rest

theorem chain_follows (least : Nat) (left : Expr) (ts : List Token) :
    Follows limit depth (.call (.chain imported least left)) (reading (chain inner least left))
      ts := by
  induction hn : ts.length using Nat.strongRecOn generalizing left ts with
  | ind n ih =>
    by_cases hbelow : Below least (firstKind ts)
    · refine ⟨depth, .call (.look ?_)⟩
      rw [chainStep_of_below hbelow, reading_chain_of_below hbelow]
      exact .read (.pure left) rfl
    · obtain ⟨t, rest, op, rfl, ht, hle⟩ := exists_of_not_below hbelow
      have next := (h.climb op.rightPrecedence rest).bind fun right more hread =>
        ih more.length (by have := reading_length hread; simp at hn; omega)
          (.apply op.function [left, right]) more rfl
      obtain ⟨peak, hrun⟩ := next.skip (t := t)
      refine ⟨peak, .call (.look ?_)⟩
      rw [reading_chain_of_tight ht hle, show firstKind (t :: rest) = .operator op from ht,
        chainStep_of_tight hle]
      exact hrun

theorem climb_follows (least : Nat) (ts : List Token) :
    Follows limit depth (.climb imported least) (reading (climb imported inner least)) ts := by
  rw [reading_climb]
  apply (operand_follows h ts).bind
  intro left rest _
  apply (chain_follows h least left rest).bind
  intro e rest _
  refine .look ?_
  split
  · exact .refuse rfl
  · exact .pure e

end Expressions

/-- With the rest of the limit left, expressions follow their plans. -/
theorem levels_follow (imported : List String) {room : Nat} (hroom : depth + room = limit) :
    (levels imported room).Follows limit depth imported := by
  induction room generalizing depth with
  | zero =>
    have all : limit ≤ depth := Nat.le_of_eq hroom.symm
    exact ⟨fun _ _ => .full all, fun _ => .full all⟩
  | succ room ih =>
    have inner : (levels imported room).Follows limit (depth + 1) imported := ih (by omega)
    have left : depth < limit := by omega
    exact ⟨fun least ts => .enter left (climb_follows inner least ts),
      fun ts => .enter left (operand_follows inner ts)⟩

end SchemaLang.Reader
