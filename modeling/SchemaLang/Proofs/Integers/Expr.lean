import SchemaLang.Proofs.Integers.Fate

namespace SchemaLang.Reader

open Reading

variable {gap : Gap} {front : List Token}

theorem fieldName_fate : Fate gap (reading fieldName) front := by
  rw [reading_fieldName]
  refine .take .expectedField nofun (fun u hu => ?_) fun t rest _ => ?_
  · rw [isWord_of_integer hu]
    rfl
  · exact .ite (.ok (.pure t.raw)) .error

theorem fieldNames_fate : Fate gap (reading fieldNames) front := by
  induction hn : front.length using Nat.strongRecOn generalizing front with
  | ind n ih =>
    rw [reading_fieldNames]
    refine .ifNext nofun (fun t rest hfront => ?_) (.pure [])
    apply fieldName_fate.bind
    intro name mid hread
    obtain ⟨u, _, shorter⟩ := length_lt_of_fill hread
    exact (ih mid.length (by simp [hfront] at hn shorter; omega) rfl).map

theorem inputPath_fate : Fate gap (reading inputPath) front := by
  rw [reading_inputPath]
  refine .ifNext nofun (fun t rest _ => ?_) (.refuse nofun)
  apply fieldName_fate.bind
  intro name mid _
  exact fieldNames_fate.map

theorem hashKey_fate : Fate gap (reading hashKey) front := by
  have arrow (key : Token) (value : Literal) (front : List Token) :
      Fate gap (arrowAfter key value) front :=
    .ifNext nofun (fun _ _ _ => .pure value) (.refuse nofun)
  rw [reading_hashKey]
  refine .take .expectedHashKey nofun (fun u hu => by simp only [hu]) fun t rest _ => ?_
  split
  · exact .ok (.pure _)
  · exact .ok (arrow t _ rest)
  · exact .ok (arrow t _ rest)
  · exact .error

structure Level.Fate (gap : Gap) (inner : Level) : Prop where
  climb : ∀ least front, Reader.Fate gap (reading (inner.climb least)) front
  negated : ∀ front, Reader.Fate gap (reading inner.negated) front

section Levels

variable {imported : List String} {inner : Level} (h : inner.Fate gap)

include h

theorem expression_fate : Fate gap (reading inner.expression) front := h.climb 0 front

/-- A key is no integer, so one that is refused stands before the integer. -/
theorem keyedArgument_fate (earlier : List String) (hlabel : gapKind front = .label) :
    Fate gap (reading (keyedArgument inner earlier)) front := by
  rw [reading_keyedArgument]
  cases front with
  | nil => cases hlabel
  | cons t rest => exact .step (.ite .error (.ok (expression_fate h).map))

theorem argument_fate (earlier : List Argument) (front : List Token) :
    Fate gap (reading (argument inner earlier)) front := by
  rw [reading_argument]
  refine .lookKind ?_
  split
  · next hlabel => exact (keyedArgument_fate h _ hlabel).map
  · split
    · exact .refuse nofun
    · exact (expression_fate h).map

theorem arguments_fate : Fate gap (reading (arguments inner)) front :=
  separated_fate (by decide) (argument_fate h) []

theorem importArgument_fate (function : String) (earlier : List (String × Expr))
    (front : List Token) : Fate gap (reading (importArgument inner function earlier)) front := by
  rw [reading_importArgument]
  refine .lookKind ?_
  split
  · next hlabel => exact keyedArgument_fate h _ hlabel
  · exact .refuse nofun

theorem named_fate (name : String) : Fate gap (reading (named imported inner name)) front := by
  rw [reading_named]
  refine .ifNext nofun (fun t rest _ => ?_) (.pure _)
  split
  · apply symbol_fate.bind
    intro target mid _
    exact close_fate (by decide) _
  · split
    · exact (separated_fate (by decide) (importArgument_fate h name) []).map
    · exact (arguments_fate h).map

theorem functionCall_fate : Fate gap (reading (functionCall inner)) front := by
  rw [reading_functionCall]
  apply (expect_fate (by decide)).bind
  intro _ mid _
  apply symbol_fate.bind
  intro function mid _
  exact .ifNext nofun (fun _ _ _ => (arguments_fate h).map) (close_fate (by decide) _)

theorem hashPair_fate (front : List Token) : Fate gap (reading (hashPair inner)) front := by
  rw [reading_hashPair]
  apply hashKey_fate.bind
  intro key mid _
  exact (expression_fate h).map

theorem primaryStep_fate (t : Token) : StepFate gap front (primaryStep imported inner t) := by
  unfold primaryStep
  split
  · exact .int t _
  · exact .float t _
  · exact .ok (.pure _)
  · exact .ok (.pure _)
  · exact .ok (.pure _)
  · exact .ite (.ok (.pure _)) .error
  · exact .ok (h.negated front).map
  · exact .ok inputPath_fate
  · exact .ok (named_fate h _)
  · exact .ok (functionCall_fate h)
  · refine .ok (.ifNext nofun (fun _ _ _ => ?_) (.refuseAt _ _))
    exact symbol_fate.bind fun _ _ _ => close_fate (by decide) _
  · exact .ok ((expression_fate h).bind fun _ _ _ => close_fate (by decide) _)
  · exact .ok (separated_fate (by decide) (fun _ _ => expression_fate h) []).map
  · exact .ok (separated_fate (by decide) (fun _ => hashPair_fate h) []).map
  · exact .error

/-- An operand that starts with the integer reads it. -/
theorem primary_fate : Fate gap (reading (primary imported inner)) front := by
  cases front with
  | nil => exact .site (.operand imported inner)
  | cons t rest =>
    rw [reading_primary]
    exact .step (primaryStep_fate h t)

theorem indices_fate (e : Expr) : Fate gap (reading (indices inner e)) front := by
  induction hn : front.length using Nat.strongRecOn generalizing e front with
  | ind n ih =>
    rw [reading_indices]
    refine .ifNext nofun (fun t rest hfront => ?_) (.pure e)
    apply (expression_fate h).bind
    intro i mid hread
    obtain ⟨_, _, first⟩ := length_lt_of_fill hread
    apply (expect_fate (by decide)).bind
    intro _ more hclose
    obtain ⟨_, _, second⟩ := length_lt_of_fill hclose
    exact ih more.length (by simp [hfront] at hn first second; omega) _ rfl

theorem operand_fate (front : List Token) :
    Fate gap (reading (operand imported inner)) front := by
  rw [reading_operand]
  exact (primary_fate h).bind fun e _ _ => indices_fate h e

/-- A chain stops before an integer, which is no operator. -/
theorem chain_fate (least : Nat) (left : Expr) :
    Fate gap (reading (chain inner least left)) front := by
  induction hn : front.length using Nat.strongRecOn generalizing left front with
  | ind n ih =>
    by_cases hbelow : Below least (gapKind front)
    · refine .before left front fun u hu => reading_chain_of_below ?_
      rwa [firstKind_fill hu]
    · cases front with
      | nil => exact absurd (fun _ he => nomatch he) hbelow
      | cons t rest =>
        have tight : ¬Below least (firstKind (t :: rest)) := hbelow
        obtain ⟨_, _, op, hcons, ht, hle⟩ := exists_of_not_below tight
        cases hcons
        have next : Fate gap (do
            let right ← reading (inner.climb op.rightPrecedence)
            reading (chain inner least (.apply op.function [left, right]))) rest := by
          apply (h.climb _ rest).bind
          intro right mid hread
          obtain ⟨_, _, shorter⟩ := length_lt_of_fill hread
          exact ih mid.length (by simp at hn shorter; omega) _ rfl
        exact next.congr fun u _ => reading_chain_of_tight ht hle _

theorem climb_fate (least : Nat) (front : List Token) :
    Fate gap (reading (climb imported inner least)) front := by
  rw [reading_climb]
  apply (operand_fate h front).bind
  intro left mid _
  apply (chain_fate h least left).bind
  intro e mid _
  -- the sign is all that is looked at of an integer that follows
  have signed : ∃ b, ∀ u : Token, u.IsInteger gap.negative →
      startsWithSigned (gap.fill mid u) = b := by
    cases mid with
    | nil =>
      refine ⟨gap.negative, fun u hu => ?_⟩
      simp [startsWithSigned, hu.kind, hu.numeral.head?_eq_minus_iff]
    | cons t mid => exact ⟨startsWithSigned [t], fun _ _ => rfl⟩
  obtain ⟨b, hb⟩ := signed
  have next : Fate gap (if b then refuse .foldedMinus else pure e) mid := by
    split
    · exact .refuse (by simp)
    · exact .pure e
  exact next.congr fun u hu => by rw [look_bind, hb u hu]

end Levels

theorem levels_fate (imported : List String) (room : Nat) :
    (levels imported room).Fate gap := by
  induction room with
  | zero => exact ⟨fun _ _ => .refuse nofun, fun _ => .refuse nofun⟩
  | succ room ih => exact ⟨climb_fate ih, operand_fate ih⟩

end SchemaLang.Reader
