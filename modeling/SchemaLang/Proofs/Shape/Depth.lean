import SchemaLang.Proofs.RoundTrip
import SchemaLang.Proofs.Shape.Expr

namespace SchemaLang

namespace Expr

/-- At most `n` expressions stand one inside the other. -/
inductive DeepAtMost : Nat → Expr → Prop
  | mk {n : Nat} {e : Expr} : (∀ part ∈ e.parts, DeepAtMost n part) → DeepAtMost (n + 1) e

/-- The functions that operators and indices apply to what stands before them. -/
def linkFunctions : List String := "at" :: Operator.all.map Operator.function

/-- At most `n` expressions stand one inside the other, where what stands before an operator or an
index counts as being beside it. -/
inductive NestedAtMost : Nat → Expr → Prop
  | mk {n : Nat} {e : Expr} : (∀ part ∈ e.parts, NestedAtMost n part) → NestedAtMost (n + 1) e
  | link {n : Nat} {function : String} {before operand : Expr} : function ∈ linkFunctions →
    NestedAtMost (n + 1) before → NestedAtMost n operand →
    NestedAtMost (n + 1) (.apply function [before, operand])

/-- The operators and indices in a row that an expression ends in. -/
def links : Expr → Nat
  | .call function [before, _] [] => if function ∈ linkFunctions then links before + 1 else 0
  | _ => 0

theorem mem_linkFunctions (op : Operator) : op.callee ∈ linkFunctions := by
  cases op <;> decide

theorem links_apply {function : String} (h : function ∈ linkFunctions) (before operand : Expr) :
    (Expr.apply function [before, operand]).links = before.links + 1 := by
  rw [Expr.apply, links, if_pos h]

variable {e : Expr} {n : Nat}

theorem DeepAtMost.part (h : e.DeepAtMost (n + 1)) {part : Expr} (hpart : part ∈ e.parts) :
    part.DeepAtMost n := by
  cases h with
  | mk hparts => exact hparts part hpart

theorem NestedAtMost.succ (h : e.NestedAtMost n) : e.NestedAtMost (n + 1) := by
  induction h with
  | mk _ ih => exact .mk ih
  | link hfunction _ _ ihb iho => exact .link hfunction ihb iho

theorem NestedAtMost.part (h : e.NestedAtMost n) {part : Expr} (hpart : part ∈ e.parts) :
    part.NestedAtMost n := by
  cases h with
  | mk hparts => exact (hparts part hpart).succ
  | link _ hbefore hoperand =>
    simp only [apply, parts, List.map_nil, List.append_nil, List.mem_cons, List.not_mem_nil,
      or_false] at hpart
    rcases hpart with rfl | rfl
    · exact hbefore
    · exact hoperand.succ

theorem NestedAtMost.within {inner : Expr} (hinner : inner.Within e) (h : e.NestedAtMost n) :
    inner.NestedAtMost n := by
  induction hinner with
  | self => exact h
  | inside hpart _ ih => exact ih (h.part hpart)

/-- Each step further in costs one expression, and one more for each operator and index in a row. -/
theorem NestedAtMost.deepAtMost {k : Nat} (h : e.NestedAtMost n)
    (hlinks : ∀ inner : Expr, inner.Within e → inner.links ≤ k) :
    ∀ d, n * (k + 1) + e.links ≤ d + k → e.DeepAtMost d := by
  induction h with
  | @mk n e _ ih =>
    intro d hd
    rw [Nat.succ_mul] at hd
    obtain ⟨d, rfl⟩ : ∃ d', d = d' + 1 := ⟨d - 1, by omega⟩
    refine .mk fun part hpart => ih part hpart ?_ d ?_
    · exact fun inner hinner => hlinks inner (.inside hpart hinner)
    · have last := hlinks part (.inside hpart .self)
      omega
  | @link n function before operand hfunction _ _ ihb iho =>
    intro d hd
    rw [links_apply hfunction, Nat.succ_mul] at hd
    obtain ⟨d, rfl⟩ : ∃ d', d = d' + 1 := ⟨d - 1, by omega⟩
    have both : ∀ part ∈ [before, operand], ∀ inner : Expr, inner.Within part → inner.links ≤ k :=
      fun part hpart inner hinner =>
        hlinks inner (.inside (by simpa [apply, parts] using hpart) hinner)
    have last := both operand (by simp) operand .self
    have deepBefore := ihb (both before (by simp)) d (by rw [Nat.succ_mul]; omega)
    have deepOperand := iho (both operand (by simp)) d (by omega)
    refine .mk ?_
    simpa [apply, parts] using ⟨deepBefore, deepOperand⟩

end Expr

namespace Grammar

/-- Stands as a whole expression on a level. -/
def Level.Has (inner : Level) (e : Expr) : Prop := ∃ p, inner.expression p e

section Levels

variable {imported : List String} {inner : Level}

theorem Keyed.has (p : List Token) (o : String × Expr) (hp : Keyed inner p o) :
    inner.Has o.2 := by
  obtain ⟨_, hp⟩ := hp
  exact ⟨_, hp⟩

theorem Argument.has (p : List Token) (a : Reader.Argument) (ha : Argument inner p a) :
    inner.Has a.value := by
  cases ha with
  | positional hp => exact ⟨_, hp⟩
  | keyed hp => exact Keyed.has _ _ hp

theorem HashPair.has (p : List Token) (pair : Literal × Expr) (hp : HashPair inner p pair) :
    inner.Has pair.2 := by
  obtain ⟨_, hvalue⟩ := hp
  exact ⟨_, hvalue⟩

theorem Arguments.has {p : List Token} {args : List Expr} {opts : List (String × Expr)}
    (hp : Arguments inner p (args, opts)) (function : String) :
    ∀ part ∈ (Expr.call function args opts).parts, inner.Has part := by
  obtain ⟨hitems, _, _⟩ := hp
  have each := Items.forall_mem Argument.has hitems
  intro part hpart
  rcases List.mem_append.mp hpart with hmem | hmem
  · exact each (.positional part) (List.mem_append_left _ (List.mem_map.mpr ⟨part, hmem, rfl⟩))
  · obtain ⟨o, ho, rfl⟩ := List.mem_map.mp hmem
    exact each (.keyed o.1 o.2) (List.mem_append_right _ (List.mem_map.mpr ⟨o, ho, rfl⟩))

/-- An operand is one in parentheses, or its parts are expressions of the level further in. -/
theorem Primary.has {p : List Token} {e : Expr} (hp : Primary imported inner p e) :
    inner.Has e ∨ ∀ part ∈ e.parts, inner.Has part := by
  cases hp with
  | group _ hp _ => exact .inl ⟨_, hp⟩
  | importCall _ _ _ _ hargs _ _ =>
    have each := Items.forall_mem Keyed.has hargs
    exact .inr (List.forall_mem_map.mpr each)
  | call _ _ _ _ hargs => exact .inr (hargs.has _)
  | functionCall _ _ _ _ hargs => exact .inr (hargs.has _)
  | array _ hitems _ => exact .inr (Items.forall_mem (fun p _ hp => ⟨p, hp⟩) hitems)
  | hash _ hitems _ =>
    have each := Items.forall_mem HashPair.has hitems
    exact .inr (List.forall_mem_map.mpr each)
  | _ =>
    exact .inr (by simp [Expr.int, Expr.float, Expr.string, Expr.boolean, Expr.symbol, Expr.parts])

structure Level.NestedAtMost (n : Nat) (L : Level) : Prop where
  climb : ∀ least p e, L.climb least p e → e.NestedAtMost n
  negated : ∀ p e, L.negated p e → e.NestedAtMost n

variable {n : Nat} (h : inner.NestedAtMost n)

include h

theorem Primary.nestedAtMost {p : List Token} {e : Expr} (hp : Primary imported inner p e) :
    e.NestedAtMost (n + 1) := by
  rcases hp.has with ⟨q, hq⟩ | hparts
  · exact (h.climb 0 _ _ hq).succ
  · refine .mk fun part hpart => ?_
    obtain ⟨q, hq⟩ := hparts part hpart
    exact h.climb 0 _ _ hq

theorem Indices.nestedAtMost {e e' : Expr} {p : List Token} (hp : Indices inner e p e')
    (he : e.NestedAtMost (n + 1)) : e'.NestedAtMost (n + 1) := by
  induction hp with
  | nil => exact he
  | cons _ hi _ _ ih => exact ih (.link (by decide) he (h.climb 0 _ _ hi))

theorem Operand.nestedAtMost (p : List Token) (e : Expr) (hp : Operand imported inner p e) :
    e.NestedAtMost (n + 1) := by
  cases hp with
  | negation _ hp =>
    have operand := h.negated _ _ hp
    exact .link (Expr.mem_linkFunctions .subtract) (.mk (by simp [Expr.int, Expr.parts])) operand
  | mk hp hq => exact hq.nestedAtMost h (hp.nestedAtMost h)

theorem Binary.nestedAtMost (least : Nat) (p : List Token) (e : Expr)
    (hp : Binary imported inner least p e) : e.NestedAtMost (n + 1) := by
  induction hp with
  | operand hp => exact hp.nestedAtMost h
  | operator _ _ _ hq ih => exact .link (Expr.mem_linkFunctions _) ih (h.climb _ _ _ hq)

end Levels

theorem levels_nestedAtMost (imported : List String) (room : Nat) :
    (levels imported room).NestedAtMost room := by
  induction room with
  | zero => exact ⟨fun _ _ _ hp => hp.elim, fun _ _ hp => hp.elim⟩
  | succ room ih => exact ⟨Binary.nestedAtMost ih, Operand.nestedAtMost ih⟩

section Declarations

variable {expr : Phrase Expr} {n : Nat} (h : ∀ p e, expr p e → e.NestedAtMost n)

include h

theorem Condition.nestedAtMost (p : List Token) (e : Expr) (hp : Condition expr p e) :
    e.NestedAtMost n := by
  cases hp with
  | named hp =>
    cases h _ _ hp with
    | mk _ => exact .mk (by simp [Expr.parts])
  | plain hp _ => exact h _ _ hp

/-- The conditions of a case are one step further in than its result. -/
theorem Case.nestedAtMost (p : List Token) (c : Expr × Expr) (hp : Case expr p c) :
    c.1.NestedAtMost (n + 1) ∧ c.2.NestedAtMost (n + 1) := by
  cases hp with
  | on _ hconditions hresult =>
    have each := (hconditions.forall_mem (Condition.nestedAtMost h)).2
    refine ⟨.mk ?_, (h _ _ hresult).succ⟩
    simpa [Expr.apply, Expr.parts] using each
  | base _ hresult => exact ⟨.mk (by simp [Expr.boolean, Expr.parts]), (h _ _ hresult).succ⟩

theorem Body.nestedAtMost {p : List Token} {e : Expr} (hp : Body expr p e) :
    e.NestedAtMost (n + 2) := by
  cases hp with
  | expression _ hp => exact (h _ _ hp).succ.succ
  | cascade _ hcases _ =>
    have each := Many.forall_mem (Case.nestedAtMost h) hcases
    refine .mk (List.forall_mem_append.mpr ⟨?_, ?_⟩)
    · exact List.forall_mem_map.mpr fun c hc => (each c hc).1
    · exact List.forall_mem_map.mpr fun c hc => (each c hc).2

theorem Declaration.nestedAtMost (p : List Token) (d : Reader.Declaration)
    (hp : Declaration expr p d) :
    (∀ v ∈ d.value?, v.expression.NestedAtMost (n + 2)) ∧
      ∀ t ∈ d.trait?, t.expression.NestedAtMost (n + 2) := by
  cases hp with
  | value _ _ hbody =>
    refine ⟨fun v hv => ?_, fun t ht => by cases ht⟩
    cases hv
    exact hbody.nestedAtMost h
  | letValue _ _ hbody =>
    refine ⟨fun v hv => ?_, fun t ht => by cases ht⟩
    cases hv
    exact hbody.nestedAtMost h
  | trait _ _ _ hp =>
    refine ⟨fun v hv => (by cases hv), fun t ht => ?_⟩
    cases ht
    exact (h _ _ hp).succ.succ

end Declarations

/-- A cascade and the conditions of a case are two more steps than an expression can take. -/
theorem Schema.nestedAtMost {limit : Nat} {p : List Token} {s : SchemaLang.Schema}
    (h : Schema limit p s) {e : Expr} (he : s.Holds e) : e.NestedAtMost (limit + 2) := by
  obtain @⟨_, _, _, _, _, _, imports, inputs, decls, values, traits, _, _, _, _, hdecls, _,
    hsorted⟩ := h
  obtain ⟨rfl, rfl⟩ := sorted_iff.mp hsorted
  have expr := (levels_nestedAtMost (imports.flatMap Import.names) limit).climb 0
  have each := Many.forall_mem (Declaration.nestedAtMost expr) hdecls
  rcases he with ⟨v, hv, hwithin⟩ | ⟨t, ht, hwithin⟩
  · obtain ⟨d, hd, hvalue⟩ := List.mem_filterMap.mp hv
    exact ((each d hd).1 v hvalue).within hwithin
  · obtain ⟨d, hd, htrait⟩ := List.mem_filterMap.mp ht
    exact ((each d hd).2 t htrait).within hwithin

end Grammar

/-- The expressions of a schema nest at most two steps further than the limit, for a cascade and for
the conditions of its cases. Counted in full they may go deeper: with `k` operators and indices in a
row, each step costs up to `k + 1` expressions. -/
theorem Source.schema_nestedAtMost {source : Source} {s : Schema} (h : source.schema = .ok s)
    (e : Expr) (he : s.Holds e) :
    e.NestedAtMost (Schema.nestingLimit + 2) ∧
      ∀ k, (∀ inner : Expr, inner.Within e → inner.links ≤ k) →
        e.DeepAtMost ((Schema.nestingLimit + 2) * (k + 1)) := by
  obtain ⟨tokens, _, hread⟩ := Source.schema_eq_ok_iff.mp h
  have derived := Reader.schema_eq_ok_iff.mp (Schema.ofTokensWithin_eq_ok_iff.mp hread)
  have nested := derived.nestedAtMost he
  refine ⟨nested, fun k hlinks => nested.deepAtMost hlinks _ ?_⟩
  exact Nat.add_le_add_left (hlinks e .self) _

/-- One, with `n` more ones added to it. -/
def Expr.ones : Nat → Expr
  | 0 => .int 1
  | n + 1 => .apply "add" [ones n, .int 1]

def Piece.ones : Nat → List Piece
  | 0 => [.integer 1]
  | n + 1 => ones n ++ [.operator .add, .integer 1]

/-- A schema whose one value is a sum of `n + 1` ones. -/
def Piece.sum (n : Nat) : List Piece :=
  .keyword .schema :: (.keyword .doWord :: .keyword .input :: .keyword .doWord ::
    .keyword .endWord :: .keyword .value :: .symbol "sum" :: .mark .comma :: ones n) ++
    [.keyword .endWord]

def Source.sum (n : Nat) : Source := ⟨anonymous, String.ofList (Piece.layout (Piece.sum n))⟩

example : (Source.sum 2).text = "schema do input do end value :sum, 1 + 1 + 1 end" := by
  decide +kernel

theorem Expr.ones_not_deepAtMost (n : Nat) : ¬(Expr.ones n).DeepAtMost n := by
  induction n with
  | zero => exact fun h => by cases h
  | succ n ih => exact fun h => ih (h.part (by simp [ones, apply, parts]))

theorem Piece.ones_writes (imported : List String) (n : Nat) :
    Writes (Piece.ones n)
      (Grammar.Binary imported (Grammar.levels imported 1) Operator.add.leftPrecedence)
      (Expr.ones n) := by
  have one (inner : Grammar.Level) :
      Writes [.integer 1] (Grammar.Operand imported inner) (.int 1) :=
    .single trivial fun t ht => .mk (.integer ht.1 (Piece.denotes_of_spells ht)) .nil
  induction n with
  | zero => exact (one _).imp fun _ hts => .operand hts
  | succ n ih =>
    have more := (one (Grammar.levels imported 0)).after (p := .operator .add) (by simp)
    refine ih.append more fun ts us hleft hright => ?_
    obtain ⟨hadd, hone⟩ := hright
    exact .operator hadd (Nat.le_refl _) hleft (.operand hone)

theorem Source.schema_of_writes {γ : Type} {view : Schema → γ} {ps : List Piece} {s : Schema}
    (h : Writes ps (UpTo view (Grammar.Schema Schema.nestingLimit)) s) (file : String) :
    ∃ s', (Source.mk file (String.ofList (Piece.layout ps))).schema = .ok s' ∧
      view s' = view s := by
  obtain ⟨ts, stop, hscan, hstop, hts⟩ := Piece.scan_layout h.valid .outside .start
  obtain ⟨s', hderives, hview⟩ := h.spells ts hts
  refine ⟨s', Source.schema_eq_ok_iff.mpr ⟨ts ++ [stop], ?_, ?_⟩, hview⟩
  · rw [Token.ofText, String.toList_ofList, hscan]
  · rw [Schema.ofTokens, ofTokensWithin_of_plain (Grammar.schema_plain _ ts s' hderives) hstop,
      Reader.schema_eq_ok_iff.mpr hderives]
    rfl

/-- Any number of ones in a row is read, since what stands to the right of an operator opens one
level and closes it again. -/
theorem Piece.sum_writes (n : Nat) :
    Writes (Piece.sum n)
      (UpTo (fun s => s.values.map Value.expression) (Grammar.Schema Schema.nestingLimit))
      (.ofParts [] [] [.value ⟨"sum", Expr.ones n, false, .start⟩]) := by
  have value := (((Piece.ones_writes [] n).after (p := .mark .comma) (by simp)).after
    (p := .symbol "sum") (by rw [valid_symbol]; decide)).after (p := .keyword .value) (by simp)
  have inputs := ((value.after (p := .keyword .endWord) (by simp)).after
    (p := .keyword .doWord) (by simp)).after (p := .keyword .input) (by simp)
  refine .between (by simp) (inputs.after (p := .keyword .doWord) (by simp)) (by simp)
    fun t ts u ht hts hu => ?_
  obtain ⟨hdo, ⟨hinput, ⟨hopen, ⟨hclose, ⟨hvalue, ⟨hname, ⟨hcomma, hones⟩⟩⟩⟩⟩⟩⟩ := hts
  have enough : (Grammar.levels [] 2).Le (Grammar.levels [] Schema.nestingLimit) :=
    Grammar.levels_le (by decide)
  have expr := enough.climb 0 _ _ (Grammar.Binary.weaken (Nat.zero_le _) hones)
  have none : Grammar.Inputs Schema.nestingLimit false [] [] := ⟨.nil, by simp⟩
  have value := Grammar.Declaration.value hvalue hname (.expression hcomma expr)
  have whole := Grammar.Schema.of_parts ht.1 hdo .nil (.mk hinput hopen none hclose)
    (.cons value .nil) hu.1
  simp only [List.append_nil, List.nil_append, List.cons_append] at whole
  exact ⟨_, whole, rfl⟩

theorem Source.exists_sum (n : Nat) :
    ∃ s, (Source.sum n).schema = .ok s ∧ ∃ v ∈ s.values, v.expression = Expr.ones n := by
  obtain ⟨s, hread, hvalues⟩ := Source.schema_of_writes (Piece.sum_writes n) Source.anonymous
  have mem : Expr.ones n ∈ s.values.map Value.expression := by
    rw [hvalues]
    simp [Schema.ofParts, Reader.Declaration.value?]
  exact ⟨s, hread, List.mem_map.mp mem⟩

theorem Source.sum_nestedAtMost :
    ∃ s, (Source.sum 256).schema = .ok s ∧ ∃ v ∈ s.values, v.expression = Expr.ones 256 ∧
      v.expression.NestedAtMost (Schema.nestingLimit + 2) := by
  obtain ⟨s, hread, v, hv, hexpr⟩ := Source.exists_sum 256
  exact ⟨s, hread, v, hv, hexpr, (Source.schema_nestedAtMost hread _ (.inl ⟨v, hv, .self⟩)).1⟩

/-- Twice the limit bounds no depth: 257 ones in a row go further. -/
theorem Source.sum_too_deep :
    ∃ s, (Source.sum 256).schema = .ok s ∧ ∃ v ∈ s.values,
      ¬v.expression.DeepAtMost (2 * Schema.nestingLimit) := by
  obtain ⟨s, hread, v, hv, hexpr⟩ := Source.exists_sum 256
  exact ⟨s, hread, v, hv, hexpr ▸ Expr.ones_not_deepAtMost 256⟩

end SchemaLang
