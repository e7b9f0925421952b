import SchemaLang.Proofs.Recognition

namespace SchemaLang

open Text

/-- A name that starts with a letter or an underscore. -/
def IsFieldName (name : String) : Prop :=
  ∃ c cs, name.toList = c :: cs ∧ (isAlphabetic c ∨ c = '_')

namespace Expr

def IsCascade (e : Expr) : Prop := ∃ cases, e = .cascade cases

/-- The condition of a case: the literal that always holds, or some conditions that must all hold
and none of which is a symbol. -/
def IsCondition (e : Expr) : Prop :=
  e = .boolean true ∨ ∃ conditions, e = .call "cascade_and" conditions [] ∧ conditions ≠ [] ∧
    ∀ c ∈ conditions, ∀ name, c ≠ .symbol name

/-- What an expression keeps to, its parts apart, in a schema of some imports. -/
def Shaped (imports : List Import) : Expr → Prop
  | .input name => IsFieldName name
  | .inputPath path => 2 ≤ path.length ∧ ∀ name ∈ path, IsFieldName name
  | .call _ _ opts => (opts.map Prod.fst).Nodup
  | .importCall name args =>
    (args.map Prod.fst).Nodup ∧ (∃ i ∈ imports, name ∈ i.names) ∧ name ≠ "ref"
  | .hash pairs => ∀ pair ∈ pairs, (∃ s, pair.1 = .string s) ∨ ∃ name, pair.1 = .symbol name
  | .cascade cases => ∀ c ∈ cases, c.1.IsCondition
  | _ => True

def parts : Expr → List Expr
  | .call _ args opts => args ++ opts.map Prod.snd
  | .array elements => elements
  | .hash pairs => pairs.map Prod.snd
  | .cascade cases => cases.map Prod.fst ++ cases.map Prod.snd
  | .importCall _ args => args.map Prod.snd
  | _ => []

/-- Is an expression or stands inside it, at any depth. -/
inductive Within (e : Expr) : Expr → Prop
  | self : Within e e
  | inside {whole part : Expr} : part ∈ whole.parts → Within e part → Within e whole

/-- Shaped and free of cascades, at every depth. -/
def Simple (imports : List Import) (e : Expr) : Prop :=
  ∀ inner : Expr, inner.Within e → inner.Shaped imports ∧ ¬inner.IsCascade

end Expr

/-- Is the expression of a value or a trait, or stands inside one. -/
def Schema.Holds (s : Schema) (e : Expr) : Prop :=
  (∃ v ∈ s.values, e.Within v.expression) ∨ ∃ t ∈ s.traits, e.Within t.expression

/-- What all expressions of a schema keep to. -/
structure Schema.ExpressionsShaped (s : Schema) : Prop where
  shaped : ∀ e, s.Holds e → e.Shaped s.imports
  values : ∀ v ∈ s.values, ∀ part ∈ v.expression.parts, ∀ e : Expr, e.Within part → ¬e.IsCascade
  traits : ∀ t ∈ s.traits, ∀ e : Expr, e.Within t.expression → ¬e.IsCascade

namespace Expr

variable {imports : List Import} {e : Expr}

/-- Shape passes from the parts of an expression to the whole. -/
theorem Simple.of_parts (hshaped : e.Shaped imports) (hcascade : ¬e.IsCascade)
    (hparts : ∀ part ∈ e.parts, part.Simple imports) : e.Simple imports := by
  intro inner hinner
  cases hinner with
  | self => exact ⟨hshaped, hcascade⟩
  | inside hpart hinner => exact hparts _ hpart inner hinner

theorem simple_literal (value : Literal) : (Expr.literal value).Simple imports :=
  .of_parts trivial (by simp [IsCascade]) (by simp [parts])

theorem simple_reference (name : String) : (Expr.reference name).Simple imports :=
  .of_parts trivial (by simp [IsCascade]) (by simp [parts])

theorem simple_call {function : String} {args : List Expr} {opts : List (String × Expr)}
    (hkeys : (opts.map Prod.fst).Nodup) (hargs : ∀ a ∈ args, a.Simple imports)
    (hopts : ∀ o ∈ opts, o.2.Simple imports) : (Expr.call function args opts).Simple imports := by
  refine .of_parts hkeys (by simp [IsCascade]) fun part hpart => ?_
  rcases List.mem_append.mp hpart with hmem | hmem
  · exact hargs part hmem
  · obtain ⟨o, ho, rfl⟩ := List.mem_map.mp hmem
    exact hopts o ho

theorem simple_apply {function : String} {args : List Expr}
    (hargs : ∀ a ∈ args, a.Simple imports) : (Expr.apply function args).Simple imports :=
  simple_call (by simp) hargs (by simp)

end Expr

def Reader.Argument.value : Reader.Argument → Expr
  | .positional value => value
  | .keyed _ value => value

namespace Grammar

variable {α : Type}

theorem Many.forall_mem {item : Phrase α} {P : α → Prop} (h : ∀ p a, item p a → P a)
    {p : List Token} {as : List α} (hp : Many item p as) : ∀ a ∈ as, P a := by
  induction hp with
  | nil => simp
  | cons ha _ ih => exact List.forall_mem_cons.mpr ⟨h _ _ ha, ih⟩

theorem Items.forall_mem {item : Phrase α} {P : α → Prop} (h : ∀ p a, item p a → P a)
    {p : List Token} {as : List α} (hp : Items item p as) : ∀ a ∈ as, P a := by
  induction hp with
  | nil => simp
  | last ha => simpa using h _ _ ha
  | cons ha _ _ ih => exact List.forall_mem_cons.mpr ⟨h _ _ ha, ih⟩

theorem isFieldName_of_isWord {t : Token} (h : t.isWord) : IsFieldName t.raw := by
  have start := (Bool.and_eq_true_iff.mp h).2
  cases hraw : t.raw.toList with
  | nil => simp [hraw] at start
  | cons c cs => exact ⟨c, cs, hraw, by simpa [hraw, isWordStart] using start⟩

theorem Fields.isFieldName {p : List Token} {names : List String} (h : Fields p names) :
    ∀ name ∈ names, IsFieldName name := by
  induction h with
  | nil => simp
  | cons _ hword _ ih => exact List.forall_mem_cons.mpr ⟨isFieldName_of_isWord hword, ih⟩

structure Level.Simple (imports : List SchemaLang.Import) (L : Level) : Prop where
  climb : ∀ least p e, L.climb least p e → e.Simple imports
  negated : ∀ p e, L.negated p e → e.Simple imports

section Levels

variable {imports : List SchemaLang.Import} {imported : List String} {inner : Level}
  (h : inner.Simple imports)

include h

theorem Keyed.simple (p : List Token) (o : String × Expr) (hp : Keyed inner p o) :
    o.2.Simple imports := by
  obtain ⟨_, hp⟩ := hp
  exact h.climb 0 _ _ hp

theorem Argument.simple (p : List Token) (a : Reader.Argument) (ha : Argument inner p a) :
    a.value.Simple imports := by
  cases ha with
  | positional hp => exact h.climb 0 _ _ hp
  | keyed hp => exact Keyed.simple h _ _ hp

theorem Arguments.simple {p : List Token} {args : List Expr} {opts : List (String × Expr)}
    (hp : Arguments inner p (args, opts)) :
    (∀ a ∈ args, a.Simple imports) ∧ (∀ o ∈ opts, o.2.Simple imports) ∧
      (opts.map Prod.fst).Nodup := by
  obtain ⟨hitems, hkeys, _⟩ := hp
  have simple := Items.forall_mem (Argument.simple h) hitems
  refine ⟨fun a ha => ?_, fun o ho => ?_, hkeys⟩
  · exact simple (.positional a) (List.mem_append_left _ (List.mem_map.mpr ⟨a, ha, rfl⟩))
  · exact simple (.keyed o.1 o.2) (List.mem_append_right _ (List.mem_map.mpr ⟨o, ho, rfl⟩))

theorem HashPair.shaped (p : List Token) (pair : Literal × Expr) (hp : HashPair inner p pair) :
    ((∃ s, pair.1 = .string s) ∨ ∃ name, pair.1 = .symbol name) ∧ pair.2.Simple imports := by
  obtain ⟨hkey, hvalue⟩ := hp
  refine ⟨?_, h.climb 0 _ _ hvalue⟩
  cases hkey with
  | label _ => exact .inr ⟨_, rfl⟩
  | string _ _ => exact .inl ⟨_, rfl⟩
  | symbol _ _ => exact .inr ⟨_, rfl⟩

theorem Primary.simple {p : List Token} {e : Expr}
    (himported : imported = imports.flatMap (·.names)) (hp : Primary imported inner p e) :
    e.Simple imports := by
  cases hp with
  | integer _ _ => exact Expr.simple_literal _
  | float _ _ => exact Expr.simple_literal _
  | string _ => exact Expr.simple_literal _
  | boolean _ => exact Expr.simple_literal _
  | symbol _ => exact Expr.simple_literal _
  | infinity _ _ => exact Expr.simple_literal _
  | @input t p name _ hfields =>
    exact .of_parts (hfields.isFieldName name (by simp)) (by simp [Expr.IsCascade])
      (by simp [Expr.parts])
  | inputPath _ hfields =>
    exact .of_parts ⟨by simp, hfields.isFieldName⟩ (by simp [Expr.IsCascade])
      (by simp [Expr.parts])
  | reference _ => exact Expr.simple_reference _
  | ref _ _ _ _ _ => exact Expr.simple_reference _
  | importCall _ href hname _ hargs hkeys _ =>
    have simple := Items.forall_mem (Keyed.simple h) hargs
    rw [himported] at hname
    refine .of_parts ⟨hkeys, List.mem_flatMap.mp hname, href⟩ (by simp [Expr.IsCascade]) ?_
    simpa [Expr.parts] using fun e key hmem => simple (key, e) hmem
  | call _ _ _ _ hargs =>
    obtain ⟨hargs, hopts, hkeys⟩ := hargs.simple h
    exact Expr.simple_call hkeys hargs hopts
  | function _ _ _ _ => exact Expr.simple_call (by simp) (by simp) (by simp)
  | functionCall _ _ _ _ hargs =>
    obtain ⟨hargs, hopts, hkeys⟩ := hargs.simple h
    exact Expr.simple_call hkeys hargs hopts
  | index _ _ _ _ => exact .of_parts trivial (by simp [Expr.IsCascade]) (by simp [Expr.parts])
  | group _ hp _ => exact h.climb 0 _ _ hp
  | array _ hitems _ =>
    exact .of_parts trivial (by simp [Expr.IsCascade]) (Items.forall_mem (h.climb 0) hitems)
  | hash _ hitems _ =>
    have pairs := Items.forall_mem (HashPair.shaped h) hitems
    refine .of_parts (fun pair hpair => (pairs pair hpair).1) (by simp [Expr.IsCascade]) ?_
    simpa [Expr.parts] using fun e key hmem => (pairs (key, e) hmem).2

theorem Indices.simple {e e' : Expr} {p : List Token} (hp : Indices inner e p e')
    (he : e.Simple imports) : e'.Simple imports := by
  induction hp with
  | nil => exact he
  | cons _ hi _ _ ih => exact ih (Expr.simple_apply (by simpa using ⟨he, h.climb 0 _ _ hi⟩))

theorem Operand.simple {p : List Token} {e : Expr}
    (himported : imported = imports.flatMap (·.names)) (hp : Operand imported inner p e) :
    e.Simple imports := by
  cases hp with
  | negation _ hp =>
    exact Expr.simple_apply (by simpa using ⟨Expr.simple_literal _, h.negated _ _ hp⟩)
  | mk hp hq => exact hq.simple h (hp.simple h himported)

theorem Binary.simple {least : Nat} {p : List Token} {e : Expr}
    (himported : imported = imports.flatMap (·.names)) (hp : Binary imported inner least p e) :
    e.Simple imports := by
  induction hp with
  | operand hp => exact hp.simple h himported
  | operator _ _ _ hq ih => exact Expr.simple_apply (by simpa using ⟨ih, h.climb _ _ _ hq⟩)

end Levels

theorem levels_simple (imports : List SchemaLang.Import) (room : Nat) :
    (levels (imports.flatMap (·.names)) room).Simple imports := by
  induction room with
  | zero => exact ⟨fun _ _ _ hp => hp.elim, fun _ _ hp => hp.elim⟩
  | succ room ih => exact ⟨fun _ _ _ hp => hp.simple ih rfl, fun _ _ hp => hp.simple ih rfl⟩

section Declarations

variable {imports : List SchemaLang.Import} {expr : Phrase Expr}
  (h : ∀ p e, expr p e → e.Simple imports)

include h

theorem Condition.simple (p : List Token) (e : Expr) (hp : Condition expr p e) :
    e.Simple imports ∧ ∀ name, e ≠ .symbol name := by
  cases hp with
  | named _ => exact ⟨Expr.simple_reference _, fun name he => by cases he⟩
  | plain hp hne => exact ⟨h _ _ hp, hne⟩

/-- The condition of a case is one that the cases of a cascade may have, and both its sides are
simple. -/
theorem Case.shaped (p : List Token) (c : Expr × Expr) (hp : Case expr p c) :
    c.1.IsCondition ∧ c.1.Simple imports ∧ c.2.Simple imports := by
  cases hp with
  | on _ hconditions hresult =>
    obtain ⟨hne, each⟩ := hconditions.forall_mem (Condition.simple h)
    refine ⟨.inr ⟨_, rfl, hne, fun e he => (each e he).2⟩, ?_, h _ _ hresult⟩
    exact Expr.simple_apply fun e he => (each e he).1
  | base _ hresult => exact ⟨.inl rfl, Expr.simple_literal _, h _ _ hresult⟩

/-- The body of a value is shaped at every depth, and no part of it is a cascade. -/
theorem Body.shaped {p : List Token} {e : Expr} (hp : Body expr p e) :
    e.Shaped imports ∧ ∀ part ∈ e.parts, part.Simple imports := by
  cases hp with
  | expression _ hp =>
    have simple := h _ _ hp
    exact ⟨(simple e .self).1, fun part hpart inner hinner => simple inner (.inside hpart hinner)⟩
  | @cascade _ _ _ cases _ hcases _ =>
    have each := Many.forall_mem (Case.shaped h) hcases
    refine ⟨fun c hc => (each c hc).1, fun part hpart => ?_⟩
    rcases List.mem_append.mp hpart with hmem | hmem
    · obtain ⟨c, hc, rfl⟩ := List.mem_map.mp hmem
      exact (each c hc).2.1
    · obtain ⟨c, hc, rfl⟩ := List.mem_map.mp hmem
      exact (each c hc).2.2

/-- What a declaration's expression keeps to: that of a trait is simple, that of a value may be a
cascade. -/
theorem Declaration.shaped (p : List Token) (d : Reader.Declaration)
    (hp : Declaration expr p d) :
    (∀ v ∈ d.value?, v.expression.Shaped imports ∧
      ∀ part ∈ v.expression.parts, part.Simple imports) ∧
    ∀ t ∈ d.trait?, t.expression.Simple imports := by
  cases hp with
  | value _ _ hbody =>
    refine ⟨fun v hv => ?_, fun t ht => by cases ht⟩
    cases hv
    exact hbody.shaped h
  | letValue _ _ hbody =>
    refine ⟨fun v hv => ?_, fun t ht => by cases ht⟩
    cases hv
    exact hbody.shaped h
  | trait _ _ _ hp =>
    refine ⟨fun v hv => (by cases hv), fun t ht => ?_⟩
    cases ht
    exact h _ _ hp

end Declarations

theorem Schema.expressions_shaped {limit : Nat} {p : List Token} {s : SchemaLang.Schema}
    (h : Schema limit p s) : s.ExpressionsShaped := by
  obtain @⟨_, _, _, _, _, _, imports, inputs, decls, values, traits, _, _, _, _, hdecls, _,
    hsorted⟩ := h
  obtain ⟨rfl, rfl⟩ := sorted_iff.mp hsorted
  have each := Many.forall_mem
    (Declaration.shaped ((levels_simple imports limit).climb 0)) hdecls
  have value (v : Value) (hv : v ∈ decls.filterMap (·.value?)) :
      v.expression.Shaped imports ∧ ∀ part ∈ v.expression.parts, part.Simple imports := by
    obtain ⟨d, hd, hvalue⟩ := List.mem_filterMap.mp hv
    exact (each d hd).1 v hvalue
  have trait (t : Trait) (ht : t ∈ decls.filterMap (·.trait?)) : t.expression.Simple imports := by
    obtain ⟨d, hd, htrait⟩ := List.mem_filterMap.mp ht
    exact (each d hd).2 t htrait
  refine ⟨fun e he => ?_, fun v hv part hpart e he => ?_, fun t ht e he => (trait t ht e he).2⟩
  · rcases he with ⟨v, hv, hwithin⟩ | ⟨t, ht, hwithin⟩
    · cases hwithin with
      | self => exact (value v hv).1
      | inside hpart hinner => exact ((value v hv).2 _ hpart e hinner).1
    · exact (trait t ht e hwithin).1
  · exact ((value v hv).2 part hpart e he).2

end Grammar

/-- The expressions of a schema that was read are shaped at every depth, and cascades stand only as
the whole of a value. -/
theorem Schema.ofTokens_expressions_shaped {tokens : List Token} {s : Schema}
    (h : Schema.ofTokens tokens = .ok s) : s.ExpressionsShaped :=
  (Reader.schema_eq_ok_iff.mp (Schema.ofTokensWithin_eq_ok_iff.mp h)).expressions_shaped

/-- A trait, and a value that falls into two cases, one of which calls an imported function. -/
def Schema.priceByCase : List Token :=
  [Reader.sample (.keyword .schema) "schema", Reader.sample (.keyword .doWord) "do",
    Reader.sample (.keyword .importWord) "import", Reader.sample .symbol "tax",
    Reader.sample .label "from", Reader.sample .constant "Shared::Tax",
    Reader.sample (.keyword .input) "input", Reader.sample (.keyword .doWord) "do",
    Reader.sample (.keyword .endWord) "end", Reader.sample (.keyword .trait) "trait",
    Reader.sample .symbol "big", Reader.sample (.mark .comma) ",",
    Reader.sample (.keyword .input) "input", Reader.sample (.mark .dot) ".",
    Reader.sample .identifier "total", Reader.sample (.operator .gt) ">",
    Reader.sample .integer "9", Reader.sample (.keyword .value) "value",
    Reader.sample .symbol "price", Reader.sample (.keyword .doWord) "do",
    Reader.sample (.keyword .on) "on", Reader.sample .symbol "big",
    Reader.sample (.mark .comma) ",",
    Reader.sample .identifier "tax", Reader.sample (.mark .leftParen) "(",
    Reader.sample .label "of", Reader.sample (.keyword .input) "input",
    Reader.sample (.mark .dot) ".", Reader.sample .identifier "cart",
    Reader.sample (.mark .dot) ".",
    Reader.sample .identifier "total", Reader.sample (.mark .rightParen) ")",
    Reader.sample (.keyword .base) "base", Reader.sample .integer "0",
    Reader.sample (.keyword .endWord) "end", Reader.sample (.keyword .endWord) "end"]

theorem Schema.priceByCase_shaped :
    ∃ s, Schema.ofTokens Schema.priceByCase = .ok s ∧
      (s.values.map Value.name, s.traits.map Trait.name) = (["price"], ["big"]) ∧
      s.ExpressionsShaped := by
  have judged : (Schema.ofTokens Schema.priceByCase).toOption.map (fun s =>
      (s.values.map Value.name, s.traits.map Trait.name)) = some (["price"], ["big"]) := by
    decide +kernel
  cases h : Schema.ofTokens Schema.priceByCase with
  | error e =>
    rw [h] at judged
    cases judged
  | ok s =>
    rw [h] at judged
    exact ⟨s, rfl, Option.some.inj judged, Schema.ofTokens_expressions_shaped h⟩

end SchemaLang
