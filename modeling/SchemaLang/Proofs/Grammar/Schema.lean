import SchemaLang.Proofs.Grammar.Expr
import SchemaLang.Proofs.Grammar.Input
import SchemaLang.Schema.Reader

namespace SchemaLang

def Schema.ofParts (imports : List Import) (inputs : List Input)
    (decls : List Reader.Declaration) : Schema :=
  ⟨inputs, decls.filterMap (·.value?), decls.filterMap (·.trait?), imports⟩

namespace Grammar

/-- A condition. A symbol names a trait there. -/
inductive Condition (expr : Phrase Expr) : Phrase Expr
  | named {p : List Token} {name : String} :
    expr p (.symbol name) → Condition expr p (.reference name)
  | plain {p : List Token} {e : Expr} :
    expr p e → (∀ name, e ≠ .symbol name) → Condition expr p e

/-- Functions that are taken from a module. -/
inductive Import : Phrase SchemaLang.Import
  | mk {t label source : Token} {p : List Token} {names : List String} :
    t.kind = .keyword .importWord → Items Name p names → names ≠ [] → label.kind = .label →
    label.raw = "from" → source.kind = .constant →
    Import (t :: p ++ [label, source]) ⟨names, source.raw, t.location⟩

inductive Conditions (expr : Phrase Expr) : Phrase (List Expr)
  | one {p : List Token} {e : Expr} {comma : Token} :
    expr p e → comma.kind = .mark .comma → Conditions expr (p ++ [comma]) [e]
  | cons {p q : List Token} {e : Expr} {es : List Expr} {comma : Token} :
    expr p e → comma.kind = .mark .comma → Conditions expr q es →
    Conditions expr (p ++ comma :: q) (e :: es)

inductive Case (expr : Phrase Expr) : Phrase (Expr × Expr)
  | on {t : Token} {p q : List Token} {conditions : List Expr} {result : Expr} :
    t.kind = .keyword .on → Conditions (Condition expr) p conditions → expr q result →
    Case expr (t :: p ++ q) (.apply "cascade_and" conditions, result)
  | base {t : Token} {p : List Token} {result : Expr} :
    t.kind = .keyword .base → expr p result → Case expr (t :: p) (.boolean true, result)

/-- What follows the name of a value. -/
inductive Body (expr : Phrase Expr) : Phrase Expr
  | expression {comma : Token} {p : List Token} {e : Expr} :
    comma.kind = .mark .comma → expr p e → Body expr (comma :: p) e
  | cascade {opening closing : Token} {p : List Token} {cases : List (Expr × Expr)} :
    opening.kind = .keyword .doWord → Many (Case expr) p cases →
    closing.kind = .keyword .endWord → Body expr (opening :: p ++ [closing]) (.cascade cases)

inductive Declaration (expr : Phrase Expr) : Phrase Reader.Declaration
  | value {t name : Token} {p : List Token} {e : Expr} : t.kind = .keyword .value →
    name.kind = .symbol → Body expr p e →
    Declaration expr (t :: name :: p) (.value ⟨name.raw, e, false, t.location⟩)
  | letValue {t name : Token} {p : List Token} {e : Expr} : t.kind = .keyword .letWord →
    name.kind = .symbol → Body expr p e →
    Declaration expr (t :: name :: p) (.value ⟨name.raw, e, true, t.location⟩)
  | trait {t name comma : Token} {p : List Token} {e : Expr} : t.kind = .keyword .trait →
    name.kind = .symbol → comma.kind = .mark .comma → expr p e →
    Declaration expr (t :: name :: comma :: p) (.trait ⟨name.raw, e, t.location⟩)

/-- Declarations in their order, and the values and the traits among them. -/
inductive Sorted : List Reader.Declaration → List Value → List Trait → Prop
  | nil : Sorted [] [] []
  | value {decl : Value} {decls : List Reader.Declaration} {values : List Value}
    {traits : List Trait} : Sorted decls values traits →
    Sorted (.value decl :: decls) (decl :: values) traits
  | trait {decl : Trait} {decls : List Reader.Declaration} {values : List Value}
    {traits : List Trait} : Sorted decls values traits →
    Sorted (.trait decl :: decls) values (decl :: traits)

inductive InputSection (limit : Nat) : Phrase (List Input)
  | mk {t opening closing : Token} {p : List Token} {inputs : List Input} :
    t.kind = .keyword .input → opening.kind = .keyword .doWord → Inputs limit false p inputs →
    closing.kind = .keyword .endWord → InputSection limit (t :: opening :: p ++ [closing]) inputs

/-- A whole schema, whose expressions and inputs nest at most `limit` levels. -/
inductive Schema (limit : Nat) : Phrase SchemaLang.Schema
  | mk {t opening closing : Token} {p q r : List Token} {imports : List SchemaLang.Import}
    {inputs : List Input} {decls : List Reader.Declaration} {values : List Value}
    {traits : List Trait} :
    t.kind = .keyword .schema → opening.kind = .keyword .doWord → Many Import p imports →
    InputSection limit q inputs →
    Many (Declaration (Expression (imports.flatMap Import.names) limit)) r decls →
    closing.kind = .keyword .endWord → Sorted decls values traits →
    Schema limit (t :: opening :: p ++ q ++ r ++ [closing]) ⟨inputs, values, traits, imports⟩

section Conditions

variable {expr : Phrase Expr} {p : List Token} {e : Expr} {es : List Expr}

theorem condition_iff : Condition expr p e ↔ ∃ e', expr p e' ∧ e = Reader.condition e' := by
  constructor
  · intro h
    cases h with
    | named hp => exact ⟨_, hp, rfl⟩
    | plain hp hne =>
      refine ⟨e, hp, ?_⟩
      unfold Reader.condition
      split
      · next name => exact absurd rfl (hne name)
      · rfl
  · intro h
    obtain ⟨e', hp, rfl⟩ := h
    unfold Reader.condition
    split
    · exact .named hp
    · next hne => exact .plain hp hne

theorem Condition.mono {expr' : Phrase Expr} (h : ∀ p e, expr p e → expr' p e) (p : List Token)
    (e : Expr) (hp : Condition expr p e) : Condition expr' p e := by
  cases hp with
  | named hp => exact .named (h _ _ hp)
  | plain hp hne => exact .plain (h _ _ hp) hne

theorem Conditions.mono {expr' : Phrase Expr} (h : ∀ p e, expr p e → expr' p e)
    (hp : Conditions expr p es) : Conditions expr' p es := by
  induction hp with
  | one he hc => exact .one (h _ _ he) hc
  | cons he hc _ ih => exact .cons (h _ _ he) hc ih

theorem Conditions.forall_mem {P : Expr → Prop} (h : ∀ p e, expr p e → P e)
    (hp : Conditions expr p es) : es ≠ [] ∧ ∀ e ∈ es, P e := by
  induction hp with
  | one he _ => exact ⟨by simp, by simpa using h _ _ he⟩
  | cons he _ _ ih => exact ⟨by simp, List.forall_mem_cons.mpr ⟨h _ _ he, ih.2⟩⟩

theorem Conditions.conditions (hp : Conditions expr p es) :
    Conditions (Condition expr) p (es.map Reader.condition) := by
  induction hp with
  | one he hc => exact .one (condition_iff.mpr ⟨_, he, rfl⟩) hc
  | cons he hc _ ih => exact .cons (condition_iff.mpr ⟨_, he, rfl⟩) hc ih

theorem Conditions.exists_map (hp : Conditions (Condition expr) p es) :
    ∃ es', Conditions expr p es' ∧ es = es'.map Reader.condition := by
  induction hp with
  | one hcond hc =>
    obtain ⟨e, he, rfl⟩ := condition_iff.mp hcond
    exact ⟨[e], .one he hc, rfl⟩
  | cons hcond hc _ ih =>
    obtain ⟨e, he, rfl⟩ := condition_iff.mp hcond
    obtain ⟨es, hes, rfl⟩ := ih
    exact ⟨e :: es, .cons he hc hes, rfl⟩

end Conditions

theorem sorted_iff {decls : List Reader.Declaration} {values : List Value} {traits : List Trait} :
    Sorted decls values traits ↔
      values = decls.filterMap (·.value?) ∧ traits = decls.filterMap (·.trait?) := by
  constructor
  · intro h
    induction h with
    | nil => exact ⟨rfl, rfl⟩
    | value _ ih =>
      obtain ⟨rfl, rfl⟩ := ih
      exact ⟨rfl, rfl⟩
    | trait _ ih =>
      obtain ⟨rfl, rfl⟩ := ih
      exact ⟨rfl, rfl⟩
  · rintro ⟨rfl, rfl⟩
    induction decls with
    | nil => exact .nil
    | cons decl decls ih =>
      cases decl with
      | value decl => exact .value ih
      | trait decl => exact .trait ih

theorem Schema.of_parts {limit : Nat} {t opening closing : Token} {p q r : List Token}
    {imports : List SchemaLang.Import} {inputs : List Input} {decls : List Reader.Declaration}
    (ht : t.kind = .keyword .schema) (ho : opening.kind = .keyword .doWord)
    (hp : Many Import p imports) (hq : InputSection limit q inputs)
    (hr : Many (Declaration (Expression (imports.flatMap Import.names) limit)) r decls)
    (hc : closing.kind = .keyword .endWord) :
    Schema limit (t :: opening :: p ++ q ++ r ++ [closing]) (.ofParts imports inputs decls) :=
  .mk ht ho hp hq hr hc (sorted_iff.mpr ⟨rfl, rfl⟩)

end Grammar

end SchemaLang
