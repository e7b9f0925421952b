import SchemaLang.Proofs.Grammar.Schema

namespace SchemaLang

/-- Neither a comment nor a token for the end. -/
def Token.Plain (t : Token) : Prop := t.kind ≠ .comment ∧ t.kind ≠ .eof

def AllPlain (p : List Token) : Prop := ∀ t ∈ p, t.Plain

@[simp] theorem allPlain_nil : AllPlain [] := by simp [AllPlain]

@[simp] theorem allPlain_cons {t : Token} {p : List Token} :
    AllPlain (t :: p) ↔ t.Plain ∧ AllPlain p := List.forall_mem_cons

@[simp] theorem allPlain_append {p q : List Token} :
    AllPlain (p ++ q) ↔ AllPlain p ∧ AllPlain q := List.forall_mem_append

theorem Token.plain_of_isWord {t : Token} (h : t.isWord) : t.Plain := by
  constructor <;> intro hk <;> simp [Token.isWord, Token.hasWordKind, hk] at h

/-- The words that announce, open or close a block. -/
def Kind.blockWords : List Kind :=
  [.keyword .schema, .keyword .input, .keyword .doWord, .keyword .endWord]

/-- A plain token that is no word of a block. -/
structure Token.Calm (t : Token) : Prop where
  plain : t.Plain
  noWord : t.kind ∉ Kind.blockWords

theorem Token.Calm.of_kind {t : Token} {kind : Kind} (h : t.kind = kind)
    (hkind : kind ∉ .comment :: .eof :: Kind.blockWords) : t.Calm := by
  simp only [List.mem_cons, not_or] at hkind
  rw [← h] at hkind
  exact ⟨⟨hkind.1, hkind.2.1⟩, hkind.2.2⟩

namespace Grammar

/-- Calm tokens and paths. -/
inductive Tame : List Token → Prop
  | nil : Tame []
  | calm {t : Token} {p : List Token} : t.Calm → Tame p → Tame (t :: p)
  | path {t : Token} {p q : List Token} {name : String} {names : List String} :
    t.kind = .keyword .input → Fields p (name :: names) → Tame q → Tame (t :: p ++ q)

/-- Blocks and calm tokens other than identifiers. -/
inductive Sealed : List Token → Prop
  | nil : Sealed []
  | calm {t : Token} {p : List Token} : t.Calm → t.kind ≠ .identifier → Sealed p → Sealed (t :: p)
  | block {opening closing : Token} {p q : List Token} : opening.kind = .keyword .doWord →
    Sealed p → closing.kind = .keyword .endWord → Sealed q → Sealed (opening :: p ++ closing :: q)

/-- A declaration, in which the words of a block stand only around the cases of a cascade. -/
inductive Declared : List Token → Prop
  | flat {t name comma : Token} {p : List Token} : Sealed [t, name] →
    comma.kind = .mark .comma → Tame p → Declared (t :: name :: comma :: p)
  | cascade {t name opening closing : Token} {p : List Token} : Sealed [t, name] →
    opening.kind = .keyword .doWord → Tame p → closing.kind = .keyword .endWord →
    Declared (t :: name :: opening :: p ++ [closing])

theorem Tame.append {p q : List Token} (hp : Tame p) (hq : Tame q) : Tame (p ++ q) := by
  induction hp with
  | nil => exact hq
  | calm ht _ ih => exact .calm ht ih
  | path ht hfields _ ih =>
    rw [List.append_assoc]
    exact .path ht hfields ih

theorem Sealed.append {p q : List Token} (hp : Sealed p) (hq : Sealed q) : Sealed (p ++ q) := by
  induction hp with
  | nil => exact hq
  | calm ht hname _ ih => exact .calm ht hname ih
  | block ho hinside hc _ _ ih =>
    rw [List.append_assoc]
    exact .block ho hinside hc ih

theorem Tame.cons {t : Token} {kind : Kind} {p : List Token} (h : t.kind = kind)
    (hkind : kind ∉ .comment :: .eof :: Kind.blockWords) (hp : Tame p) : Tame (t :: p) :=
  .calm (.of_kind h hkind) hp

theorem Sealed.cons {t : Token} {kind : Kind} {p : List Token} (h : t.kind = kind)
    (hkind : kind ∉ .identifier :: .comment :: .eof :: Kind.blockWords) (hp : Sealed p) :
    Sealed (t :: p) := by
  rw [List.mem_cons, not_or] at hkind
  exact .calm (.of_kind h hkind.2) (by rw [h]; exact hkind.1) hp

theorem fields_plain {p : List Token} {names : List String} (hp : Fields p names) :
    AllPlain p := by
  induction hp with
  | nil => simp
  | cons hd hw _ ih =>
    have word := Token.plain_of_isWord hw
    simpa [Token.Plain, hd, word.1, word.2] using ih

theorem Tame.plain {p : List Token} (h : Tame p) : AllPlain p := by
  induction h with
  | nil => simp
  | calm ht _ ih => exact allPlain_cons.mpr ⟨ht.plain, ih⟩
  | path ht hfields _ ih => simpa [Token.Plain, ht] using ⟨fields_plain hfields, ih⟩

theorem Sealed.plain {p : List Token} (h : Sealed p) : AllPlain p := by
  induction h with
  | nil => simp
  | calm ht _ _ ih => exact allPlain_cons.mpr ⟨ht.plain, ih⟩
  | block ho _ hc _ ihp ihq => simpa [Token.Plain, ho, hc] using ⟨ihp, ihq⟩

theorem Declared.plain {p : List Token} (h : Declared p) : AllPlain p := by
  cases h with
  | flat hhead hc hp =>
    have head := hhead.plain
    simp_all [Token.Plain, hp.plain]
  | cascade hhead ho hp hc =>
    have head := hhead.plain
    simp_all [Token.Plain, hp.plain]

theorem Sealed.noIdentifier {p : List Token} (h : Sealed p) : ∀ t ∈ p, t.kind ≠ .identifier := by
  induction h with
  | nil => simp
  | calm _ hname _ ih => exact List.forall_mem_cons.mpr ⟨hname, ih⟩
  | block ho _ hc _ ihp ihq =>
    refine List.forall_mem_cons.mpr ⟨by simp [ho], List.forall_mem_append.mpr ⟨ihp, ?_⟩⟩
    exact List.forall_mem_cons.mpr ⟨by simp [hc], ihq⟩

section Lists

variable {α : Type} {item : Phrase α}

/-- Whatever is kept by putting lists of tokens after each other holds of many items. -/
theorem Many.closed {P : List Token → Prop} (hnil : P [])
    (happend : ∀ p q, P p → P q → P (p ++ q)) (h : ∀ p a, item p a → P p) {p : List Token}
    {as : List α} (hp : Many item p as) : P p := by
  induction hp with
  | nil => exact hnil
  | cons ha _ ih => exact happend _ _ (h _ _ ha) ih

theorem Items.closed {P : List Token → Prop} (hnil : P [])
    (happend : ∀ p q, P p → P q → P (p ++ q))
    (hcomma : ∀ t : Token, ∀ p, t.kind = .mark .comma → P p → P (t :: p))
    (h : ∀ p a, item p a → P p) {p : List Token} {as : List α} (hp : Items item p as) : P p := by
  induction hp with
  | nil => exact hnil
  | last ha => exact h _ _ ha
  | cons ha hc _ ih => exact happend _ _ (h _ _ ha) (hcomma _ _ hc ih)

theorem Items.tame (h : ∀ p a, item p a → Tame p) {p : List Token} {as : List α}
    (hp : Items item p as) : Tame p :=
  hp.closed .nil (fun _ _ => .append) (fun _ _ hc => .cons hc (by decide)) h

theorem Items.sealed (h : ∀ p a, item p a → Sealed p) {p : List Token} {as : List α}
    (hp : Items item p as) : Sealed p :=
  hp.closed .nil (fun _ _ => .append) (fun _ _ hc => .cons hc (by decide)) h

end Lists

/-- The phrases of a level are tame. -/
structure Level.Tame (L : Level) : Prop where
  climb : ∀ least p e, L.climb least p e → Grammar.Tame p
  negated : ∀ p e, L.negated p e → Grammar.Tame p

section Levels

variable {imported : List String} {inner : Level} (h : inner.Tame)

include h

theorem Keyed.tame (p : List Token) (o : String × Expr) (hp : Keyed inner p o) : Tame p := by
  obtain ⟨hk, hp⟩ := hp
  exact .cons hk (by decide) (h.climb 0 _ _ hp)

theorem Argument.tame (p : List Token) (a : Reader.Argument) (hp : Argument inner p a) :
    Tame p := by
  cases hp with
  | positional hp => exact h.climb 0 _ _ hp
  | keyed hp => exact Keyed.tame h _ _ hp

theorem Arguments.tame {p : List Token} {args : List Expr × List (String × Expr)}
    (hp : Arguments inner p args) : Tame p := by
  obtain ⟨hp, _, hc⟩ := hp
  exact (Items.tame (Argument.tame h) hp).append (.cons hc (by decide) .nil)

theorem HashPair.tame (p : List Token) (pair : Literal × Expr) (hp : HashPair inner p pair) :
    Tame p := by
  obtain ⟨hp, hq⟩ := hp
  have value := h.climb 0 _ _ hq
  cases hp with
  | label hk => exact .cons hk (by decide) value
  | string hk ha => exact .cons hk (by decide) (.cons ha (by decide) value)
  | symbol hk ha => exact .cons hk (by decide) (.cons ha (by decide) value)

theorem Primary.tame {p : List Token} {e : Expr} (hp : Primary imported inner p e) : Tame p := by
  have close {t : Token} {m : Mark} (hk : t.kind = .mark m) : Tame [t] :=
    .cons hk (by cases m <;> decide) .nil
  cases hp with
  | integer hk _ => exact .cons hk (by decide) .nil
  | float hk _ => exact .cons hk (by decide) .nil
  | string hk => exact .cons hk (by decide) .nil
  | boolean hk => exact .cons hk (by decide) .nil
  | symbol hk => exact .cons hk (by decide) .nil
  | infinity hk _ => exact .cons hk (by decide) .nil
  | input hk hp => simpa using Tame.path hk hp .nil
  | inputPath hk hp => simpa using Tame.path hk hp .nil
  | reference hk => exact .cons hk (by decide) .nil
  | ref hk _ ho hn hc =>
    exact .cons hk (by decide) (.cons ho (by decide) (.cons hn (by decide) (close hc)))
  | importCall hk _ _ ho hp _ hc =>
    have args := (Items.tame (Keyed.tame h) hp).append (close hc)
    exact .cons hk (by decide) (.cons ho (by decide) args)
  | call hk _ _ ho hp => exact .cons hk (by decide) (.cons ho (by decide) (hp.tame h))
  | function hk ho hn hc =>
    exact .cons hk (by decide) (.cons ho (by decide) (.cons hn (by decide) (close hc)))
  | functionCall hk ho hn hc hp =>
    have args := Tame.cons hn (by decide) (.cons hc (by decide) (hp.tame h))
    exact .cons hk (by decide) (.cons ho (by decide) args)
  | index hk ho hn hc =>
    exact .cons hk (by decide) (.cons ho (by decide) (.cons hn (by decide) (close hc)))
  | group ho hp hc => exact .cons ho (by decide) ((h.climb 0 _ _ hp).append (close hc))
  | array ho hp hc =>
    exact .cons ho (by decide) ((Items.tame (h.climb 0) hp).append (close hc))
  | hash ho hp hc =>
    exact .cons ho (by decide) ((Items.tame (HashPair.tame h) hp).append (close hc))

theorem Indices.tame {e e' : Expr} {p : List Token} (hp : Indices inner e p e') : Tame p := by
  induction hp with
  | nil => exact .nil
  | cons ho hp hc _ ih =>
    exact .cons ho (by decide) ((h.climb 0 _ _ hp).append (.cons hc (by decide) ih))

theorem Operand.tame (p : List Token) (e : Expr) (hp : Operand imported inner p e) : Tame p := by
  cases hp with
  | negation ht hp => exact .cons ht (by decide) (h.negated _ _ hp)
  | mk hp hq => exact (hp.tame h).append (hq.tame h)

theorem Binary.tame (least : Nat) (p : List Token) (e : Expr)
    (hp : Binary imported inner least p e) : Tame p := by
  induction hp with
  | operand hp => exact Operand.tame h _ _ hp
  | operator ht _ _ hq ih =>
    exact ih.append (.cons ht (by simp [Kind.blockWords]) (h.climb _ _ _ hq))

end Levels

theorem levels_tame (imported : List String) (room : Nat) : (levels imported room).Tame := by
  induction room with
  | zero => exact ⟨fun _ _ _ hp => hp.elim, fun _ _ hp => hp.elim⟩
  | succ room ih => exact ⟨Binary.tame ih, Operand.tame ih⟩

theorem Domain.sealed {p : List Token} {d : SchemaLang.Domain} (hp : Domain p d) : Sealed p := by
  have literal (p : List Token) (value : Literal) (hp : DomainLiteral p value) : Sealed p := by
    cases hp with
    | integer hk _ => exact .cons hk (by decide) .nil
    | float hk _ => exact .cons hk (by decide) .nil
    | string hk => exact .cons hk (by decide) .nil
    | symbol hk => exact .cons hk (by decide) .nil
    | boolean hk => exact .cons hk (by decide) .nil
  have bound {p : List Token} {b : SchemaLang.Bound} (hp : Bound p b) : Sealed p := by
    cases hp with
    | integer hk _ => exact .cons hk (by decide) .nil
    | float hk _ => exact .cons hk (by decide) .nil
    | infinity hk _ => exact .cons hk (by decide) .nil
    | negative hm hk _ => exact .cons hm (by decide) (.cons hk (by decide) .nil)
  cases hp with
  | values ho hp hc =>
    exact .cons ho (by decide) ((Items.sealed literal hp).append (.cons hc (by decide) .nil))
  | @range _ _ _ _ _ exclusive hp hd hq _ =>
    exact (bound hp).append (.cons hd (by cases exclusive <;> decide) (bound hq))

theorem Head.sealed {inArray : Bool} {p : List Token} {head : InputType × String}
    (hp : Head inArray p head) : Sealed p := by
  cases hp with
  | array hk hn => exact .cons hk (by decide) (.cons hn (by decide) .nil)
  | hash hk hn => exact .cons hk (by decide) (.cons hn (by decide) .nil)
  | primitive hk hn =>
    exact .cons hk (by simp [Kind.blockWords]) (.cons hn (by decide) .nil)
  | index hk hn => exact .cons hk (by decide) (.cons hn (by decide) .nil)
  | element hk hi _ hc hn =>
    have name := Sealed.cons hc (by decide) (.cons hn (by decide) .nil)
    exact .cons hk (by decide) (.cons hi (by decide) name)

theorem Options.sealed {type : InputType} {options options' : Reader.InputOptions} {p : List Token}
    (hp : Options type options p options') : Sealed p := by
  induction hp with
  | nil => exact .nil
  | cons hc hp _ ih =>
    refine .cons hc (by decide) ?_
    cases hp with
    | domain hl _ hp => exact .cons hl (by decide) (hp.sealed.append ih)
    | index _ hl _ hn => exact .cons hl (by decide) (.cons hn (by decide) ih)

theorem InputList.sealed {nested : Bool → Phrase (List Input)}
    (h : ∀ inArray p is, nested inArray p is → Sealed p) (inArray : Bool) (p : List Token)
    (is : List Input) (hp : InputList nested inArray p is) : Sealed p := by
  refine hp.1.closed .nil (fun _ _ => .append) fun _ _ hdecl => ?_
  obtain ⟨hp, hq, hr⟩ := hdecl
  refine (hp.sealed.append hq.sealed).append ?_
  cases hr with
  | none => exact .nil
  | some _ ho hb hc => exact .block ho (h _ _ _ hb) hc .nil

theorem inputs_sealed (room : Nat) (inArray : Bool) (p : List Token) (is : List Input)
    (hp : Inputs room inArray p is) : Sealed p := by
  induction room generalizing inArray p is with
  | zero => exact InputList.sealed (fun _ _ _ hp => hp.elim) inArray p is hp
  | succ room ih => exact InputList.sealed ih inArray p is hp

theorem Import.sealed (p : List Token) (i : SchemaLang.Import) (hp : Import p i) : Sealed p := by
  have name (p : List Token) (a : String) (hname : Name p a) : Sealed p := by
    obtain ⟨ht⟩ := hname
    exact .cons ht (by decide) .nil
  obtain ⟨ht, hp, _, hl, _, hc⟩ := hp
  have source := Sealed.cons hl (by decide) (.cons hc (by decide) .nil)
  exact .cons ht (by decide) ((hp.sealed name).append source)

section Declarations

variable {expr : Phrase Expr} (h : ∀ p e, expr p e → Tame p)

include h

theorem Case.tame (p : List Token) (c : Expr × Expr) (hp : Case expr p c) : Tame p := by
  have conditions {p : List Token} {es : List Expr} (hp : Conditions expr p es) : Tame p := by
    induction hp with
    | one hp hc => exact (h _ _ hp).append (.cons hc (by decide) .nil)
    | cons hp hc _ ih => exact (h _ _ hp).append (.cons hc (by decide) ih)
  cases hp with
  | on ht hp hq =>
    obtain ⟨es, hes, rfl⟩ := hp.exists_map
    exact .cons ht (by decide) ((conditions hes).append (h _ _ hq))
  | base ht hp => exact .cons ht (by decide) (h _ _ hp)

theorem Body.declared {t name : Token} {p : List Token} {e : Expr} (hhead : Sealed [t, name])
    (hp : Body expr p e) : Declared (t :: name :: p) := by
  cases hp with
  | expression hc hp => exact .flat hhead hc (h _ _ hp)
  | cascade ho hp hc =>
    exact .cascade hhead ho (hp.closed .nil (fun _ _ => .append) (Case.tame h)) hc

theorem Declaration.declared (p : List Token) (d : Reader.Declaration)
    (hp : Declaration expr p d) : Declared p := by
  cases hp with
  | value ht hn hp => exact hp.declared h (.cons ht (by decide) (.cons hn (by decide) .nil))
  | letValue ht hn hp => exact hp.declared h (.cons ht (by decide) (.cons hn (by decide) .nil))
  | trait ht hn hc hp =>
    exact .flat (.cons ht (by decide) (.cons hn (by decide) .nil)) hc (h _ _ hp)

end Declarations

/-- A schema holds neither comments nor tokens for the end. -/
theorem schema_plain (limit : Nat) (p : List Token) (s : SchemaLang.Schema)
    (hp : Schema limit p s) :
    AllPlain p := by
  obtain @⟨t, opening, closing, p, q, r, imports, inputs, decls, values, traits, ht, ho, hp, hq, hr,
    hc, _⟩ := hp
  have expr := (levels_tame (imports.flatMap Import.names) limit).climb 0
  have imports : AllPlain p :=
    (hp.closed Sealed.nil (fun _ _ => .append) Import.sealed).plain
  have inputs : AllPlain q := by
    obtain ⟨hk, ho, hp, hc⟩ := hq
    simpa [Token.Plain, hk, ho, hc] using (inputs_sealed _ _ _ _ hp).plain
  have decls : AllPlain r :=
    hr.closed allPlain_nil (fun _ _ hp hq => allPlain_append.mpr ⟨hp, hq⟩)
      fun p d hp => (Declaration.declared expr p d hp).plain
  simpa [Token.Plain, ht, ho, hc] using ⟨imports, inputs, decls⟩

end Grammar

end SchemaLang
