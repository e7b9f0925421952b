import SchemaLang.Proofs.ErrorPosition

namespace SchemaLang

namespace Reader

/-- Of the tokens at hand, a reading that takes every phrase leaves room for only one phrase. -/
theorem Takes.unique {α : Type} {G : Phrase α} {after : List Token → Prop} {run : Reading α}
    (h : Takes G after run) {p q rest rest' : List Token} {a b : α} (hp : G p a) (hq : G q b)
    (hrest : after rest) (hrest' : after rest') (he : p ++ rest = q ++ rest') :
    a = b ∧ rest = rest' := by
  have first := h p a rest hp hrest
  have second := h q b rest' hq hrest'
  rw [he] at first
  exact Prod.mk.inj (Except.ok.inj (first.symm.trans second))

end Reader

namespace Grammar

/-- What stands before the declarations of a schema: its imports and its input block. -/
inductive Preamble (limit : Nat) : Phrase (List SchemaLang.Import × List Input)
  | mk {t opening : Token} {p q : List Token} {imports : List SchemaLang.Import}
    {inputs : List Input} : t.kind = .keyword .schema → opening.kind = .keyword .doWord →
    Many Import p imports → InputSection limit q inputs →
    Preamble limit (t :: opening :: p ++ q) (imports, inputs)

theorem InputSection.firstKind_ne {limit : Nat} {p rest : List Token} {inputs : List Input}
    (h : InputSection limit p inputs) : Reader.firstKind (p ++ rest) ≠ .keyword .importWord := by
  obtain ⟨ht, _, _, _⟩ := h
  exact ne_of_eq_of_ne ht (by decide)

/-- The tokens at hand start with only one preamble. -/
theorem Preamble.unique {limit : Nat} {p q rest rest' : List Token}
    {imports imports' : List SchemaLang.Import} {inputs inputs' : List Input}
    (hp : Preamble limit p (imports, inputs)) (hq : Preamble limit q (imports', inputs'))
    (he : p ++ rest = q ++ rest') :
    imports = imports' ∧ inputs = inputs' ∧ rest = rest' := by
  obtain @⟨_, _, p₁, p₂, _, _, _, _, himports, hinputs⟩ := hp
  obtain @⟨_, _, q₁, q₂, _, _, _, _, himports', hinputs'⟩ := hq
  have body : p₁ ++ (p₂ ++ rest) = q₁ ++ (q₂ ++ rest') := by
    simpa using (List.cons.inj (List.cons.inj he).2).2
  obtain ⟨sameImports, left⟩ := Reader.imports_takes.unique himports himports'
    hinputs.firstKind_ne hinputs'.firstKind_ne body
  obtain ⟨sameInputs, sameRest⟩ :=
    (Reader.inputSection_takes limit).unique hinputs hinputs' trivial trivial left
  exact ⟨sameImports, sameInputs, sameRest⟩

theorem Many.append {α : Type} {item : Phrase α} {p q : List Token} {as bs : List α}
    (hp : Many item p as) (hq : Many item q bs) : Many item (p ++ q) (as ++ bs) := by
  induction hp with
  | nil => exact hq
  | cons ha _ ih =>
    rw [List.append_assoc]
    exact .cons ha ih

/-- The declarations of a schema with the given imports. -/
def Declarations (limit : Nat) (imports : List SchemaLang.Import) :
    Phrase (List Reader.Declaration) :=
  Many (Declaration (Expression (imports.flatMap Import.names) limit))

/-- A schema is a preamble, declarations and the word that closes it. -/
theorem schema_iff_preamble {limit : Nat} {p : List Token} {closing : Token}
    {s : SchemaLang.Schema} (hc : closing.kind = .keyword .endWord) :
    Schema limit (p ++ [closing]) s ↔
      ∃ front r imports inputs decls, p = front ++ r ∧ Preamble limit front (imports, inputs) ∧
        Declarations limit imports r decls ∧ s = .ofParts imports inputs decls := by
  constructor
  · intro h
    generalize hts : p ++ [closing] = ts at h
    obtain @⟨t, opening, last, p₁, p₂, r, imports, inputs, decls, values, traits, ht, ho, hp₁, hp₂,
      hr, _, hsorted⟩ := h
    obtain ⟨rfl, rfl⟩ := sorted_iff.mp hsorted
    refine ⟨t :: opening :: p₁ ++ p₂, r, imports, inputs, decls, ?_, .mk ht ho hp₁ hp₂, hr, rfl⟩
    exact (List.append_inj' hts rfl).1
  · rintro ⟨front, r, imports, inputs, decls, rfl, hfront, hr, rfl⟩
    obtain ⟨ht, ho, hp, hq⟩ := hfront
    exact .of_parts ht ho hp hq hr hc

/-- If a preamble alone makes a schema, all that follows it in a longer one is declarations. -/
theorem Schema.declarations_of_preamble {limit : Nat} {front r : List Token} {closing : Token}
    {imports : List SchemaLang.Import} {inputs : List Input} {s : SchemaLang.Schema}
    (hc : closing.kind = .keyword .endWord) (hfront : Preamble limit front (imports, inputs))
    (h : Schema limit (front ++ r ++ [closing]) s) :
    ∃ decls, Declarations limit imports r decls ∧ s = .ofParts imports inputs decls := by
  obtain ⟨front', r', imports', inputs', decls, hsplit, hfront', hr', rfl⟩ :=
    (schema_iff_preamble hc).mp h
  obtain ⟨rfl, rfl, rfl⟩ := hfront.unique hfront' hsplit
  exact ⟨decls, hr', rfl⟩

end Grammar

namespace Schema

/-- A schema without values and traits has no declarations. -/
theorem eq_nil_of_ofParts {imports : List Import} {inputs : List Input}
    {decls : List Reader.Declaration} (hvalues : (ofParts imports inputs decls).values = [])
    (htraits : (ofParts imports inputs decls).traits = []) : decls = [] := by
  cases decls with
  | nil => rfl
  | cons d decls =>
    cases d with
    | value v => cases hvalues
    | trait t => cases htraits

theorem ofParts_append (imports : List Import) (inputs : List Input)
    (first second : List Reader.Declaration) :
    ofParts imports inputs (first ++ second) =
      ⟨inputs, (ofParts imports inputs first).values ++ (ofParts imports inputs second).values,
        (ofParts imports inputs first).traits ++ (ofParts imports inputs second).traits,
        imports⟩ := by
  simp only [ofParts, List.filterMap_append]

end Schema

/-- Two bodies that the grammar derives after the same head are derived one after the other. -/
theorem Grammar.Schema.append {limit : Nat} {head first second : List Token} {closing : Token}
    {s s₁ s₂ : SchemaLang.Schema} (hc : closing.kind = .keyword .endWord)
    (hhead : Grammar.Schema limit (head ++ [closing]) s) (hvalues : s.values = [])
    (htraits : s.traits = []) (h₁ : Grammar.Schema limit (head ++ first ++ [closing]) s₁)
    (h₂ : Grammar.Schema limit (head ++ second ++ [closing]) s₂) :
    Grammar.Schema limit (head ++ (first ++ second) ++ [closing])
      ⟨s.inputs, s₁.values ++ s₂.values, s₁.traits ++ s₂.traits, s.imports⟩ := by
  obtain ⟨front, r, imports, inputs, decls, rfl, hfront, hr, rfl⟩ :=
    (schema_iff_preamble hc).mp hhead
  obtain rfl := SchemaLang.Schema.eq_nil_of_ofParts hvalues htraits
  cases hr
  rw [List.append_nil] at h₁ h₂ ⊢
  obtain ⟨decls₁, hdecls₁, rfl⟩ := h₁.declarations_of_preamble hc hfront
  obtain ⟨decls₂, hdecls₂, rfl⟩ := h₂.declarations_of_preamble hc hfront
  refine (schema_iff_preamble hc).mpr ⟨front, first ++ second, imports, inputs,
    decls₁ ++ decls₂, rfl, hfront, hdecls₁.append hdecls₂, ?_⟩
  rw [SchemaLang.Schema.ofParts_append]
  rfl

section Tokens

theorem code_append (first second : List Token) :
    code (first ++ second) = code first ++ code second :=
  List.filter_append ..

/-- What stands after a token for the end does not count. -/
theorem body_append_of_mem {tokens : List Token} (h : ∃ t ∈ tokens, t.kind = .eof)
    (more : List Token) : (Tokens.ofList (tokens ++ more)).body = (Tokens.ofList tokens).body := by
  obtain ⟨t, ht, hk⟩ := h
  have kept : t ∈ code tokens := List.mem_filter.mpr ⟨ht, by simp [hk]⟩
  have cut : ((code tokens).takeWhile (·.kind ≠ .eof)).length ≠ (code tokens).length := by
    intro hlength
    have whole := (List.takeWhile_sublist _).eq_of_length hlength
    rw [← whole] at kept
    have plain := List.all_eq_true.mp List.all_takeWhile t kept
    simp [hk] at plain
  rw [body_ofList, body_ofList, code_append, List.takeWhile_append, if_neg cut]

/-- Tokens that are closed by a word and the token for the end lose their comments only. -/
theorem body_closed {tokens : List Token} {closing stop : Token}
    (hclosing : closing.kind = .keyword .endWord) (hstop : stop.kind = .eof)
    (h : ∀ t ∈ tokens, t.kind ≠ .eof) :
    (Tokens.ofList (tokens ++ [closing, stop])).body = code tokens ++ [closing] := by
  have inside : ∀ t ∈ tokens ++ [closing], t.kind ≠ .eof :=
    List.forall_mem_append.mpr ⟨h, by simp [hclosing]⟩
  obtain ⟨body, hcode, _, hlist⟩ := code_append_stop hstop inside
  have last : code [closing, stop] = [closing, stop] := by simp [code, hclosing, hstop]
  have whole : code (tokens ++ [closing] ++ [stop]) = code tokens ++ [closing] ++ [stop] := by
    rw [List.append_assoc, code_append]
    simp [last]
  have split : tokens ++ [closing, stop] = tokens ++ [closing] ++ [stop] := by simp
  rw [split, hlist]
  exact (List.append_inj' (hcode.symm.trans whole) rfl).1

end Tokens

namespace Schema

/-- Declarations are read independently of their siblings. If a head is accepted without values and
traits, and each of two bodies is accepted after it, then so are the two together, and the schema
has the values and the traits of the first before those of the second. -/
theorem ofTokensWithin_append {limit : Nat} {head first second : List Token}
    {closing stop : Token} {s s₁ s₂ : Schema} (hclosing : closing.kind = .keyword .endWord)
    (hstop : stop.kind = .eof) (hfirst : ∀ t ∈ first, t.kind ≠ .eof)
    (hsecond : ∀ t ∈ second, t.kind ≠ .eof)
    (hhead : ofTokensWithin limit (head ++ [closing, stop]) = .ok s)
    (hvalues : s.values = []) (htraits : s.traits = [])
    (h₁ : ofTokensWithin limit (head ++ first ++ [closing, stop]) = .ok s₁)
    (h₂ : ofTokensWithin limit (head ++ second ++ [closing, stop]) = .ok s₂) :
    ofTokensWithin limit (head ++ first ++ second ++ [closing, stop]) =
      .ok ⟨s.inputs, s₁.values ++ s₂.values, s₁.traits ++ s₂.traits, s.imports⟩ := by
  by_cases hend : ∃ t ∈ head, t.kind = .eof
  · -- the head ends by itself, and nothing after it is read
    have same (more : List Token) : ofTokensWithin limit (head ++ more) = .ok s := by
      rw [ofTokensWithin_eq_ok_iff, body_append_of_mem hend] at hhead ⊢
      exact hhead
    rw [List.append_assoc, same] at h₁ h₂
    cases h₁
    cases h₂
    rw [List.append_assoc, List.append_assoc, same, hvalues, htraits, List.append_nil,
      List.append_nil, ← hvalues, ← htraits]
  · have plain : ∀ t ∈ head, t.kind ≠ .eof := fun t ht hk => hend ⟨t, ht, hk⟩
    have body {ts : List Token} (hts : ∀ t ∈ ts, t.kind ≠ .eof) :
        (Tokens.ofList (head ++ ts ++ [closing, stop])).body =
          code head ++ code ts ++ [closing] := by
      rw [body_closed hclosing hstop (List.forall_mem_append.mpr ⟨plain, hts⟩), code_append]
    have both : ∀ t ∈ first ++ second, t.kind ≠ .eof :=
      List.forall_mem_append.mpr ⟨hfirst, hsecond⟩
    rw [ofTokensWithin_eq_ok_iff, Reader.schema_eq_ok_iff] at hhead h₁ h₂ ⊢
    rw [body_closed hclosing hstop plain] at hhead
    rw [body hfirst] at h₁
    rw [body hsecond] at h₂
    rw [List.append_assoc head, body both, code_append]
    exact Grammar.Schema.append hclosing hhead hvalues htraits h₁ h₂

/-- An import and an input, before any declarations. -/
def taxedHead : List Token :=
  [Reader.sample (.keyword .schema) "schema", Reader.sample (.keyword .doWord) "do",
    Reader.sample (.keyword .importWord) "import", Reader.sample .symbol "tax",
    Reader.sample .label "from", Reader.sample .constant "Shared::Tax",
    Reader.sample (.keyword .input) "input", Reader.sample (.keyword .doWord) "do",
    Reader.sample (.type (.primitive .integer)) "integer", Reader.sample .symbol "total",
    Reader.sample (.keyword .endWord) "end"]

/-- A value that calls the imported function and goes on with an operator. -/
def dueBody : List Token :=
  [Reader.sample (.keyword .value) "value", Reader.sample .symbol "due",
    Reader.sample (.mark .comma) ",", Reader.sample .identifier "tax",
    Reader.sample (.mark .leftParen) "(", Reader.sample .label "of",
    Reader.sample (.keyword .input) "input", Reader.sample (.mark .dot) ".",
    Reader.sample .identifier "total", Reader.sample (.mark .rightParen) ")",
    Reader.sample (.operator .add) "+", Reader.sample .integer "1",
    Reader.sample .comment "rounded up"]

/-- A trait, and a value by cases. -/
def casesBody : List Token :=
  [Reader.sample (.keyword .trait) "trait", Reader.sample .symbol "big",
    Reader.sample (.mark .comma) ",", Reader.sample (.keyword .input) "input",
    Reader.sample (.mark .dot) ".", Reader.sample .identifier "total",
    Reader.sample (.operator .gt) ">", Reader.sample .integer "9",
    Reader.sample (.keyword .letWord) "let", Reader.sample .symbol "rate",
    Reader.sample (.keyword .doWord) "do", Reader.sample (.keyword .on) "on",
    Reader.sample .symbol "big", Reader.sample (.mark .comma) ",", Reader.sample .integer "2",
    Reader.sample (.keyword .base) "base", Reader.sample .integer "1",
    Reader.sample (.keyword .endWord) "end"]

def closers : List Token := [Reader.sample (.keyword .endWord) "end", Reader.sample .eof ""]

theorem dueBody_casesBody_read :
    ∃ s s₁ s₂, ofTokens (taxedHead ++ closers) = .ok s ∧
      ofTokens (taxedHead ++ dueBody ++ closers) = .ok s₁ ∧
      ofTokens (taxedHead ++ casesBody ++ closers) = .ok s₂ ∧
      (s₁.values.map Value.name, s₂.values.map Value.name, s₂.traits.map Trait.name) =
        (["due"], ["rate"], ["big"]) ∧
      ofTokens (taxedHead ++ dueBody ++ casesBody ++ closers) =
        .ok ⟨s.inputs, s₁.values ++ s₂.values, s₁.traits ++ s₂.traits, s.imports⟩ := by
  obtain ⟨s, h, hempty⟩ := exists_ok_of_map (ofTokens (taxedHead ++ closers))
    (fun s => (s.values.isEmpty, s.traits.isEmpty)) (true, true) (by decide +kernel)
  obtain ⟨s₁, h₁, hdue⟩ := exists_ok_of_map (ofTokens (taxedHead ++ dueBody ++ closers))
    (fun s => s.values.map Value.name) ["due"] (by decide +kernel)
  obtain ⟨s₂, h₂, hcases⟩ := exists_ok_of_map (ofTokens (taxedHead ++ casesBody ++ closers))
    (fun s => (s.values.map Value.name, s.traits.map Trait.name)) (["rate"], ["big"])
    (by decide +kernel)
  obtain ⟨hvalues, htraits⟩ := Prod.mk.inj hempty
  refine ⟨s, s₁, s₂, h, h₁, h₂, Prod.ext hdue hcases, ?_⟩
  exact ofTokensWithin_append rfl rfl (by decide) (by decide) h
    (List.isEmpty_iff.mp hvalues) (List.isEmpty_iff.mp htraits) h₁ h₂

end Schema

end SchemaLang
