import SchemaLang.Proofs.Complete.Expr
import SchemaLang.Proofs.Complete.Input
import SchemaLang.Proofs.Predictive.Schema

namespace SchemaLang.Reader

open Reading

theorem importNames_takes {p : List Token} {names : List String}
    (hp : Grammar.Items Grammar.Name p names) (hne : names ≠ []) {rest : List Token}
    (hrest : firstKind rest = .label) :
    ∃ t q more, p = t :: q ∧ t.kind = .symbol ∧ names = t.raw :: more ∧
      reading importNames (q ++ rest) = .ok (more, rest) := by
  induction hp with
  | nil => exact absurd rfl hne
  | last hp =>
    obtain @⟨t, ht⟩ := hp
    refine ⟨t, [], [], rfl, ht, rfl, ?_⟩
    rw [reading_importNames]
    exact ifNext_of_ne (by rw [List.nil_append, hrest]; decide)
  | @cons p p' a as comma hp hc hmany ih =>
    obtain @⟨t, ht⟩ := hp
    refine ⟨t, comma :: p', as, rfl, ht, rfl, ?_⟩
    rw [List.cons_append, reading_importNames, ifNext_of_eq hc, look_bind]
    by_cases has : as = []
    · subst has
      cases hmany
      rw [List.nil_append, if_pos hrest]
      rfl
    · obtain ⟨u, q, more, rfl, hu, rfl, read⟩ := ih has
      have symbol : firstKind (u :: (q ++ rest)) ≠ .label := ne_of_eq_of_ne hu (by decide)
      rw [List.cons_append, if_neg symbol, bind_of_ok (symbol_of_kind hu _), bind_of_ok read]
      rfl

theorem imports_takes :
    Takes (Grammar.Many Grammar.Import) (fun rest => firstKind rest ≠ .keyword .importWord)
      (reading imports) := by
  intro p is rest hp hrest
  induction hp with
  | nil =>
    rw [reading_imports]
    exact ifNext_of_ne hrest
  | @cons p q i is hp _ ih =>
    obtain @⟨t, label, source, p, names, ht, hp, hne, hl, hf, hc⟩ := hp
    have first : firstKind (label :: source :: (q ++ rest)) = .label := hl
    obtain ⟨u, p', more, rfl, hu, rfl, read⟩ := importNames_takes hp hne first
    have fromLabel : reading fromLabel (label :: source :: (q ++ rest)) =
        .ok ((), source :: (q ++ rest)) := by
      rw [reading_fromLabel, take_of_ok (if_pos ⟨hl, hf⟩)]
      rfl
    have path : reading modulePath (source :: (q ++ rest)) = .ok (source.raw, q ++ rest) := by
      rw [reading_modulePath, take_of_ok (if_pos hc)]
      rfl
    simp only [List.cons_append, List.append_assoc, List.nil_append]
    rw [reading_imports, ifNext_of_eq ht, bind_of_ok (symbol_of_kind hu _), bind_of_ok read,
      bind_of_ok fromLabel, bind_of_ok path, bind_of_ok ih]
    rfl

theorem inputSection_takes (limit : Nat) :
    Takes (Grammar.InputSection limit) (fun _ => True) (reading (inputSection limit)) := by
  intro _ is rest hsection _
  obtain @⟨t, opening, closing, p, _, ht, ho, hp, hc⟩ := hsection
  have read := inputs_takes limit none p is (closing :: rest) hp hc
  simp only [List.cons_append, List.append_assoc, List.nil_append]
  rw [reading_inputSection, bind_of_ok (expect_of_kind ht _), bind_of_ok (expect_of_kind ho _),
    bind_of_ok read, bind_of_ok (expect_of_kind hc _)]
  rfl

section Declarations

variable {E : Phrase Expr} {expr : Reader Expr}

/-- Conditions and the result after them are an expression and further ones. -/
theorem conditions_takes (he : Takes E (Free 0) (reading expr)) {p q : List Token}
    {conditions : List Expr} {result : Expr} (hp : Grammar.Conditions E p conditions)
    (hq : E q result) {rest : List Token} (hrest : Free 0 rest)
    (hcomma : firstKind rest ≠ .mark .comma) :
    ∃ first more mid, reading expr (p ++ (q ++ rest)) = .ok (first, mid) ∧
      reading (moreExpressions expr) mid = .ok (more ++ [result], rest) ∧
      conditions = first :: more := by
  have free {comma : Token} (hc : comma.kind = .mark .comma) (us : List Token) :
      Free 0 (comma :: us) := free_of_closes (by rw [hc]; rfl) us
  induction hp with
  | @one p e comma hp hc =>
    refine ⟨e, [], comma :: (q ++ rest), ?_, ?_, rfl⟩
    · rw [List.append_assoc]
      exact he p e _ hp (free hc _)
    · have stop : reading (moreExpressions expr) rest = .ok ([], rest) := by
        rw [reading_moreExpressions]
        exact ifNext_of_ne hcomma
      rw [reading_moreExpressions, ifNext_of_eq hc, bind_of_ok (he q result rest hq hrest),
        bind_of_ok stop]
      rfl
  | @cons p p' e es comma hp hc _ ih =>
    obtain ⟨first, more, mid, hfirst, hmore, rfl⟩ := ih
    refine ⟨e, first :: more, comma :: (p' ++ (q ++ rest)), ?_, ?_, rfl⟩
    · rw [List.append_assoc]
      exact he p e _ hp (free hc _)
    · rw [reading_moreExpressions, ifNext_of_eq hc, bind_of_ok hfirst, bind_of_ok hmore]
      rfl

/-- The words that may follow a case or a declaration end the expression before them. -/
theorem free_of_keyword {rest : List Token} {word : Keyword}
    (h : firstKind rest = .keyword word) : Free 0 rest ∧ firstKind rest ≠ .mark .comma := by
  cases rest with
  | nil => cases h
  | cons t rest =>
    have kind : t.kind = .keyword word := h
    exact ⟨free_of_closes (by rw [kind]; rfl) rest, by rw [h]; simp⟩

theorem caseList_takes (he : Takes E (Free 0) (reading expr)) {p : List Token}
    {cases : List (Expr × Expr)} (hp : Grammar.Many (Grammar.Case E) p cases) {closing : Token}
    (hc : closing.kind = .keyword .endWord) (rest : List Token) :
    reading (caseList expr) (p ++ closing :: rest) = .ok (cases, rest) := by
  induction hp with
  | nil =>
    rw [reading_caseList, List.nil_append]
    simp only [take, caseStep, hc]
    rfl
  | @cons p q c cs hp hq ih =>
    have after : ∃ word, firstKind (q ++ closing :: rest) = .keyword word := by
      cases hq with
      | nil => exact ⟨_, hc⟩
      | cons hcase _ =>
        cases hcase with
        | on ht _ _ => exact ⟨_, ht⟩
        | base ht _ => exact ⟨_, ht⟩
    obtain ⟨word, hword⟩ := after
    obtain ⟨hfree, hcomma⟩ := free_of_keyword hword
    rw [reading_caseList, List.append_assoc]
    cases hp with
    | @on t p₁ p₂ conditions result ht hconds hp₂ =>
      obtain ⟨conditions, hp₁, rfl⟩ := hconds.exists_map
      obtain ⟨first, more, mid, hfirst, hmore, rfl⟩ := conditions_takes he hp₁ hp₂ hfree hcomma
      have read : reading (onCase expr) (p₁ ++ (p₂ ++ (q ++ closing :: rest))) =
          .ok ((.apply "cascade_and" ((first :: more).map condition), result),
            q ++ closing :: rest) := by
        rw [reading_onCase, bind_of_ok hfirst, bind_of_ok hmore]
        simp only [List.getLast?_concat, List.dropLast_concat]
        rfl
      simp only [List.cons_append, List.append_assoc, take, caseStep, ht]
      rw [bind_of_ok read, bind_of_ok ih]
      rfl
    | @base t p result ht hp =>
      simp only [List.cons_append, take, caseStep, ht]
      rw [bind_of_ok (he p result _ hp hfree), bind_of_ok ih]
      rfl

theorem valueBody_takes (he : Takes E (Free 0) (reading expr)) (name : String) :
    Takes (Grammar.Body E) (Free 0) (reading (valueBody expr name)) := by
  intro p e rest hp hrest
  rw [reading_valueBody]
  cases hp with
  | @expression comma p e hc hp =>
    simp only [List.cons_append, take, valueStep, hc]
    exact he p e rest hp hrest
  | @cascade opening closing p cases ho hp hc =>
    simp only [List.cons_append, List.append_assoc, List.nil_append, take, valueStep, ho]
    rw [bind_of_ok (caseList_takes he hp hc rest)]
    rfl

/-- What follows the word of a declaration is read as that declaration. -/
theorem declaration_takes (he : Takes E (Free 0) (reading expr)) {p : List Token}
    {d : Declaration} (hp : Grammar.Declaration E p d) {rest : List Token} (hrest : Free 0 rest) :
    ∃ t q body, p = t :: q ∧ t.kind ≠ .keyword .endWord ∧ declaration expr t = .ok body ∧
      reading body (q ++ rest) = .ok (d, rest) := by
  cases hp with
  | @value t name p e ht hn hp =>
    refine ⟨t, name :: p, value expr false t.location, rfl, by rw [ht]; decide, ?_, ?_⟩
    · simp only [declaration, ht]
    · rw [reading_value, List.cons_append, bind_of_ok (symbol_of_kind hn _),
        bind_of_ok (valueBody_takes he name.raw p e rest hp hrest)]
      rfl
  | @letValue t name p e ht hn hp =>
    refine ⟨t, name :: p, value expr true t.location, rfl, by rw [ht]; decide, ?_, ?_⟩
    · simp only [declaration, ht]
    · rw [reading_value, List.cons_append, bind_of_ok (symbol_of_kind hn _),
        bind_of_ok (valueBody_takes he name.raw p e rest hp hrest)]
      rfl
  | @trait t name comma p e ht hn hc hp =>
    refine ⟨t, name :: comma :: p, trait expr t.location, rfl, by rw [ht]; decide, ?_, ?_⟩
    · simp only [declaration, ht]
    · rw [reading_trait, List.cons_append, List.cons_append, bind_of_ok (symbol_of_kind hn _),
        bind_of_ok (expect_of_kind hc _), bind_of_ok (he p e rest hp hrest)]
      rfl

theorem declarations_takes (he : Takes E (Free 0) (reading expr)) {p : List Token}
    {decls : List Declaration} (hp : Grammar.Many (Grammar.Declaration E) p decls)
    {closing : Token} (hc : closing.kind = .keyword .endWord) (rest : List Token) :
    reading (declarations expr) (p ++ closing :: rest) = .ok (decls, rest) := by
  induction hp with
  | nil =>
    rw [reading_declarations, List.nil_append, take_of_ok (if_pos hc)]
    rfl
  | @cons p q d ds hp hq ih =>
    have after : ∃ word, firstKind (q ++ closing :: rest) = .keyword word := by
      cases hq with
      | nil => exact ⟨_, hc⟩
      | cons hd _ =>
        cases hd with
        | value ht _ _ => exact ⟨_, ht⟩
        | letValue ht _ _ => exact ⟨_, ht⟩
        | trait ht _ _ _ => exact ⟨_, ht⟩
    obtain ⟨word, hword⟩ := after
    obtain ⟨t, p, body, rfl, hend, hbody, read⟩ :=
      declaration_takes he hp (free_of_keyword hword).1
    have step : declarationStep expr t = .ok (do
        let d ← reading body
        let ds ← reading (declarations expr)
        pure (d :: ds)) := by
      rw [declarationStep, if_neg hend, hbody]
      rfl
    rw [reading_declarations, List.append_assoc, List.cons_append, take_of_ok step,
      bind_of_ok read, bind_of_ok ih]
    rfl

end Declarations

/-- The reader of schemas takes the phrases of the grammar of as many levels. -/
theorem schemaReading_of_schema {limit : Nat} {p : List Token} {s : Schema}
    (hp : Grammar.Schema limit p s) : schemaReading limit p = .ok (s, []) := by
  obtain @⟨t, opening, closing, p, q, r, imports, inputs, decls, values, traits, ht, ho, hp, hq, hr,
    hc, hsorted⟩ := hp
  have between : firstKind (q ++ (r ++ [closing])) ≠ .keyword .importWord := by
    obtain ⟨hk, _, _, _⟩ := hq
    exact ne_of_eq_of_ne hk (by decide)
  have expr : Takes (Grammar.Expression (imports.flatMap Import.names) limit) (Free 0)
      (reading (expression (imports.flatMap Import.names) limit)) :=
    (levels_takes _ limit).expression
  simp only [List.cons_append, List.append_assoc]
  rw [schemaReading, bind_of_ok (expect_of_kind ht _), bind_of_ok (expect_of_kind ho _),
    bind_of_ok (imports_takes p imports _ hp between),
    bind_of_ok (inputSection_takes limit q inputs _ hq trivial),
    bind_of_ok (declarations_takes expr hr hc [])]
  obtain ⟨rfl, rfl⟩ := Grammar.sorted_iff.mp hsorted
  rfl

end SchemaLang.Reader
