import SchemaLang.Proofs.Predictive.Expr
import SchemaLang.Proofs.Predictive.Input
import SchemaLang.Proofs.Reading.Schema

namespace SchemaLang.Reader

open Reading

variable {roomy : Prop}

theorem predicts_importNames (ts : List Token) :
    Predicts roomy (fun p names => ∀ t : Token, t.kind = .symbol →
      Grammar.Items Grammar.Name (t :: p) (t.raw :: names)) (reading importNames) ts := by
  induction hn : ts.length using Nat.strongRecOn generalizing ts with
  | ind n ih =>
    rw [reading_importNames]
    refine Predicts.ifNext ?_ fun _ => Predicts.pure fun t ht => .last (.mk ht)
    intro comma rest hts hc
    subst hts
    have trailing (t : Token) (ht : t.kind = .symbol) :
        Grammar.Items Grammar.Name (t :: [comma]) [t.raw] :=
      Grammar.Items.cons (Grammar.Name.mk ht) hc .nil
    apply Predicts.look firstKind_congr
    split
    · exact Predicts.pure trailing
    · have more {t u : Token} {p : List Token} {names : List String} (ht : t.kind = .symbol)
          (hp : Grammar.Items Grammar.Name (u :: p) (u.raw :: names)) :
          Grammar.Items Grammar.Name (t :: comma :: u :: p) (t.raw :: u.raw :: names) :=
        Grammar.Items.cons (Grammar.Name.mk ht) hc hp
      apply Predicts.symbol
      · intro u rest' hrest hu
        subst hrest
        apply (ih rest'.length (by simp at hn; omega) rest' rfl).map
        intro p names hp t ht
        exact more ht (hp u hu)
      · intro _ u hu
        exact ⟨[], _, fun t ht => more ht (.last (.mk hu))⟩

theorem predicts_fromLabel (ts : List Token) :
    Predicts roomy (Single fun t _ => t.kind = .label ∧ t.raw = "from") (reading fromLabel) ts := by
  rw [reading_fromLabel]
  apply predicts_single ⟨sample .label "from", (), rfl, rfl⟩
  intro t next hs
  split at hs
  · next hf => cases hs; exact ⟨(), rfl, hf⟩
  · cases hs

theorem predicts_modulePath (ts : List Token) :
    Predicts roomy (Single fun t source => t.kind = .constant ∧ source = t.raw)
      (reading modulePath) ts := by
  rw [reading_modulePath]
  apply predicts_single ⟨sample .constant "", _, rfl, rfl⟩
  intro t next hs
  split at hs
  · next hk => cases hs; exact ⟨t.raw, rfl, hk, rfl⟩
  · cases hs

theorem predicts_imports (ts : List Token) :
    Predicts roomy (Grammar.Many Grammar.Import) (reading imports) ts := by
  induction hn : ts.length using Nat.strongRecOn generalizing ts with
  | ind n ih =>
    rw [reading_imports]
    refine Predicts.ifNext ?_ fun _ => Predicts.pure .nil
    intro t rest hts ht
    subst hts
    have one {p : List Token} {names : List String} {name label source : Token}
        (hname : name.kind = .symbol)
        (hp : ∀ t : Token, t.kind = .symbol →
          Grammar.Items Grammar.Name (t :: p) (t.raw :: names))
        (hl : label.kind = .label) (hf : label.raw = "from") (hc : source.kind = .constant) :
        Grammar.Import (t :: (name :: p) ++ [label, source])
          ⟨name.raw :: names, source.raw, t.location⟩ :=
      .mk ht (hp name hname) (List.cons_ne_nil _ _) hl hf hc
    have alone {p : List Token} {i : Import} (hp : Grammar.Import p i) :
        Grammar.Many Grammar.Import p [i] := by
      simpa using Grammar.Many.cons hp .nil
    apply Predicts.symbol
    · intro name rest₁ hrest hname
      subst hrest
      apply Predicts.bind (predicts_importNames rest₁)
      · intro names p rest₂ _ hread₁ hp
        apply (predicts_fromLabel rest₂).bind_single
        · intro label _ rest₃ hrest₂ hl
          subst hrest₂
          apply (predicts_modulePath rest₃).bind_single
          · intro source path rest₄ hrest₃ hpath
            subst hrest₃
            obtain ⟨hc, rfl⟩ := hpath
            have shorter := reading_length hread₁
            have more := ih rest₄.length (by simp at hn shorter; omega) rest₄ rfl
            apply more.map
            intro q is hq
            simpa using Grammar.Many.cons (one hname hp hl.1 hl.2 hc) hq
          · intro _ source path hpath
            obtain ⟨hc, rfl⟩ := hpath
            exact ⟨[], _, by simpa using alone (one hname hp hl.1 hl.2 hc)⟩
        · intro _ label _ hl
          exact ⟨[sample .constant ""], _, by simpa using alone (one hname hp hl.1 hl.2 rfl)⟩
      · intro _ p names hp
        exact ⟨[sample .label "from", sample .constant ""], _,
          by simpa using alone (one hname hp rfl rfl rfl)⟩
    · intro _ name hname
      exact ⟨[sample .label "from", sample .constant ""], _,
        alone (one hname (fun t ht => .last (.mk ht)) rfl rfl rfl)⟩

theorem predicts_inputSection {limit limit' : Nat}
    (h : NestedPredicts roomy (Grammar.Inputs limit') (inputs limit)) (ts : List Token) :
    Predicts roomy (Grammar.InputSection limit') (reading (inputSection limit)) ts := by
  have nothing : Grammar.Inputs limit' false [] [] := by
    cases limit' <;> exact ⟨.nil, by simp⟩
  rw [reading_inputSection]
  apply Predicts.expect
  · intro t rest _ ht
    apply Predicts.expect
    · intro opening rest' _ ho
      apply Predicts.bind (h none rest')
      · intro is p rest'' _ _ hp
        apply Predicts.close
        intro closing hc
        exact .mk ht ho hp hc
      · intro _ p is hp
        exact ⟨[sample (.keyword .endWord) ""], _, .mk ht ho hp rfl⟩
    · intro _ opening ho
      exact ⟨[sample (.keyword .endWord) ""], _, .mk ht ho nothing rfl⟩
  · intro _ t ht
    exact ⟨[sample (.keyword .doWord) "", sample (.keyword .endWord) ""], _,
      .mk ht rfl nothing rfl⟩

/-- Items up to the word that ends their block. -/
def Ended {α : Type} (item : Phrase α) : Phrase (List α) := fun ts as =>
  ∃ p t, ts = p ++ [t] ∧ t.kind = .keyword .endWord ∧ Grammar.Many item p as

theorem Ended.cons {α : Type} {item : Phrase α} {p q : List Token} {a : α} {as : List α}
    (hp : item p a) (hq : Ended item q as) : Ended item (p ++ q) (a :: as) := by
  obtain ⟨q, t, rfl, ht, hq⟩ := hq
  exact ⟨p ++ q, t, (List.append_assoc ..).symm, ht, .cons hp hq⟩

theorem exists_ended {α : Type} (item : Phrase α) :
    Ended item [sample (.keyword .endWord) ""] [] :=
  ⟨[], _, rfl, rfl, .nil⟩

section Declarations

variable {E : Phrase Expr} {expr : Reader Expr}

/-- Expressions, each after a comma. -/
inductive AfterComma (E : Phrase Expr) : Phrase Expr
  | mk {comma : Token} {p : List Token} {e : Expr} :
    comma.kind = .mark .comma → E p e → AfterComma E (comma :: p) e

theorem predicts_moreExpressions (he : ∀ ts, Predicts roomy E (reading expr) ts)
    (ts : List Token) :
    Predicts roomy (Grammar.Many (AfterComma E)) (reading (moreExpressions expr)) ts := by
  induction hn : ts.length using Nat.strongRecOn generalizing ts with
  | ind n ih =>
    rw [reading_moreExpressions]
    refine Predicts.ifNext ?_ fun _ => Predicts.pure .nil
    intro comma rest hts hc
    subst hts
    apply Predicts.bind (he rest)
    · intro e p rest' _ hread hp
      have shorter := reading_length hread
      apply (ih rest'.length (by simp at hn; omega) rest' rfl).map
      intro q es hq
      exact .cons (.mk hc hp) hq
    · intro _ p e hp
      exact ⟨[], _, by simpa using Grammar.Many.cons (AfterComma.mk hc hp) .nil⟩

/-- Of expressions with commas between them, all but the last are conditions. -/
theorem exists_conditions {p q : List Token} {first result : Expr} {more : List Expr}
    (hp : E p first) (hq : Grammar.Many (AfterComma E) q more) (hr : more.getLast? = some result) :
    ∃ c r, p ++ q = c ++ r ∧ Grammar.Conditions E c (first :: more.dropLast) ∧ E r result := by
  induction hq generalizing p first with
  | nil => cases hr
  | @cons q₁ q₂ e es he hes ih =>
    obtain @⟨comma, q₁, _, hc, he⟩ := he
    cases hes with
    | nil =>
      cases hr
      exact ⟨p ++ [comma], q₁, by simp, .one hp hc, he⟩
    | @cons q₂ q₃ e' es he' hes =>
      obtain ⟨c, r, hcr, hcond, hres⟩ := ih he (by simpa using hr)
      refine ⟨p ++ comma :: c, r, ?_, .cons hp hc hcond, hres⟩
      simpa using hcr

theorem predicts_onCase (he : ∀ ts, Predicts roomy E (reading expr) ts)
    (hroom : roomy → ∃ s e, E s e) {t : Token} (ht : t.kind = .keyword .on) (ts : List Token) :
    Predicts roomy (fun p c => Grammar.Case E (t :: p) c) (reading (onCase expr)) ts := by
  have completed (hroomy : roomy) {p : List Token} {e : Expr} (hp : E p e) :
      ∃ s c, Grammar.Case E (t :: (p ++ s)) c := by
    obtain ⟨s, e', hs⟩ := hroom hroomy
    have comma : (sample (.mark .comma) "").kind = .mark .comma := rfl
    have case := Grammar.Case.on ht (Grammar.Conditions.one hp comma).conditions hs
    exact ⟨sample (.mark .comma) "" :: s, _, by simpa using case⟩
  rw [reading_onCase]
  refine Predicts.bind (he ts) ?_ fun hroomy p e hp => completed hroomy hp
  intro first p rest _ _ hp
  have case {q : List Token} {more : List Expr} {result : Expr}
      (hq : Grammar.Many (AfterComma E) q more) (hr : more.getLast? = some result) :
      Grammar.Case E (t :: (p ++ q))
        (.apply "cascade_and" ((first :: more.dropLast).map condition), result) := by
    obtain ⟨c, r, hcr, hcond, hres⟩ := exists_conditions hp hq hr
    rw [hcr]
    exact .on ht hcond.conditions hres
  apply Predicts.bind (predicts_moreExpressions he rest)
  · intro more q rest' _ _ hq
    cases hr : more.getLast? with
    | none =>
      cases List.getLast?_eq_none_iff.mp hr
      cases hq
      exact Predicts.refuse fun hroomy => by simpa using completed hroomy hp
    | some result =>
      apply Predicts.pure
      simpa using case hq hr
  · intro hroomy q more hq
    cases hr : more.getLast? with
    | none =>
      cases List.getLast?_eq_none_iff.mp hr
      cases hq
      simpa using completed hroomy hp
    | some result => exact ⟨[], _, by simpa using case hq hr⟩

theorem predicts_caseList (he : ∀ ts, Predicts roomy E (reading expr) ts)
    (hroom : roomy → ∃ s e, E s e) (ts : List Token) :
    Predicts roomy (Ended (Grammar.Case E)) (reading (caseList expr)) ts := by
  induction hn : ts.length using Nat.strongRecOn generalizing ts with
  | ind n ih =>
    rw [reading_caseList]
    refine Predicts.take (fun _ => ⟨_, _, exists_ended _⟩) ?_
    intro t rest next hts hs
    subst hts
    have more {c : Expr × Expr} {p rest' : List Token} (hp : Grammar.Case E (t :: p) c)
        (hlen : rest'.length < rest.length) :
        Predicts roomy (fun q cs => Ended (Grammar.Case E) (t :: (p ++ q)) cs) (do
          let cs ← reading (caseList expr)
          pure (c :: cs)) rest' := by
      apply (ih rest'.length (by simp at hn; omega) rest' rfl).map
      intro q cs hq
      exact Ended.cons hp hq
    rw [caseStep] at hs
    split at hs
    · next hk =>
      cases hs
      apply Predicts.bind (predicts_onCase he hroom hk rest)
      · intro c p rest' _ hread hp
        exact more hp (reading_length hread)
      · intro _ p c hp
        exact ⟨_, _, Ended.cons hp (exists_ended _)⟩
    · next hk =>
      cases hs
      apply Predicts.bind (he rest)
      · intro result p rest' _ hread hp
        exact more (.base hk hp) (reading_length hread)
      · intro _ p result hp
        exact ⟨_, _, Ended.cons (Grammar.Case.base hk hp) (exists_ended _)⟩
    · next hk =>
      cases hs
      exact Predicts.pure ⟨[], t, rfl, hk, .nil⟩
    · cases hs

theorem predicts_valueBody (he : ∀ ts, Predicts roomy E (reading expr) ts)
    (hroom : roomy → ∃ s e, E s e) (name : String) (ts : List Token) :
    Predicts roomy (Grammar.Body E) (reading (valueBody expr name)) ts := by
  have cascade {opening : Token} (ho : opening.kind = .keyword .doWord) {p : List Token}
      {cases : List (Expr × Expr)} (hp : Ended (Grammar.Case E) p cases) :
      Grammar.Body E (opening :: p) (.cascade cases) := by
    obtain ⟨p, closing, rfl, hc, hp⟩ := hp
    exact .cascade ho hp hc
  rw [reading_valueBody]
  refine Predicts.take (fun _ => ?_) ?_
  · exact ⟨sample (.keyword .doWord) "" :: _, _, cascade rfl (exists_ended _)⟩
  intro t rest next _ hs
  rw [valueStep] at hs
  split at hs
  · next hk =>
    cases hs
    exact (he rest).mono fun p e hp => .expression hk hp
  · next hk =>
    cases hs
    apply (predicts_caseList he hroom rest).map
    intro p cases hp
    exact cascade hk hp
  · cases hs

theorem exists_body (E : Phrase Expr) :
    Grammar.Body E [sample (.keyword .doWord) "", sample (.keyword .endWord) ""] (.cascade []) :=
  .cascade rfl .nil rfl

theorem predicts_value (he : ∀ ts, Predicts roomy E (reading expr) ts)
    (hroom : roomy → ∃ s e, E s e) {t : Token} {inline : Bool}
    (ht : ∀ (name : Token) (p : List Token) (e : Expr), name.kind = .symbol → Grammar.Body E p e →
      Grammar.Declaration E (t :: name :: p) (.value ⟨name.raw, e, inline, t.location⟩))
    (ts : List Token) :
    Predicts roomy (fun p d => Grammar.Declaration E (t :: p) d)
      (reading (value expr inline t.location)) ts := by
  rw [reading_value]
  apply Predicts.symbol
  · intro name rest _ hn
    apply (predicts_valueBody he hroom name.raw rest).map
    intro p e hp
    exact ht name p e hn hp
  · intro _ name hn
    exact ⟨_, _, ht name _ _ hn (exists_body E)⟩

theorem predicts_trait (he : ∀ ts, Predicts roomy E (reading expr) ts)
    (hroom : roomy → ∃ s e, E s e) {t : Token} (ht : t.kind = .keyword .trait)
    (ts : List Token) :
    Predicts roomy (fun p d => Grammar.Declaration E (t :: p) d)
      (reading (trait expr t.location)) ts := by
  rw [reading_trait]
  apply Predicts.symbol
  · intro name rest _ hn
    apply Predicts.expect
    · intro comma rest' _ hc
      apply (he rest').map
      intro p e hp
      exact .trait ht hn hc hp
    · intro hroomy comma hc
      obtain ⟨s, e, hs⟩ := hroom hroomy
      exact ⟨s, _, .trait ht hn hc hs⟩
  · intro hroomy name hn
    obtain ⟨s, e, hs⟩ := hroom hroomy
    exact ⟨sample (.mark .comma) "" :: s, _, .trait ht hn rfl hs⟩

theorem predicts_declaration (he : ∀ ts, Predicts roomy E (reading expr) ts)
    (hroom : roomy → ∃ s e, E s e) {t : Token} {body : Reader Declaration}
    (hb : declaration expr t = .ok body) (ts : List Token) :
    Predicts roomy (fun p d => Grammar.Declaration E (t :: p) d) (reading body) ts := by
  rw [declaration] at hb
  split at hb
  · next hk =>
    cases hb
    exact predicts_value he hroom (fun name p e hn hp => .value hk hn hp) ts
  · next hk =>
    cases hb
    exact predicts_value he hroom (fun name p e hn hp => .letValue hk hn hp) ts
  · next hk =>
    cases hb
    exact predicts_trait he hroom hk ts
  · cases hb
  · cases hb
  · cases hb

theorem predicts_declarations (he : ∀ ts, Predicts roomy E (reading expr) ts)
    (hroom : roomy → ∃ s e, E s e) (ts : List Token) :
    Predicts roomy (Ended (Grammar.Declaration E)) (reading (declarations expr)) ts := by
  induction hn : ts.length using Nat.strongRecOn generalizing ts with
  | ind n ih =>
    rw [reading_declarations]
    refine Predicts.take (fun _ => ⟨_, _, exists_ended _⟩) ?_
    intro t rest next hts hs
    subst hts
    rw [declarationStep] at hs
    split at hs
    · next hk =>
      cases hs
      exact Predicts.pure ⟨[], t, rfl, hk, .nil⟩
    · cases hb : declaration expr t with
      | error cause => rw [hb] at hs; cases hs
      | ok body =>
        rw [hb] at hs
        cases hs
        apply Predicts.bind (predicts_declaration he hroom hb rest)
        · intro d p rest' _ hread hp
          have shorter := reading_length hread
          apply (ih rest'.length (by simp at hn; omega) rest' rfl).map
          intro q ds hq
          exact Ended.cons hp hq
        · intro _ p d hp
          exact ⟨_, _, Ended.cons hp (exists_ended _)⟩

end Declarations

/-- The reader of schemas follows a grammar if its parts do. -/
theorem predicts_schema {limit limit' : Nat}
    (hexpr : ∀ imported, (levels imported limit).Predicts roomy (Grammar.levels imported limit'))
    (hinputs : NestedPredicts roomy (Grammar.Inputs limit') (inputs limit)) (ts : List Token) :
    Predicts roomy (Grammar.Schema limit') (schemaReading limit) ts := by
  have nothing : Grammar.InputSection limit' [sample (.keyword .input) "",
      sample (.keyword .doWord) "", sample (.keyword .endWord) ""] [] := by
    refine Grammar.InputSection.mk (p := []) rfl rfl ?_ rfl
    cases limit' <;> exact ⟨.nil, by simp⟩
  rw [schemaReading]
  apply Predicts.expect
  · intro t rest₁ _ ht
    apply Predicts.expect
    · intro opening rest₂ _ ho
      have whole {p q r : List Token} {imports : List Import} {inputs : List Input}
          {decls : List Declaration} (hp : Grammar.Many Grammar.Import p imports)
          (hq : Grammar.InputSection limit' q inputs)
          (hr : Ended (Grammar.Declaration
            (Grammar.Expression (imports.flatMap Import.names) limit')) r decls) :
          Grammar.Schema limit' (t :: opening :: (p ++ (q ++ r)))
            (.ofParts imports inputs decls) := by
        obtain ⟨r, closing, rfl, hc, hr⟩ := hr
        simpa using Grammar.Schema.of_parts ht ho hp hq hr hc
      apply Predicts.bind (predicts_imports rest₂)
      · intro imports p rest₃ _ _ hp
        apply Predicts.bind (predicts_inputSection hinputs rest₃)
        · intro inputs q rest₄ _ _ hq
          have expr := hexpr (imports.flatMap Import.names)
          apply Predicts.bind (predicts_declarations expr.expression expr.expresses rest₄)
          · intro decls r rest₅ _ _ hr
            refine Predicts.look (fun us vs huv => ?_) ?_
            · rw [Bool.eq_iff_iff, List.isEmpty_iff, List.isEmpty_iff, ← List.head?_eq_none_iff,
                huv, List.head?_eq_none_iff]
            split
            · apply Predicts.pure
              simpa using whole hp hq hr
            · exact Predicts.refuse fun _ => ⟨[], _, by simpa using whole hp hq hr⟩
          · intro _ r decls hr
            exact ⟨[], _, by simpa using whole hp hq hr⟩
        · intro _ q inputs hq
          have done := whole hp hq (exists_ended _)
          exact ⟨[sample (.keyword .endWord) ""], _, by simpa using done⟩
      · intro _ p imports hp
        have done := whole hp nothing (exists_ended _)
        exact ⟨_, _, done⟩
    · intro _ opening ho
      exact ⟨_, _, .of_parts ht ho .nil nothing .nil
        (rfl : (sample (.keyword .endWord) "").kind = _)⟩
  · intro _ t ht
    exact ⟨sample (.keyword .doWord) "" :: _, _,
      .of_parts ht rfl .nil nothing .nil (rfl : (sample (.keyword .endWord) "").kind = _)⟩

end SchemaLang.Reader
