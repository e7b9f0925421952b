import SchemaLang.Proofs.Floats
import SchemaLang.Proofs.Integers.Schema
import SchemaLang.Proofs.Nesting.Limit
import SchemaLang.Proofs.Views

namespace SchemaLang

open Lexical Reader

/-- What comes of an integer: an outcome that is built of the word with its value, or its refusal
where no word has that value. -/
structure Token.Yields {ε β : Type} (t : Token) (out : Except ε β) (built : Int64 → Except ε β)
    (refusal : ε) : Prop where
  fits : FitsWord t.value → ∃ n : Int64, n.toInt = t.value ∧ out = built n
  overflows : ¬FitsWord t.value → out = .error refusal

theorem Reader.Site.yields {α : Type} (site : Site α) {negative : Bool} {t : Token}
    (ht : t.IsInteger negative) (rest : List Token) :
    t.Yields (reading site.reader (t :: rest)) (fun n => .ok (site.literal n, rest))
      ⟨some t, .integerRange⟩ where
  fits h := by
    obtain ⟨n, hn⟩ := h.exists_toInt
    exact ⟨n, hn, site.reading_of_toInt ht hn rest⟩
  overflows h := site.reading_of_not_fits ht h rest

section Scanned

variable {text : String} {tokens : List Token} (h : Token.ofText text = .ok tokens) {t : Token}

theorem Lexical.Lexed.numeral {kind : Kind} {raw slice rest : List Char}
    (h : Lexed kind raw slice rest) (hk : kind = .integer) : ∃ negative, Numeral negative raw := by
  cases h with
  | integer hsign hds _ _ =>
    rcases hsign with rfl | rfl
    · exact ⟨false, .plain hds⟩
    · exact ⟨true, .minus hds⟩
  | name _ _ _ =>
    exact absurd hk (reserved_induction (p := (· ≠ .integer)) (by decide) (by decide) _)
  | sign hs _ _ _ =>
    subst hk
    cases hs
  | _ => cases hk

include h

theorem Token.isInteger_of_ofText (ht : t ∈ tokens) (hk : t.kind = .integer) :
    ∃ negative, t.IsInteger negative := by
  obtain ⟨k, _, _, hstart⟩ := Token.exists_startsAt h ht
  obtain ⟨span, _, hplaced⟩ := hstart.placed
  cases hplaced with
  | token _ _ _ _ hlexed =>
    obtain ⟨negative, hnumeral⟩ := hlexed.numeral hk
    exact ⟨negative, hk, hnumeral⟩
  | stop hstop _ _ => cases hk.symm.trans hstop

/-- Whatever integer stands in the place of one, the same tokens are read before and after it. -/
theorem Tokens.exists_around {pre post : List Token} (htokens : tokens = pre ++ t :: post)
    (hk : t.kind = .integer) :
    ∃ after stop, ∀ u : Token, u.kind = .integer →
      Tokens.ofList (pre ++ u :: post) = ⟨code pre ++ u :: after, stop⟩ := by
  have tiles : ∃ spans, Tiling ([] ++ text.toList) [].length tokens spans := scan_tiles h
  obtain ⟨spans, tiling⟩ := tiles
  obtain ⟨init, stop, hinit, hstop, hplain⟩ := tiling.ended
  rw [htokens] at hinit
  rcases List.eq_nil_or_concat post with rfl | ⟨more, last, rfl⟩
  · obtain ⟨-, hlast⟩ := List.append_inj' hinit rfl
    cases hlast
    cases hk.symm.trans hstop
  · have cut : pre ++ t :: more = init ∧ [last] = [stop] :=
      List.append_inj' (by simpa using hinit) rfl
    obtain ⟨rfl, hlast⟩ := cut
    cases hlast
    refine ⟨code more, stop, fun u hu => ?_⟩
    have plain : ∀ v ∈ pre ++ u :: more, v.kind ≠ .eof := by
      intro v hv
      rcases List.mem_append.mp hv with hv | hv
      · exact hplain v (List.mem_append_left _ hv)
      · rcases List.mem_cons.mp hv with rfl | hv
        · rw [hu]
          decide
        · exact hplain v (List.mem_append_right _ (List.mem_cons_of_mem _ hv))
    obtain ⟨body, hcode, _, hlist⟩ := code_append_stop hstop plain
    have parts : code (pre ++ u :: more ++ [stop]) = (code pre ++ u :: code more) ++ [stop] := by
      simp [code, hu, hstop]
    rw [← List.append_cancel_right (parts.symm.trans hcode)] at hlist
    simpa using hlist

end Scanned

namespace Schema

/-- What becomes of the integer between some tokens, when they are read as a schema. -/
inductive IntegerFate (negative : Bool) (pre post : List Token) : Prop
  /-- Another token is refused, whatever integer stands there. -/
  | refused (refusal : Refusal) :
    (∀ u : Token, u.IsInteger negative → ofTokens (pre ++ u :: post) = .error refusal) →
    IntegerFate negative pre post
  /-- No integer may stand there. -/
  | misplaced (cause : Cause) : cause ≠ .integerRange →
    (∀ u : Token, u.IsInteger negative → ofTokens (pre ++ u :: post) = .error ⟨u, cause⟩) →
    IntegerFate negative pre post
  /-- The integer is read. The literal that is built of it is all that counts, but for a refusal
  that names the token. -/
  | read {α : Type} (site : Site α) (next : α → Except (Token → Refusal) Schema) :
    (∀ u : Token, u.IsInteger negative → u.Yields (ofTokens (pre ++ u :: post))
      (fun n => (next (site.literal n)).mapError (· u)) ⟨u, .integerRange⟩) →
    IntegerFate negative pre post

theorem integerFate {text : String} {tokens pre post : List Token} {t : Token}
    (h : Token.ofText text = .ok tokens) (htokens : tokens = pre ++ t :: post)
    (ht : t.kind = .integer) (negative : Bool) : IntegerFate negative pre post := by
  obtain ⟨after, stop, around⟩ := Tokens.exists_around h htokens ht
  have run (u : Token) (hu : u.IsInteger negative) : ofTokens (pre ++ u :: post) =
      ((schemaReading nestingLimit (Gap.fill ⟨negative, after⟩ (code pre) u)).map
        Prod.fst).mapError (·.refusal stop) := by
    rw [ofTokens, ofTokensWithin_eq_reading, around u hu.kind]
    rfl
  have fate : Fate ⟨negative, after⟩ (schemaReading nestingLimit) (code pre) :=
    schemaReading_fate nestingLimit
  cases fate with
  | before s mid hread =>
    obtain ⟨u, hu⟩ := Gap.exists_integer ⟨negative, after⟩
    have rest := schemaReading_rest (hread u hu)
    simp [Gap.fill] at rest
  | refused fault hread =>
    refine .refused (fault.refusal stop) fun u hu => ?_
    rw [run u hu, hread u hu]
    rfl
  | misplaced cause hne hread =>
    refine .misplaced cause hne fun u hu => ?_
    rw [run u hu, hread u hu]
    rfl
  | read site next hread =>
    refine .read site (fun a => ((next a).map Prod.fst).mapError fun f u => (f u).refusal stop)
      fun u hu => ⟨fun hfits => ?_, fun hover => ?_⟩
    · obtain ⟨n, hn⟩ := hfits.exists_toInt
      refine ⟨n, hn, ?_⟩
      rw [run u hu, hread u hu, site.reading_of_toInt hu hn]
      change ((Except.mapError _ (next (site.literal n))).map _).mapError _ = _
      cases next (site.literal n) <;> rfl
    · rw [run u hu, hread u hu, site.reading_of_not_fits hu hover]
      rfl

/-- A number is refused as one only if it cannot be read. -/
theorem shows_of_refusal {tokens : List Token} {refusal : Refusal}
    (h : ofTokens tokens = .error refusal) :
    (refusal.cause = .integerRange → refusal.token ∈ tokens ∧ refusal.token.kind = .integer ∧
      Decimal.readInt64? (digits refusal.token) = none) ∧
    (refusal.cause = .invalidFloat → refusal.token ∈ tokens ∧ refusal.token.kind = .float ∧
      Decimal.readFloat? (digits refusal.token) = none) := by
  obtain ⟨⟨token, cause⟩, rfl, htoken, _, hshows⟩ := alike_of_refusal h
  constructor
  all_goals
    rintro rfl
    obtain ⟨t, rfl, _, hunread⟩ := hshows
    cases htoken with
    | some hmem => exact ⟨hmem.2, hunread⟩

end Schema

namespace Decimal

/-- Digits on both sides of a point are read as the double nearest to the decimal. -/
theorem readUnsigned?_of_digits {ds ds' : List Char} (hne : ds ≠ [])
    (hds : ∀ d ∈ ds, d.isDigit) (hds' : ∀ d ∈ ds', d.isDigit) :
    readUnsigned? (ds ++ '.' :: ds') =
      some (nearest (digitsValue (ds ++ ds')) (0 - ds'.length)) := by
  have point : starts Char.isDigit ('.' :: ds') = false := by
    rw [starts_cons]
    decide
  have whole := takeWhile_of_starts hds point
  have rest := dropWhile_of_starts hds point
  have places : ds'.takeWhile Char.isDigit = ds' := List.takeWhile_eq_self_iff.mpr hds'
  have none : ds'.dropWhile Char.isDigit = [] := List.dropWhile_eq_nil_iff.mpr hds'
  simp [readUnsigned?, whole, rest, places, none, hne, readExponent?]

theorem exists_readFloat {text : List Char} (h : Lexical.Decimal text) :
    ∃ x, readFloat? (text.filter (· ≠ '_')) = some x := by
  have point : '.' ∈ text.filter (· ≠ '_') := List.mem_filter.mpr ⟨h.point_mem, by decide⟩
  rw [readFloat?_of_point point]
  obtain @⟨sign, ds, ds', hsign, hds, hds'⟩ := h
  have read := readUnsigned?_of_digits hds.filter_ne_nil
    (fun _ => List.of_mem_filter) (fun _ => List.of_mem_filter (l := ds'))
  have kept : (sign ++ ds ++ '.' :: ds').filter (· ≠ '_') =
      sign ++ (ds.filter Char.isDigit ++ '.' :: ds'.filter Char.isDigit) := by
    rw [List.append_assoc, List.filter_append, List.filter_append, hds.filter_underscore,
      List.filter_cons_of_pos (by decide), hds'.filter_underscore]
    rcases hsign with rfl | rfl <;> rfl
  have unsigned (rest : List Char) : (splitSign (sign ++ (ds.filter Char.isDigit ++ rest))).2 =
      ds.filter Char.isDigit ++ rest := by
    rcases hsign with rfl | rfl
    · obtain ⟨d, more, hmore⟩ := List.exists_cons_of_ne_nil hds.filter_ne_nil
      have first : d.isDigit := List.of_mem_filter (hmore ▸ List.mem_cons_self ..)
      rw [List.nil_append, hmore, List.cons_append, splitSign_of_isDigit first]
    · rfl
  rw [kept, unsigned, read]
  exact ⟨_, rfl⟩

end Decimal

/-- The numbers of a text are exact. At every site an integer gives the word of 64 bits that has the
value of its digits and sign, or is refused as out of range if no word has it. Among the tokens of
the text it is read at a site, and then the schema is built with that word or the text is refused at
the integer; or the text is refused at an earlier token or because no integer may stand there,
whatever the digits are. A schema is found only if words have the values of all integers, only other
integers are refused as out of range, and a decimal is always read. -/
theorem Token.numbers_exact {text : String} {tokens : List Token}
    (h : Token.ofText text = .ok tokens) :
    (∀ t ∈ tokens, t.kind = .integer → ∀ (α : Type) (site : Site α) (rest : List Token),
      t.Yields (reading site.reader (t :: rest)) (fun n => .ok (site.literal n, rest))
        ⟨some t, .integerRange⟩) ∧
    (∀ pre t post, tokens = pre ++ t :: post → t.kind = .integer →
      ∃ negative, t.IsInteger negative ∧ Schema.IntegerFate negative pre post) ∧
    (∀ s, Schema.ofTokens tokens = .ok s → ∀ t ∈ tokens, t.kind = .integer → FitsWord t.value) ∧
    (∀ t ∈ tokens, t.kind = .float → ∃ x, floatValue t = .ok x) ∧
    ∀ refusal, Schema.ofTokens tokens = .error refusal →
      (refusal.cause = .integerRange → refusal.token ∈ tokens ∧ refusal.token.kind = .integer ∧
        ¬FitsWord refusal.token.value) ∧
      refusal.cause ≠ .invalidFloat := by
  have decimal (t : Token) (ht : t ∈ tokens) (hk : t.kind = .float) :
      ∃ x, Decimal.readFloat? (digits t) = some x :=
    Decimal.exists_readFloat (Token.decimal_of_ofText h ht hk)
  refine ⟨?_, ?_, ?_, ?_, ?_⟩
  · intro t ht hk α site rest
    obtain ⟨negative, hinteger⟩ := Token.isInteger_of_ofText h ht hk
    exact site.yields hinteger rest
  · intro pre t post htokens hk
    obtain ⟨negative, hinteger⟩ := Token.isInteger_of_ofText h (by simp [htokens]) hk
    exact ⟨negative, hinteger, Schema.integerFate h htokens hk negative⟩
  · intro s hs t ht hk
    obtain ⟨negative, hinteger⟩ := Token.isInteger_of_ofText h ht hk
    obtain ⟨pre, post, rfl⟩ := List.append_of_mem ht
    by_contra hover
    cases Schema.integerFate h rfl hk negative with
    | refused refusal hread => cases hs.symm.trans (hread t hinteger)
    | misplaced cause _ hread => cases hs.symm.trans (hread t hinteger)
    | read site next hread => cases hs.symm.trans ((hread t hinteger).overflows hover)
  · intro t ht hk
    obtain ⟨x, hx⟩ := decimal t ht hk
    exact ⟨x, by rw [floatValue, hx]⟩
  · intro refusal hrefusal
    obtain ⟨hrange, hinvalid⟩ := Schema.shows_of_refusal hrefusal
    refine ⟨fun hcause => ?_, fun hcause => ?_⟩
    · obtain ⟨hmem, hk, hunread⟩ := hrange hcause
      refine ⟨hmem, hk, fun hfits => ?_⟩
      obtain ⟨negative, hinteger⟩ := Token.isInteger_of_ofText h hmem hk
      obtain ⟨n, hn⟩ := hfits.exists_toInt
      cases hunread.symm.trans (hinteger.numeral.readInt64?_of_toInt hn)
    · obtain ⟨hmem, hk, hunread⟩ := hinvalid hcause
      obtain ⟨x, hx⟩ := decimal _ hmem hk
      cases hunread.symm.trans hx

/-- The least word of 64 bits, and the number after the greatest one. -/
def wordLimits : String :=
  "schema do input do end value :a, [-9_223_372_036_854_775_808, 9223372036854775808] end"

def leastWord : Token := ⟨.integer, "-9_223_372_036_854_775_808", ⟨1, 35⟩, none⟩

def pastWords : Token := ⟨.integer, "9223372036854775808", ⟨1, 63⟩, none⟩

def wordLimitTokens : List Token :=
  [⟨.keyword .schema, "schema", ⟨1, 1⟩, none⟩, ⟨.keyword .doWord, "do", ⟨1, 8⟩, none⟩,
    ⟨.keyword .input, "input", ⟨1, 11⟩, none⟩, ⟨.keyword .doWord, "do", ⟨1, 17⟩, none⟩,
    ⟨.keyword .endWord, "end", ⟨1, 20⟩, none⟩, ⟨.keyword .value, "value", ⟨1, 24⟩, none⟩,
    ⟨.symbol, "a", ⟨1, 30⟩, none⟩, ⟨.mark .comma, ",", ⟨1, 32⟩, none⟩,
    ⟨.mark .leftBracket, "[", ⟨1, 34⟩, none⟩, leastWord, ⟨.mark .comma, ",", ⟨1, 61⟩, none⟩,
    pastWords, ⟨.mark .rightBracket, "]", ⟨1, 82⟩, none⟩, ⟨.keyword .endWord, "end", ⟨1, 84⟩, none⟩,
    ⟨.eof, "", ⟨1, 87⟩, none⟩]

theorem Token.numbers_exact_wordLimits :
    Token.ofText wordLimits = .ok wordLimitTokens ∧
    (∃ n : Int64, n.toInt = -2 ^ 63 ∧
      reading domainLiteral [leastWord] = .ok (.integer n, [])) ∧
    reading bound [pastWords] = .error ⟨some pastWords, .integerRange⟩ ∧
    Schema.ofTokens wordLimitTokens = .error ⟨pastWords, .integerRange⟩ := by
  have scanned : Token.ofText wordLimits = .ok wordLimitTokens := by decide +kernel
  obtain ⟨sites, _⟩ := Token.numbers_exact scanned
  have least := sites leastWord (by decide) rfl _ .domainValue []
  have past := sites pastWords (by decide) rfl _ .bound []
  have fits : leastWord.value = -2 ^ 63 := by decide +kernel
  have wide : ¬FitsWord pastWords.value := by decide +kernel
  refine ⟨scanned, ?_, past.overflows wide, ?_⟩
  · obtain ⟨n, hn, hread⟩ := least.fits (by rw [fits]; decide)
    exact ⟨n, hn.trans fits, hread⟩
  · have judged : (Schema.ofTokens wordLimitTokens).map (fun _ => ()) =
        .error ⟨pastWords, .integerRange⟩ := by decide +kernel
    cases h : Schema.ofTokens wordLimitTokens with
    | ok s =>
      rw [h] at judged
      cases judged
    | error e =>
      rw [h] at judged
      cases judged
      rfl

end SchemaLang
