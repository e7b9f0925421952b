import SchemaLang.Proofs.Grammar.Plain
import SchemaLang.Proofs.Recognition

namespace SchemaLang

/-- Tokens without comments. -/
def code (tokens : List Token) : List Token := tokens.filter (·.kind ≠ .comment)

theorem body_ofList (tokens : List Token) :
    (Tokens.ofList tokens).body = (code tokens).takeWhile (·.kind ≠ .eof) := rfl

theorem code_of_plain {p : List Token} (h : AllPlain p) : code p = p :=
  List.filter_eq_self.mpr fun t ht => by simpa using (h t ht).1

theorem takeWhile_of_plain {p : List Token} (h : AllPlain p) (q : List Token) :
    (p ++ q).takeWhile (·.kind ≠ .eof) = p ++ q.takeWhile (·.kind ≠ .eof) :=
  List.takeWhile_append_of_pos fun t ht => by simpa using (h t ht).2

theorem body_of_plain {p : List Token} (h : AllPlain p) : (Tokens.ofList p).body = p := by
  rw [body_ofList, code_of_plain h]
  simpa using takeWhile_of_plain h []

/-- The tokens before the one that ends a list, without comments. -/
theorem code_append_stop {init : List Token} {stop : Token} (hstop : stop.kind = .eof)
    (hinit : ∀ t ∈ init, t.kind ≠ .eof) :
    ∃ body, code (init ++ [stop]) = body ++ [stop] ∧ AllPlain body ∧
      Tokens.ofList (init ++ [stop]) = ⟨body, stop⟩ := by
  have plain : AllPlain (code init) := by
    intro t ht
    obtain ⟨hmem, hk⟩ := List.mem_filter.mp ht
    exact ⟨by simpa using hk, hinit t hmem⟩
  have split : code (init ++ [stop]) = code init ++ [stop] := by
    rw [code, List.filter_append]
    simp [code, hstop]
  refine ⟨code init, split, plain, ?_⟩
  have body : (Tokens.ofList (init ++ [stop])).body = code init := by
    rw [body_ofList, split, takeWhile_of_plain plain]
    simp [hstop]
  have last : (Tokens.ofList (init ++ [stop])).stop = stop := by
    have none : (code init).find? (·.kind = .eof) = none := by
      rw [List.find?_eq_none]
      exact fun t ht => by simpa using (plain t ht).2
    have found : (code (init ++ [stop])).find? (·.kind = .eof) = some stop := by
      rw [split, List.find?_append, none]
      simp [hstop]
    exact congrArg (Option.getD · _) found
  calc Tokens.ofList (init ++ [stop])
      = ⟨(Tokens.ofList (init ++ [stop])).body, (Tokens.ofList (init ++ [stop])).stop⟩ := rfl
    _ = ⟨code init, stop⟩ := by rw [body, last]

/-- Tokens that agree up to one after some others go on with the same token. -/
theorem exists_of_take_succ {p ts us : List Token} (hp : ts.take p.length = p)
    (h : us.take (p.length + 1) = ts.take (p.length + 1)) :
    ∃ rest, us = p ++ rest ∧ rest.head? = (ts.drop p.length).head? := by
  refine ⟨us.drop p.length, ?_, ?_⟩
  · have first := congrArg (List.take p.length) h
    rw [List.take_take, List.take_take, Nat.min_eq_left (Nat.le_succ _), hp] at first
    exact (List.take_append_drop p.length us).symm.trans (congrArg (· ++ _) first)
  · have next := congrArg (·[p.length]?) h
    simpa [List.head?_drop] using next

/-- Cutting tokens at their end keeps the first one, if it is not the end. -/
theorem head?_takeWhile {q rest : List Token} {stop : Token} (hstop : stop.kind = .eof)
    (hq : AllPlain q) (h : rest.head? = (q ++ [stop]).head?) :
    (rest.takeWhile (·.kind ≠ .eof)).head? = q.head? := by
  cases q with
  | nil =>
    obtain ⟨us, rfl⟩ := List.head?_eq_some_iff.mp (h : rest.head? = some stop)
    simp [hstop]
  | cons t q =>
    obtain ⟨us, rfl⟩ := List.head?_eq_some_iff.mp (h : rest.head? = some t)
    have plain : t.kind ≠ .eof := (hq t (List.mem_cons_self ..)).2
    simp [plain]

/-- A token for the end that follows changes nothing about what a refusal rests on. -/
theorem Cause.LooksPast.append_stop {cause : Cause} {q : List Token} {stop : Token}
    (hstop : stop.kind = .eof) (h : cause.LooksPast q) : cause.LooksPast (q ++ [stop]) := by
  have tail {k kind : Kind} (hq : Reader.firstKind q = k) (hk : k ≠ .eof)
      (hne : Reader.firstKind q.tail ≠ kind) (hkind : kind ≠ .eof) :
      Reader.firstKind (q ++ [stop]) = k ∧ Reader.firstKind (q ++ [stop]).tail ≠ kind := by
    cases q with
    | nil => exact absurd hq.symm hk
    | cons t q =>
      refine ⟨hq, ?_⟩
      cases q with
      | nil => exact fun he => hkind (he.symm.trans hstop)
      | cons u q => exact hne
  rcases h with ⟨hc, p, dots, p', rest, min, max, rfl, hp, hp', hne⟩ | ⟨hc, hq, hne⟩ | ⟨hc, hq, hne⟩
  · refine Or.inl ⟨hc, p, dots, p', rest ++ [stop], min, max, ?_, hp, hp', hne⟩
    simp
  · exact Or.inr (Or.inl ⟨hc, tail hq (by decide) hne (by decide)⟩)
  · exact Or.inr (Or.inr ⟨hc, tail hq (by decide) hne (by decide)⟩)

namespace Reader

/-- How the reader of schemas treats some tokens, with room to complete what it has read. -/
theorem schema_predicts_roomy (limit : Nat) (ts : List Token) :
    Predicts True (Grammar.Schema (limit + 1)) (schemaReading limit) ts :=
  predicts_schema (fun imported => levels_predicts_roomy imported limit)
    (inputs_predicts_roomy limit) ts

theorem schema_eq_error_iff {limit : Nat} {ts : List Token} {fault : Fault} :
    schema limit ts = .error fault ↔ schemaReading limit ts = .error fault := by
  rw [schema_eq_schemaReading]
  cases schemaReading limit ts <;> simp [Except.map]

end Reader

theorem Schema.ofTokens_eq_error_iff {tokens : List Token} {e : Refusal} :
    Schema.ofTokens tokens = .error e ↔ ∃ fault,
      Reader.schemaReading nestingLimit (Tokens.ofList tokens).body = .error fault ∧
        e = fault.refusal (Tokens.ofList tokens).stop := by
  simp only [← Reader.schema_eq_error_iff]
  rw [Schema.ofTokens, Schema.ofTokensWithin]
  cases Reader.schema nestingLimit (Tokens.ofList tokens).body with
  | error fault => simp [Except.mapError, eq_comm]
  | ok s => simp [Except.mapError]

/-- A refused list of tokens with one token for the end, which is its last, is refused at a token
that settles the matter. The tokens before it start a schema, if one level more may be opened, and
no list that goes on from it is accepted, unless the refusal rests on a later token. -/
theorem Schema.ofTokens_refuses_first_offending {init : List Token} {stop : Token} {e : Refusal}
    (hstop : stop.kind = .eof) (hinit : ∀ t ∈ init, t.kind ≠ .eof)
    (he : Schema.ofTokens (init ++ [stop]) = .error e) :
    ∃ i, (code (init ++ [stop]))[i]? = some e.token ∧
      (∃ more s, ∀ limit > nestingLimit,
        Schema.ofTokensWithin limit ((code (init ++ [stop])).take i ++ more) = .ok s) ∧
      (e.cause.LooksPast ((code (init ++ [stop])).drop i) ∨
        ∀ other, (code other).take (i + 1) = (code (init ++ [stop])).take (i + 1) →
          ∃ e', Schema.ofTokens other = .error e') := by
  obtain ⟨body, hcode, plain, hlist⟩ := code_append_stop hstop hinit
  obtain ⟨fault, hfault, rfl⟩ := Schema.ofTokens_eq_error_iff.mp he
  rw [hlist] at hfault ⊢
  obtain ⟨p, q, rfl, htoken, hroom, hlocal⟩ :=
    (Reader.schema_predicts_roomy nestingLimit body).error fault hfault
  have plainPrefix := (allPlain_append.mp plain).1
  have before : (code (init ++ [stop])).take p.length = p := by
    rw [hcode, List.append_assoc, List.take_left]
  have after : (code (init ++ [stop])).drop p.length = q ++ [stop] := by
    rw [hcode, List.append_assoc, List.drop_left]
  refine ⟨p.length, ?_, ?_, ?_⟩
  · rw [← List.head?_drop, after, Fault.refusal, htoken]
    cases q <;> rfl
  · obtain ⟨more, s, hs⟩ := hroom trivial
    refine ⟨more, s, fun limit hlimit => ?_⟩
    have derived := hs.mono hlimit
    rw [before, Schema.ofTokensWithin_eq_ok_iff, body_of_plain (Grammar.schema_plain _ _ _ derived)]
    exact Reader.schema_eq_ok_iff.mpr derived
  · rw [after]
    apply hlocal.imp (fun hpast => hpast.append_stop hstop)
    intro hlocal other hother
    obtain ⟨rest, hrest, hhead⟩ := exists_of_take_succ before hother
    rw [after] at hhead
    refine ⟨_, Schema.ofTokens_eq_error_iff.mpr ⟨fault, ?_, rfl⟩⟩
    rw [body_ofList, hrest, takeWhile_of_plain plainPrefix]
    exact hlocal _ (head?_takeWhile hstop (allPlain_append.mp plain).2 hhead)

/-- A schema that breaks off after an operator, with a comment in it. -/
def unfinishedSum : List Token :=
  [Reader.sample (.keyword .schema) "schema", Reader.sample (.keyword .doWord) "do",
    Reader.sample .comment "inputs", Reader.sample (.keyword .input) "input",
    Reader.sample (.keyword .doWord) "do", Reader.sample (.keyword .endWord) "end",
    Reader.sample (.keyword .value) "value", Reader.sample .symbol "a",
    Reader.sample (.mark .comma) ",", Reader.sample .integer "1",
    Reader.sample (.operator .add) "+"]

theorem Schema.unfinishedSum_refused :
    Schema.ofTokens (unfinishedSum ++ [Reader.sample .eof ""]) =
      .error ⟨Reader.sample .eof "", .expectedExpression⟩ ∧
    ∃ i, (code (unfinishedSum ++ [Reader.sample .eof ""]))[i]? = some (Reader.sample .eof "") ∧
      (∃ more s, ∀ limit > nestingLimit, Schema.ofTokensWithin limit
        ((code (unfinishedSum ++ [Reader.sample .eof ""])).take i ++ more) = .ok s) ∧
      (Cause.expectedExpression.LooksPast
          ((code (unfinishedSum ++ [Reader.sample .eof ""])).drop i) ∨
        ∀ other, (code other).take (i + 1) =
          (code (unfinishedSum ++ [Reader.sample .eof ""])).take (i + 1) →
            ∃ e', Schema.ofTokens other = .error e') := by
  have judged : (Schema.ofTokens (unfinishedSum ++ [Reader.sample .eof ""])).map (fun _ => ()) =
      .error ⟨Reader.sample .eof "", .expectedExpression⟩ := by decide +kernel
  have refused : Schema.ofTokens (unfinishedSum ++ [Reader.sample .eof ""]) =
      .error ⟨Reader.sample .eof "", .expectedExpression⟩ := by
    cases h : Schema.ofTokens (unfinishedSum ++ [Reader.sample .eof ""]) with
    | ok s =>
      rw [h] at judged
      cases judged
    | error e =>
      rw [h] at judged
      cases judged
      rfl
  exact ⟨refused, Schema.ofTokens_refuses_first_offending rfl (by decide) refused⟩

end SchemaLang
