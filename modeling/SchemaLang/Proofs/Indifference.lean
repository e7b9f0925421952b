import SchemaLang.Proofs.Agreement.Schema
import SchemaLang.Proofs.ErrorPosition

namespace SchemaLang

/-- The tokens that a schema is read from: those before the first token for the end, comments
apart. -/
def significant (tokens : List Token) : List Token := (code tokens).takeWhile (·.kind ≠ .eof)

instance (t u : Token) : Decidable (t.Alike u) :=
  decidable_of_iff (t.kind = u.kind ∧ t.raw = u.raw) ⟨fun h => ⟨h.1, h.2⟩, fun h => ⟨h.kind, h.raw⟩⟩

theorem Tokens.stop_kind (tokens : List Token) : (Tokens.ofList tokens).stop.kind = .eof := by
  change (((code tokens).find? (·.kind = .eof)).getD _).kind = .eof
  cases h : (code tokens).find? (·.kind = .eof) with
  | none => rfl
  | some t => simpa using List.find?_some h

theorem Cause.message_of_alike {t u : Token} (h : t.Alike u) (cause : Cause) :
    cause.message t = cause.message u := by
  unfold Cause.message
  rw [h.describe, h.raw]

theorem Cause.message_of_keys {T : Pairing} {c d : Cause} (h : c.Alike T d) (t : Token) :
    c.message t = d.message t := by
  cases h with
  | same => rfl
  | missingArrow hkeys =>
    unfold Cause.message
    simp only [(T.alike hkeys).describe]

/-- A message at the end says nothing of the token for it, unless the cause shows a text. -/
theorem Cause.message_at_stop {bare : String → Prop} {cause : Cause}
    (h : Fault.Shows bare ⟨none, cause⟩) {t u : Token} (ht : t.kind = .eof) (hu : u.kind = .eof) :
    cause.message t = cause.message u := by
  have described : t.describe = u.describe := by simp only [Token.describe, ht, hu]
  cases cause with
  | integerRange | invalidFloat | unknownElementType | unknownOption | unknownConstant
  | duplicateKey =>
    obtain ⟨_, absent, _⟩ := h
    cases absent
  | _ =>
    unfold Cause.message
    simp only [described]

theorem Fault.Alike.message {T : Pairing} {f g : Fault} (h : f.Alike T g) {stop stop' : Token}
    (hstop : stop.kind = .eof) (hstop' : stop'.kind = .eof) :
    (f.refusal stop).message = (g.refusal stop').message := by
  obtain ⟨token, cause⟩ := f
  obtain ⟨token', cause'⟩ := g
  obtain ⟨htoken, hcause, hshows⟩ := h
  calc cause.message (token.getD stop)
      = cause.message (token'.getD stop') := by
        cases htoken with
        | none => exact Cause.message_at_stop hshows hstop hstop'
        | some ht => exact Cause.message_of_alike (T.alike ht) cause
    _ = cause'.message (token'.getD stop') := Cause.message_of_keys hcause _

/-- Tokens go with each other that are alike and stand at one index of two lists. -/
def Pairing.byIndex (as bs : List Token) : Pairing where
  rel t u := t.Alike u ∧ ∃ i : Nat, as[i]? = some t ∧ bs[i]? = some u
  alike h := h.1

theorem Pairing.lists_byIndex {as bs : List Token} (h : List.Forall₂ Token.Alike as bs) :
    (Pairing.byIndex as bs).Lists as bs := by
  obtain ⟨hlength, halike⟩ := List.forall₂_iff_get.mp h
  refine List.forall₂_iff_get.mpr ⟨hlength, fun i hi hi' => ⟨halike i hi hi', i, ?_, ?_⟩⟩
  · exact List.getElem?_eq_getElem hi
  · exact List.getElem?_eq_getElem hi'

/-- Tokens that stand at one index of the significant tokens of two lists, or that both stand for
the end. -/
def SamePlace (tokens tokens' : List Token) (t u : Token) : Prop :=
  (∃ i : Nat, (significant tokens)[i]? = some t ∧ (significant tokens')[i]? = some u) ∨
    (t = (Tokens.ofList tokens).stop ∧ u = (Tokens.ofList tokens').stop)

theorem Schema.ofTokens_eq_ok_iff {tokens : List Token} {s : Schema} :
    Schema.ofTokens tokens = .ok s ↔
      ∃ rest, Reader.schemaReading nestingLimit (significant tokens) = .ok (s, rest) := by
  change (Reader.schema nestingLimit (significant tokens)).mapError _ = _ ↔ _
  rw [Reader.schema_eq_schemaReading]
  cases Reader.schemaReading nestingLimit (significant tokens) with
  | error fault => simp [Except.map, Except.mapError]
  | ok p => simp [Except.map, Except.mapError, Prod.ext_iff]

/-- Lists with alike significant tokens are both accepted, with schemas that differ in places only,
or both refused, with one message and at one place. -/
theorem Schema.ofTokens_of_alike {tokens tokens' : List Token}
    (h : List.Forall₂ Token.Alike (significant tokens) (significant tokens')) :
    (∃ s s', Schema.ofTokens tokens = .ok s ∧ Schema.ofTokens tokens' = .ok s' ∧
      s.unplaced = s'.unplaced) ∨
    ∃ e e', Schema.ofTokens tokens = .error e ∧ Schema.ofTokens tokens' = .error e' ∧
      e.message = e'.message ∧ SamePlace tokens tokens' e.token e'.token := by
  have agree := Reader.schemaReading_steady nestingLimit _ _ (Pairing.lists_byIndex h)
  generalize hx : Reader.schemaReading nestingLimit (significant tokens) = x,
    hy : Reader.schemaReading nestingLimit (significant tokens') = y at agree
  cases agree with
  | ok hsame _ =>
    exact .inl ⟨_, _, ofTokens_eq_ok_iff.mpr ⟨_, hx⟩, ofTokens_eq_ok_iff.mpr ⟨_, hy⟩, hsame⟩
  | @error f g hfault =>
    refine .inr ⟨_, _, ofTokens_eq_error_iff.mpr ⟨f, hx, rfl⟩,
      ofTokens_eq_error_iff.mpr ⟨g, hy, rfl⟩,
      hfault.message (Tokens.stop_kind tokens) (Tokens.stop_kind tokens'), ?_⟩
    have place := hfault.token
    rw [Fault.refusal, Fault.refusal]
    generalize f.token = t, g.token = u at place
    cases place with
    | none => exact Or.inr ⟨rfl, rfl⟩
    | some hindex => exact Or.inl hindex.2

/-- A value that is read from one line, without a token for the end. -/
def plainTotal : List Token :=
  [Reader.sample (.keyword .schema) "schema", Reader.sample (.keyword .doWord) "do",
    Reader.sample (.keyword .input) "input", Reader.sample (.keyword .doWord) "do",
    Reader.sample (.keyword .endWord) "end", Reader.sample (.keyword .value) "value",
    Reader.sample .symbol "total", Reader.sample (.mark .comma) ",",
    Reader.sample .integer "1", Reader.sample (.keyword .endWord) "end"]

/-- The same value on lines of its own, with comments, and with more after the end. -/
def remarkedTotal : List Token :=
  [⟨.comment, "sums", ⟨1, 1⟩, none⟩, ⟨.keyword .schema, "schema", ⟨2, 1⟩, none⟩,
    ⟨.keyword .doWord, "do", ⟨2, 8⟩, none⟩, ⟨.keyword .input, "input", ⟨3, 3⟩, some .schema⟩,
    ⟨.keyword .doWord, "do", ⟨3, 9⟩, some .schema⟩, ⟨.keyword .endWord, "end", ⟨4, 3⟩, some .input⟩,
    ⟨.keyword .value, "value", ⟨5, 3⟩, some .schema⟩, ⟨.symbol, "total", ⟨5, 9⟩, some .schema⟩,
    ⟨.mark .comma, ",", ⟨5, 15⟩, some .schema⟩, ⟨.comment, "later more", ⟨5, 17⟩, some .schema⟩,
    ⟨.integer, "1", ⟨6, 5⟩, some .schema⟩, ⟨.keyword .endWord, "end", ⟨7, 1⟩, none⟩,
    ⟨.eof, "", ⟨8, 1⟩, none⟩, ⟨.keyword .endWord, "end", ⟨8, 1⟩, none⟩]

theorem Schema.remarkedTotal_like_plainTotal :
    List.Forall₂ Token.Alike (significant plainTotal) (significant remarkedTotal) ∧
    ((∃ s s', Schema.ofTokens plainTotal = .ok s ∧ Schema.ofTokens remarkedTotal = .ok s' ∧
        s.unplaced = s'.unplaced) ∨
      ∃ e e', Schema.ofTokens plainTotal = .error e ∧ Schema.ofTokens remarkedTotal = .error e' ∧
        e.message = e'.message ∧ SamePlace plainTotal remarkedTotal e.token e'.token) := by
  have alike : List.Forall₂ Token.Alike (significant plainTotal) (significant remarkedTotal) := by
    decide
  exact ⟨alike, Schema.ofTokens_of_alike alike⟩

end SchemaLang
