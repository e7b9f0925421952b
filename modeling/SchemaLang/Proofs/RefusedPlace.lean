import SchemaLang.Check
import SchemaLang.Proofs.ErrorPosition
import SchemaLang.Proofs.Lexical.Refusal
import SchemaLang.Proofs.Lexical.Tiling

namespace SchemaLang

open Lexical

/-- Of the tokens of a text, one starts after the first `k` characters. -/
def Token.StartsAt (text : List Char) (tokens : List Token) (k : Nat) (t : Token) : Prop :=
  ∃ (spans : List Span) (i : Nat) (span : Span), Tiling text 0 tokens spans ∧
    tokens[i]? = some t ∧ spans[i]? = some span ∧ span.start = k

theorem Lexical.Placed.location_eq {text : List Char} {t : Token} {span : Span}
    (h : Placed text t span) :
    span.start ≤ text.length ∧ t.location = place (text.take span.start) := by
  cases h with
  | token _ hlt hle hplace _ => exact ⟨by omega, hplace⟩
  | stop _ _ hplace => exact ⟨Nat.le_refl _, by rw [List.take_length, hplace]⟩

/-- Each token of a text starts somewhere in it, at the place that it says. -/
theorem Token.exists_startsAt {text : String} {tokens : List Token}
    (h : Token.ofText text = .ok tokens) {t : Token} (ht : t ∈ tokens) :
    ∃ k ≤ text.toList.length, t.location = place (text.toList.take k) ∧
      Token.StartsAt text.toList tokens k t := by
  have tiles : ∃ spans, Tiling ([] ++ text.toList) [].length tokens spans := scan_tiles h
  obtain ⟨spans, tiling⟩ := tiles
  obtain ⟨i, hi, rfl⟩ := List.getElem_of_mem ht
  obtain ⟨hlength, hplaced⟩ := List.forall₂_iff_get.mp tiling.placed
  obtain ⟨hle, hplace⟩ := (hplaced i hi (hlength ▸ hi)).location_eq
  refine ⟨(spans.get ⟨i, hlength ▸ hi⟩).start, hle, hplace, spans, i, _, tiling, ?_, ?_, rfl⟩
  · exact List.getElem?_eq_getElem hi
  · exact List.getElem?_eq_getElem _

theorem Token.StartsAt.placed {text : List Char} {tokens : List Token} {k : Nat} {t : Token}
    (h : Token.StartsAt text tokens k t) : ∃ span, span.start = k ∧ Placed text t span := by
  obtain ⟨spans, i, span, tiling, ht, hspan, hstart⟩ := h
  obtain ⟨_, hplaced⟩ := List.forall₂_iff_get.mp tiling.placed
  obtain ⟨hi, rfl⟩ := List.getElem?_eq_some_iff.mp ht
  obtain ⟨hi', rfl⟩ := List.getElem?_eq_some_iff.mp hspan
  exact ⟨_, hstart, hplaced i hi hi'⟩

/-- A scan that stops does so at a place of the text before which everything falls into tokens. -/
theorem Token.exists_flawed {text : String} {e : ScanError} (h : Token.ofText text = .error e) :
    ∃ k ≤ text.toList.length, e.location = place (text.toList.take k) ∧
      (∃ tokens, Token.ofText (String.ofList (text.toList.take k)) = .ok tokens) ∧
      Scanned (text.toList.take k) (text.toList.drop k) ∧ Flawed e.flaw (text.toList.drop k) := by
  obtain ⟨before, rest, htext, hscanned, hflaw, hplace⟩ := scanned_of_error h
  have take : text.toList.take before.length = before := by rw [htext, List.take_left]
  have drop : text.toList.drop before.length = rest := by rw [htext, List.drop_left]
  refine ⟨before.length, by simp [htext], ?_, ?_⟩
  · rw [take]
    exact hplace.trans (after_place [] before)
  · rw [take, drop]
    refine ⟨?_, hscanned, hflaw⟩
    rw [Token.ofText, String.toList_ofList]
    exact (hscanned.of_flawed hflaw).scan_ok .outside .start

/-- The token that a list of tokens is refused at is one of them and no comment, if the list ends
with a token for the end. -/
theorem Schema.refusal_mem_code {init : List Token} {stop : Token} {refusal : Refusal}
    (hstop : stop.kind = .eof) (hinit : ∀ t ∈ init, t.kind ≠ .eof)
    (h : Schema.ofTokens (init ++ [stop]) = .error refusal) :
    refusal.token ∈ code (init ++ [stop]) := by
  obtain ⟨body, hcode, _, hlist⟩ := code_append_stop hstop hinit
  obtain ⟨fault, hfault, rfl⟩ := Schema.ofTokens_eq_error_iff.mp h
  rw [hlist] at hfault ⊢
  obtain ⟨p, q, rfl, htoken, _⟩ :=
    (Reader.schema_predicts_roomy nestingLimit body).error fault hfault
  rw [hcode, Fault.refusal, htoken]
  cases q <;> simp

/-- The tokens of a text are refused at one of them, never at one that was made up for the end. -/
theorem Schema.exists_refused {text : String} {tokens : List Token} {refusal : Refusal}
    (hscan : Token.ofText text = .ok tokens) (h : Schema.ofTokens tokens = .error refusal) :
    ∃ k ≤ text.toList.length, refusal.token.location = place (text.toList.take k) ∧
      refusal.token.kind ≠ .comment ∧ Token.StartsAt text.toList tokens k refusal.token := by
  have tiles : ∃ spans, Tiling ([] ++ text.toList) [].length tokens spans := scan_tiles hscan
  obtain ⟨spans, tiling⟩ := tiles
  obtain ⟨init, stop, rfl, hstop, hinit⟩ := tiling.ended
  obtain ⟨hmem, hkind⟩ := List.mem_filter.mp (Schema.refusal_mem_code hstop hinit h)
  obtain ⟨k, hk, hplace, hstart⟩ := Token.exists_startsAt hscan hmem
  exact ⟨k, hk, hplace, by simpa using hkind, hstart⟩

namespace Source

/-- A text is refused at one of its places. There either a token starts, no comment, which is the
one that does not fit, or the text before the place falls into tokens and no token starts at it. And
whenever a scan comes to a place where no token starts, it stops there. -/
theorem refused_at_place (source : Source) :
    (∀ report, source.schema = .error report →
      ∃ k ≤ source.text.toList.length, report.location = place (source.text.toList.take k) ∧
        (report.origin = .grammar ∧ (∃ tokens refusal, Token.ofText source.text = .ok tokens ∧
            Schema.ofTokens tokens = .error refusal ∧ refusal.token.kind ≠ .comment ∧
            Token.StartsAt source.text.toList tokens k refusal.token) ∨
          report.origin = .scan ∧
            (∃ tokens, Token.ofText (String.ofList (source.text.toList.take k)) = .ok tokens) ∧
            Scanned (source.text.toList.take k) (source.text.toList.drop k) ∧
            ∃ flaw, Flawed flaw (source.text.toList.drop k))) ∧
    ∀ k flaw, Scanned (source.text.toList.take k) (source.text.toList.drop k) →
      Flawed flaw (source.text.toList.drop k) →
      Token.ofText source.text = .error ⟨place (source.text.toList.take k), flaw⟩ := by
  refine ⟨fun report hreport => ?_, fun k flaw hscanned hflaw => ?_⟩
  · cases hscan : Token.ofText source.text with
    | error e =>
      obtain ⟨k, hk, hplace, hbefore, hscanned, hflaw⟩ := Token.exists_flawed hscan
      rw [schema_of_scanError hscan] at hreport
      obtain rfl := Except.error.inj hreport
      exact ⟨k, hk, hplace, .inr ⟨rfl, hbefore, hscanned, e.flaw, hflaw⟩⟩
    | ok tokens =>
      rw [schema_of_tokens hscan] at hreport
      cases hread : Schema.ofTokens tokens with
      | ok s => rw [hread] at hreport; cases hreport
      | error refusal =>
        obtain ⟨k, hk, hplace, hkind, hstart⟩ := Schema.exists_refused hscan hread
        rw [hread] at hreport
        obtain rfl := Except.error.inj hreport
        exact ⟨k, hk, hplace, .inl ⟨rfl, tokens, refusal, rfl, hread, hkind, hstart⟩⟩
  · have stops := hscanned.scan_error hflaw .outside .start
    rw [List.take_append_drop] at stops
    rw [Token.ofText, stops]
    exact congrArg (fun here => Except.error (⟨here, flaw⟩ : ScanError)) (after_place [] _)

/-- A string whose only further quote is escaped. -/
def openQuote : Source := ⟨anonymous, "schema do\n  \"a\\\" b"⟩

theorem openQuote_refused_at_place :
    openQuote.schema =
      .error ⟨"Unterminated string literal", anonymous, ⟨2, 3⟩, .scan⟩ ∧
    ∃ k ≤ openQuote.text.toList.length, ⟨2, 3⟩ = place (openQuote.text.toList.take k) ∧
      (∃ tokens, Token.ofText (String.ofList (openQuote.text.toList.take k)) = .ok tokens) ∧
      ∃ flaw, Flawed flaw (openQuote.text.toList.drop k) := by
  have scanned : Token.ofText openQuote.text = .error ⟨⟨2, 3⟩, .unterminatedString⟩ := by
    decide +kernel
  have refused : openQuote.schema =
      .error ⟨"Unterminated string literal", anonymous, ⟨2, 3⟩, .scan⟩ := by
    rw [schema_of_scanError scanned]
    exact congrArg Except.error (by decide +kernel)
  refine ⟨refused, ?_⟩
  obtain ⟨k, hk, hplace, ⟨horigin, _⟩ | ⟨_, hbefore, _, hflaw⟩⟩ :=
    (refused_at_place openQuote).1 _ refused
  · cases horigin
  · exact ⟨k, hk, hplace, hbefore, hflaw⟩

end Source

end SchemaLang
