import SchemaLang.Check
import SchemaLang.Proofs.Agreement.Schema
import SchemaLang.Proofs.ErrorPosition
import SchemaLang.Proofs.Wording.Unspaced

namespace SchemaLang

/-- Each token of a list goes with itself. -/
def Pairing.within (tokens : List Token) : Pairing where
  rel t u := t = u ∧ t ∈ tokens
  alike h := by
    obtain ⟨rfl, -⟩ := h
    exact ⟨rfl, rfl⟩

theorem Pairing.lists_within {tokens body : List Token} (h : ∀ t ∈ body, t ∈ tokens) :
    (Pairing.within tokens).Lists body body :=
  List.forall₂_same.mpr fun t ht => ⟨rfl, h t ht⟩

theorem Tokens.mem_of_mem_body {tokens : List Token} {t : Token}
    (h : t ∈ (Tokens.ofList tokens).body) : t ∈ tokens :=
  List.mem_of_mem_filter ((List.takeWhile_sublist _).subset h)

/-- A refusal names and shows only what stands among the tokens. -/
theorem Schema.alike_of_refusal {tokens : List Token} {refusal : Refusal}
    (h : Schema.ofTokens tokens = .error refusal) :
    ∃ fault : Fault, refusal = fault.refusal (Tokens.ofList tokens).stop ∧
      fault.Alike (Pairing.within tokens) fault := by
  obtain ⟨fault, hfault, rfl⟩ := Schema.ofTokens_eq_error_iff.mp h
  have agree := Reader.schemaReading_steady nestingLimit _ _
    (Pairing.lists_within fun t (ht : t ∈ (Tokens.ofList tokens).body) => Tokens.mem_of_mem_body ht)
  rw [hfault] at agree
  cases agree with
  | error halike => exact ⟨fault, rfl, halike⟩

/-- A refusal is in words that stay as they are, if words and numbers have no white space. -/
theorem Schema.settled_of_refusal {tokens : List Token} {refusal : Refusal}
    (hbare : ∀ t ∈ tokens, t.kind.isBare → Unspaced t.raw)
    (h : Schema.ofTokens tokens = .error refusal) : Settled refusal.message := by
  obtain ⟨fault, rfl, halike⟩ := Schema.alike_of_refusal h
  apply (halike.shows.imp fun text hshown => ?_).settled
  obtain ⟨t, _, ⟨_, hmem⟩, hk, rfl⟩ := hshown
  exact hbare t hmem hk

namespace Source

/-- A text is refused with a message at a place, and each view of it tells this message and
place. -/
structure Reports (source : Source) (message : String) (location : Location) (origin : Origin) :
    Prop where
  oneLine : '\n' ∉ message.toList
  fixed : reword message = message
  schema : source.schema = .error ⟨message, source.name, location, origin⟩
  invalid : source.isValid = false
  diagnostics : source.diagnostics = [⟨location, message, .error, .form⟩]

theorem reports_of_settled {source : Source} {message : String} {location : Location}
    {origin : Origin} (h : Settled message)
    (hschema : source.schema = .error (Report.reworded ⟨message, source.name, location, origin⟩)) :
    source.Reports message location origin := by
  have unchanged : source.schema = .error ⟨message, source.name, location, origin⟩ := by
    rw [hschema, Report.reworded, h.reword_eq]
  refine ⟨h.opens.oneLine, h.reword_eq, unchanged, ?_, ?_⟩
  · rw [isValid, unchanged]
    rfl
  · rw [diagnostics, unchanged]
    dsimp only
    rw [Diagnostic.ofReport, h.reword_eq]
    rfl

/-- What scanning and then reading give is what every view of a text says. -/
theorem views_agree (source : Source) :
    match Token.ofText source.text with
    | .error e => source.Reports e.flaw.message e.location .scan
    | .ok tokens =>
      match Schema.ofTokens tokens with
      | .error refusal => source.Reports refusal.message refusal.token.location .grammar
      | .ok s => source.schema = .ok s ∧ source.isValid = true ∧ source.diagnostics = [] := by
  cases hscan : Token.ofText source.text with
  | error e =>
    have settled : Settled e.flaw.message := Flaw.settled fun c hc => Token.scan_stray hscan hc
    apply reports_of_settled settled
    rw [Source.schema, tokens, hscan]
    rfl
  | ok tokens =>
    have read : source.schema = (Schema.ofTokens tokens).mapError fun refusal =>
        (Report.ofRefusal source.name refusal).reworded := by
      rw [Source.schema, Source.tokens, hscan]
      rfl
    dsimp only
    cases hread : Schema.ofTokens tokens with
    | error refusal =>
      have bare : ∀ t ∈ tokens, t.kind.isBare → Unspaced t.raw :=
        fun t => Token.unspaced_of_ofText hscan
      apply reports_of_settled (Schema.settled_of_refusal bare hread)
      rw [read, hread]
      rfl
    | ok s =>
      have found : source.schema = .ok s := by
        rw [read, hread]
        rfl
      refine ⟨found, ?_, ?_⟩
      · rw [isValid, found]
        rfl
      · rw [diagnostics, found]

end Source

end SchemaLang
