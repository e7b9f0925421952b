import SchemaLang.Diagnostic.Basic
import SchemaLang.Schema.Reader
import SchemaLang.Token.Scan

namespace SchemaLang

namespace Report

def ofScanError (file : String) (e : ScanError) : Report :=
  ⟨e.flaw.message, file, e.location, .scan⟩

def ofRefusal (file : String) (refusal : Refusal) : Report :=
  ⟨refusal.message, file, refusal.token.location, .grammar⟩

end Report

/-- A text and the name that reports give it. -/
structure Source where
  name : String
  text : String

namespace Source

def anonymous : String := "<input>"

/-- The tokens of the text, or a report in friendly words. -/
def tokens (source : Source) : Except Report (List Token) :=
  (Token.ofText source.text).mapError fun e => (Report.ofScanError source.name e).reworded

/-- The schema that the text spells, or a report in friendly words. -/
def schema (source : Source) : Except Report Schema := do
  let tokens ← source.tokens
  (Schema.ofTokens tokens).mapError fun refusal => (Report.ofRefusal source.name refusal).reworded

theorem schema_of_scanError {source : Source} {e : ScanError}
    (h : Token.ofText source.text = .error e) :
    source.schema = .error (Report.ofScanError source.name e).reworded := by
  rw [schema, tokens, h]
  rfl

theorem schema_of_tokens {source : Source} {tokens : List Token}
    (h : Token.ofText source.text = .ok tokens) :
    source.schema = (Schema.ofTokens tokens).mapError fun refusal =>
      (Report.ofRefusal source.name refusal).reworded := by
  rw [schema, Source.tokens, h]
  rfl

/-- A text spells a schema when it is made of tokens that do. -/
theorem schema_eq_ok_iff {source : Source} {s : Schema} :
    source.schema = .ok s ↔
      ∃ tokens, Token.ofText source.text = .ok tokens ∧ Schema.ofTokens tokens = .ok s := by
  constructor
  · intro h
    cases hscan : Token.ofText source.text with
    | error e =>
      rw [schema_of_scanError hscan] at h
      cases h
    | ok tokens =>
      rw [schema_of_tokens hscan] at h
      cases hread : Schema.ofTokens tokens with
      | error refusal =>
        rw [hread] at h
        cases h
      | ok s' =>
        rw [hread] at h
        obtain rfl := Except.ok.inj h
        exact ⟨tokens, rfl, hread⟩
  · rintro ⟨tokens, hscan, hread⟩
    rw [schema_of_tokens hscan, hread]
    rfl

def isValid (source : Source) : Bool := source.schema.isOk

/-- Nothing for a valid text, and one error for any other. -/
def diagnostics (source : Source) : List Diagnostic :=
  match source.schema with
  | .ok _ => []
  | .error report => [.ofReport report]

end Source

end SchemaLang
