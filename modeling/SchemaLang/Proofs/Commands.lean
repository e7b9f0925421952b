import SchemaLang.Command.Run
import SchemaLang.Proofs.Views

namespace SchemaLang

namespace Source

/-- A text that is refused is refused in words that stay as they are, however often reworded. -/
theorem reports_of_error {source : Source} {report : Report} (h : source.schema = .error report) :
    source.Reports report.message report.location report.origin := by
  cases hscan : Token.ofText source.text with
  | error e =>
    have settled : Settled e.flaw.message := Flaw.settled fun c hc => Token.scan_stray hscan hc
    have reports : source.Reports e.flaw.message e.location .scan :=
      reports_of_settled settled (schema_of_scanError hscan)
    obtain rfl := Except.error.inj (h.symm.trans reports.schema)
    exact reports
  | ok tokens =>
    rw [schema_of_tokens hscan] at h
    cases hread : Schema.ofTokens tokens with
    | ok s =>
      rw [hread] at h
      cases h
    | error refusal =>
      have bare : ∀ t ∈ tokens, t.kind.isBare → Unspaced t.raw :=
        fun t => Token.unspaced_of_ofText hscan
      have refused : source.schema = .error (Report.ofRefusal source.name refusal).reworded := by
        rw [schema_of_tokens hscan, hread]
        rfl
      have reports : source.Reports refusal.message refusal.token.location .grammar :=
        reports_of_settled (Schema.settled_of_refusal bare hread) refused
      rw [← schema_of_tokens hscan] at h
      obtain rfl := Except.error.inj (h.symm.trans reports.schema)
      exact reports

/-- What is refused as tokens is refused as a schema, with the same report. -/
theorem schema_of_tokens_error {source : Source} {report : Report}
    (h : source.tokens = .error report) : source.schema = .error report := by
  rw [schema, h]
  rfl

end Source

namespace Command

/-- What a command answers to a file of some bytes, under some flags. -/
def answer (file : String) (bytes : ByteArray) (action : Action) (output : Output) (quiet : Bool) :
    Result :=
  Invocation.run ⟨action, file, output, quiet⟩ (.ok bytes)

def sourceOf (file text : String) : Source :=
  ⟨Invocation.sourceName ⟨.parse, file, .text, false⟩, text⟩

/-- A message at a place, as each command shows it. -/
structure Shown (file : String) (bytes : ByteArray) (name message : String) (here : Location)
    (origin : Origin) : Prop where
  parseText : ∀ quiet, (answer file bytes .parse .text quiet).stderr =
    if quiet then "" else name ++ ":" ++ here.text ++ ": " ++ message ++ "\n"
  parseJson : ∀ quiet, (answer file bytes .parse .json quiet).stderr =
    (Json.obj [("column", .ofNat here.column), ("file", .str name), ("line", .ofNat here.line),
      ("message", .str message), ("origin", .str origin.name)]).pretty ++ "\n"
  checkText : ∀ quiet, (answer file bytes (.check .records) .text quiet).stdout =
    if quiet then "" else name ++ ":" ++ here.text ++ ": error: " ++ message ++ "\n"
  checkJson : ∀ quiet, (answer file bytes (.check .records) .json quiet).stdout =
    (Json.obj [
      ("diagnostics", .arr [.obj [("column", .ofNat here.column), ("line", .ofNat here.line),
        ("message", .str message), ("severity", .str "error"), ("type", .str "syntax")]]),
      ("valid", .bool false)]).pretty ++ "\n"
  checkMonaco : ∀ output quiet, (answer file bytes (.check .monaco) output quiet).stdout =
    (Json.arr [.obj [("endColumn", .ofNat (here.column + 1)), ("endLineNumber", .ofNat here.line),
      ("message", .str message), ("severity", .ofNat 8), ("startColumn", .ofNat here.column),
      ("startLineNumber", .ofNat here.line)]]).pretty ++ "\n"

/-- The answers of the commands to one file, whatever the flags. -/
structure Agree (file : String) (bytes : ByteArray) (source : Source) : Prop where
  parseExit : ∀ output quiet, (answer file bytes .parse output quiet).exit =
    if source.isValid then 0 else 1
  checkExit : ∀ format output quiet, (answer file bytes (.check format) output quiet).exit =
    if source.isValid then 0 else 1
  tokensExit : ∀ output quiet, (answer file bytes .tokens output quiet).exit =
    if source.tokens.isOk then 0 else 1
  /-- Tokens are there whenever a schema is. -/
  tokensOfValid : source.isValid → source.tokens.isOk
  parseStdout : ∀ output quiet, (answer file bytes .parse output quiet).exit ≠ 0 →
    (answer file bytes .parse output quiet).stdout = ""
  tokensStdout : ∀ output quiet, (answer file bytes .tokens output quiet).exit ≠ 0 →
    (answer file bytes .tokens output quiet).stdout = ""
  checkStderr : ∀ format output quiet, (answer file bytes (.check format) output quiet).exit ≠ 0 →
    (answer file bytes (.check format) output quiet).stderr = ""
  shown : source.isValid = false →
    ∃ message here origin, Shown file bytes source.name message here origin
  tokensShown : ∀ output quiet, (answer file bytes .tokens output quiet).exit ≠ 0 →
    answer file bytes .tokens output quiet = answer file bytes .parse output quiet

section Answers

variable {file text : String} {bytes : ByteArray} {output : Output} {quiet : Bool}
  (h : String.fromUTF8? bytes = some text)

include h

theorem answer_tokens : answer file bytes .tokens output quiet =
    Invocation.runTokens ⟨.tokens, file, output, quiet⟩ (sourceOf file text) := by
  unfold answer Invocation.run
  dsimp only
  rw [h]
  rfl

theorem answer_parse : answer file bytes .parse output quiet =
    Invocation.runParse ⟨.parse, file, output, quiet⟩ (sourceOf file text) := by
  unfold answer Invocation.run
  dsimp only
  rw [h]
  rfl

theorem answer_check (format : Format) : answer file bytes (.check format) output quiet =
    Invocation.runCheck ⟨.check format, file, output, quiet⟩ format (sourceOf file text) := by
  unfold answer Invocation.run
  dsimp only
  rw [h]
  rfl

theorem tokens_of_error {report : Report} (hs : (sourceOf file text).tokens = .error report) :
    answer file bytes .tokens output quiet =
      Invocation.refusal ⟨.tokens, file, output, quiet⟩ report := by
  rw [answer_tokens h, Invocation.runTokens, hs]

theorem tokens_of_ok {tokens : List Token} (hs : (sourceOf file text).tokens = .ok tokens) :
    (answer file bytes .tokens output quiet).exit = 0 := by
  rw [answer_tokens h, Invocation.runTokens, hs]
  cases output <;> rfl

theorem parse_of_error {report : Report} (hs : (sourceOf file text).schema = .error report) :
    answer file bytes .parse output quiet =
      Invocation.refusal ⟨.parse, file, output, quiet⟩ report := by
  rw [answer_parse h, Invocation.runParse, hs]

theorem parse_of_ok {s : Schema} (hs : (sourceOf file text).schema = .ok s) :
    (answer file bytes .parse output quiet).exit = 0 := by
  rw [answer_parse h, Invocation.runParse, hs]
  rfl

theorem check_of_error {report : Report} (hs : (sourceOf file text).schema = .error report)
    (format : Format) : (answer file bytes (.check format) output quiet).exit = 1 ∧
      (answer file bytes (.check format) output quiet).stderr = "" := by
  rw [answer_check h, Invocation.runCheck, Source.diagnostics, hs]
  exact ⟨rfl, rfl⟩

theorem check_of_ok {s : Schema} (hs : (sourceOf file text).schema = .ok s) (format : Format) :
    (answer file bytes (.check format) output quiet).exit = 0 := by
  rw [answer_check h, Invocation.runCheck, Source.diagnostics, hs]
  rfl

/-- A text that is refused is shown by all commands with the same message and place. -/
theorem shown_of_reports {message : String} {here : Location} {origin : Origin}
    (reports : (sourceOf file text).Reports message here origin) :
    Shown file bytes (sourceOf file text).name message here origin where
  parseText quiet := by
    rw [parse_of_error h reports.schema]
    cases quiet <;> rfl
  parseJson quiet := by
    rw [parse_of_error h reports.schema]
    rfl
  checkText quiet := by
    rw [answer_check h, Invocation.runCheck, reports.diagnostics]
    cases quiet with
    | true => rfl
    | false =>
      have severity (rest : String) :
          ": " ++ ("error" ++ (": " ++ rest)) = ": error: " ++ rest := by
        rw [← String.append_assoc, ← String.append_assoc]
        rfl
      simp [Invocation.invalidText, Diagnostic.text, Severity.name, String.append_assoc, severity]
  checkJson quiet := by
    rw [answer_check h, Invocation.runCheck, reports.diagnostics]
    rfl
  checkMonaco output quiet := by
    rw [answer_check h, Invocation.runCheck, reports.diagnostics]
    rfl

/-- The commands agree with each other and with the library on every text, whatever the flags. To
check and to parse succeed just on the valid texts, and to list the tokens on all that are made of
them. A failure leaves one of the two streams empty, and what the commands show on the other tells
the same message and place of the same file. -/
theorem commands_agree : Agree file bytes (sourceOf file text) where
  parseExit output quiet := by
    rw [Source.isValid]
    cases hs : (sourceOf file text).schema with
    | ok s =>
      rw [parse_of_ok h hs]
      rfl
    | error report =>
      rw [parse_of_error h hs]
      rfl
  checkExit format output quiet := by
    rw [Source.isValid]
    cases hs : (sourceOf file text).schema with
    | ok s =>
      rw [check_of_ok h hs]
      rfl
    | error report =>
      rw [(check_of_error h hs format).1]
      rfl
  tokensExit output quiet := by
    cases hs : (sourceOf file text).tokens with
    | ok tokens =>
      rw [tokens_of_ok h hs]
      rfl
    | error report =>
      rw [tokens_of_error h hs]
      rfl
  tokensOfValid hvalid := by
    cases hs : (sourceOf file text).tokens with
    | ok tokens => rfl
    | error report =>
      rw [Source.isValid, Source.schema_of_tokens_error hs] at hvalid
      cases hvalid
  parseStdout output quiet hexit := by
    cases hs : (sourceOf file text).schema with
    | ok s => exact absurd (parse_of_ok h hs) hexit
    | error report =>
      rw [parse_of_error h hs]
      rfl
  tokensStdout output quiet hexit := by
    cases hs : (sourceOf file text).tokens with
    | ok tokens => exact absurd (tokens_of_ok h hs) hexit
    | error report =>
      rw [tokens_of_error h hs]
      rfl
  checkStderr format output quiet hexit := by
    cases hs : (sourceOf file text).schema with
    | ok s => exact absurd (check_of_ok h hs format) hexit
    | error report => exact (check_of_error h hs format).2
  shown hinvalid := by
    cases hs : (sourceOf file text).schema with
    | ok s =>
      rw [Source.isValid, hs] at hinvalid
      cases hinvalid
    | error report => exact ⟨_, _, _, shown_of_reports h (Source.reports_of_error hs)⟩
  tokensShown output quiet hexit := by
    cases hs : (sourceOf file text).tokens with
    | ok tokens => exact absurd (tokens_of_ok h hs) hexit
    | error report =>
      rw [tokens_of_error h hs, parse_of_error h (Source.schema_of_tokens_error hs)]
      rfl

end Answers

/-- Standard input that ends within a string. -/
def openString : ByteArray := "value 'a".toUTF8

theorem openString_agree :
    String.fromUTF8? openString = some "value 'a" ∧
      (sourceOf "-" "value 'a").isValid = false ∧ (sourceOf "-" "value 'a").tokens.isOk = false ∧
      Agree "-" openString (sourceOf "-" "value 'a") := by
  have bytes : String.fromUTF8? openString = some "value 'a" := by decide +kernel
  exact ⟨bytes, by decide +kernel, by decide +kernel, commands_agree bytes⟩

end Command

end SchemaLang
