import SchemaLang.Diagnostic.Basic

namespace SchemaLang.Diagnostic

def toJson (d : Diagnostic) : Json :=
  .obj [
    ("column", .ofNat d.location.column),
    ("line", .ofNat d.location.line),
    ("message", .str d.message),
    ("severity", .str d.severity.name),
    ("type", .str d.problem.name)]

def ofJson? (json : Json) : Option Diagnostic := do
  let fields ← json.record? ["line", "column", "message", "severity", "type"]
  match fields with
  | [line, column, message, severity, problem] =>
    return {
      location := ⟨← line.word32?, ← column.word32?⟩
      message := ← message.str?
      severity := ← severity.tag?.bind Severity.ofName?
      problem := ← problem.tag?.bind Problem.ofName? }
  | _ => none

/-- The diagnostics of a list of records. One bad record refuses the list. -/
def listOfJson? : Json → Option (List Diagnostic)
  | .arr items => items.mapM ofJson?
  | _ => none

def monacoLevel : Severity → Nat
  | .error => 8
  | .warning => 4
  | .info => 2
  | .hint => 1

/-- The marker of the Monaco editor: one character wide. -/
def toMonaco (d : Diagnostic) : Json :=
  .obj [
    ("endColumn", .ofNat (d.location.column + 1)),
    ("endLineNumber", .ofNat d.location.line),
    ("message", .str d.message),
    ("severity", .ofNat (monacoLevel d.severity)),
    ("startColumn", .ofNat d.location.column),
    ("startLineNumber", .ofNat d.location.line)]

/-- The place as one number, as if each line had a thousand characters. -/
def offset (d : Diagnostic) : Nat := (d.location.line - 1) * 1000 + (d.location.column - 1)

/-- The marker of the CodeMirror editor: one character wide. -/
def toCodeMirror (d : Diagnostic) : Json :=
  .obj [
    ("from", .ofNat d.offset),
    ("message", .str d.message),
    ("severity", .str d.severity.name),
    ("to", .ofNat (d.offset + 1))]

end SchemaLang.Diagnostic
