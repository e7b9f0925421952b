import SchemaLang.Json.Record
import SchemaLang.Report.Rewording

namespace SchemaLang

inductive Origin where
  | scan
  | grammar
  | legacy
  deriving DecidableEq, Repr

namespace Origin

def name : Origin → String
  | .scan => "tokenizer"
  | .grammar => "parser"
  | .legacy => "legacy"

def ofName? (name : String) : Option Origin :=
  [scan, grammar, legacy].find? (·.name = name)

end Origin

/-- Why and where a text was refused. -/
structure Report where
  message : String
  file : String
  location : Location
  origin : Origin
  deriving DecidableEq, Repr

namespace Report

/-- A report from a message that may end in a position of its own. -/
def ofMessage (file raw : String) : Report where
  message := reword raw
  file := file
  location := (Rewording.location? raw).getD .start
  origin := .legacy

def reworded (report : Report) : Report := { report with message := reword report.message }

def text (report : Report) : String :=
  report.file ++ ":" ++ report.location.text ++ ": " ++ report.message

def toJson (report : Report) : Json :=
  .obj [
    ("column", .ofNat report.location.column),
    ("file", .str report.file),
    ("line", .ofNat report.location.line),
    ("message", .str report.message),
    ("origin", .str report.origin.name)]

def ofJson? (json : Json) : Option Report := do
  let fields ← json.record? ["message", "file", "line", "column", "origin"]
  match fields with
  | [message, file, line, column, origin] =>
    return {
      message := ← message.str?
      file := ← file.str?
      location := ⟨← line.word32?, ← column.word32?⟩
      origin := ← origin.tag?.bind Origin.ofName? }
  | _ => none

end Report

end SchemaLang
