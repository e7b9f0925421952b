import SchemaLang.Check
import SchemaLang.Command.Arguments
import SchemaLang.Diagnostic.Encoding
import SchemaLang.Json.Printer
import SchemaLang.Schema.Encoding

namespace SchemaLang.Command

inductive ReadError where
  | notFound
  /-- A step of the path leads through something that is no directory. -/
  | notDirectory
  | isDirectory
  | nameTooLong
  | notText
  | other (text : String)
  deriving DecidableEq, Repr

def ReadError.message : ReadError → String
  | .notFound => "No such file or directory (os error 2)"
  | .notDirectory => "Not a directory (os error 20)"
  | .isDirectory => "Is a directory (os error 21)"
  | .nameTooLong => "File name too long (os error 36)"
  | .notText => "stream did not contain valid UTF-8"
  | .other text => text

/-- What a run writes, and its exit code. -/
structure Result where
  exit : Nat
  stdout : String
  stderr : String
  deriving DecidableEq, Repr

namespace Invocation

/-- Whether the file is standard input: a dash, whatever empty steps follow it in the path. -/
def readsStdin (inv : Invocation) : Bool :=
  match inv.file.splitOn "/" with
  | "-" :: steps => steps.all fun step => step = "" || step = "."
  | _ => false

def sourceName (inv : Invocation) : String :=
  if inv.readsStdin then Source.anonymous else inv.file

def success (text : String) : Result := ⟨0, text, ""⟩

def readFailure (inv : Invocation) (e : ReadError) : Result :=
  let place := if inv.readsStdin then "stdin" else "file '" ++ inv.file ++ "'"
  let message := "error reading " ++ place ++ ": " ++ e.message
  let text :=
    match inv.quiet, inv.output with
    | true, _ => ""
    | false, .text => message ++ "\n"
    | false, .json => (Json.obj [("error", .str message)]).compact ++ "\n"
  ⟨1, "", text⟩

/-- The answer of `tokens` and `parse` to a text that is refused. -/
def refusal (inv : Invocation) (report : Report) : Result :=
  let text :=
    match inv.output, inv.quiet with
    | .json, _ => report.toJson.pretty ++ "\n"
    | .text, true => ""
    | .text, false => report.text ++ "\n"
  ⟨1, "", text⟩

def padLeft (width : Nat) (text : String) : String := "".pushn ' ' (width - text.length) ++ text

def padRight (width : Nat) (text : String) : String := text.pushn ' ' (width - text.length)

/-- A token on a line: its place, kind and text. -/
def tokenLine (token : Token) : String :=
  let place := padLeft 8 token.location.text ++ "  "
  if token.kind = .eof then place ++ token.kind.title ++ "\n"
  else place ++ padRight 12 token.kind.title ++ " " ++ token.raw ++ "\n"

def runTokens (inv : Invocation) (source : Source) : Result :=
  match source.tokens, inv.output with
  | .error report, _ => inv.refusal report
  | .ok tokens, .json => success ((Json.arr (tokens.map Token.toJson)).pretty ++ "\n")
  | .ok tokens, .text => success (String.join (tokens.map tokenLine))

/-- The tree is always written as JSON. -/
def runParse (inv : Invocation) (source : Source) : Result :=
  match source.schema with
  | .error report => inv.refusal report
  | .ok schema => success (schema.toJson.pretty ++ "\n")

def validText (inv : Invocation) : String :=
  match inv.output, inv.quiet with
  | .json, _ => (Json.obj [("valid", .bool true)]).compact ++ "\n"
  | .text, false => "valid\n"
  | .text, true => ""

/-- The answer to a text with something wrong. Markers are always written as JSON. -/
def invalidText (inv : Invocation) (format : Format) (name : String) (ds : List Diagnostic) :
    String :=
  match format, inv.output with
  | .monaco, _ => (Json.arr (ds.map Diagnostic.toMonaco)).pretty ++ "\n"
  | .codeMirror, _ => (Json.arr (ds.map Diagnostic.toCodeMirror)).pretty ++ "\n"
  | .records, .json =>
    (Json.obj [
      ("diagnostics", .arr (ds.map Diagnostic.toJson)),
      ("valid", .bool false)]).pretty ++ "\n"
  | .records, .text =>
    if inv.quiet then "" else String.join (ds.map fun d => name ++ ":" ++ d.text ++ "\n")

def runCheck (inv : Invocation) (format : Format) (source : Source) : Result :=
  match source.diagnostics with
  | [] => success inv.validText
  | ds => ⟨1, inv.invalidText format source.name ds, ""⟩

def run (inv : Invocation) (content : Except ReadError ByteArray) : Result :=
  match content with
  | .error e => inv.readFailure e
  | .ok bytes =>
    match String.fromUTF8? bytes with
    | none => inv.readFailure .notText
    | some text =>
      let source : Source := ⟨inv.sourceName, text⟩
      match inv.action with
      | .tokens => inv.runTokens source
      | .parse => inv.runParse source
      | .check format => inv.runCheck format source

end Invocation

def versionText : String := "cascade 0.1.0\n"

def usageText : String :=
  "Usage: cascade [--output <text|json>] [--quiet] [--verbose] <tokens|parse|check> <FILE>\n"

/-- The answer to arguments that give no order. -/
def Stop.result : Stop → Result
  | .misuse => ⟨2, "", usageText⟩
  | .version => ⟨0, versionText, ""⟩
  | .help => ⟨0, usageText, ""⟩

end SchemaLang.Command
