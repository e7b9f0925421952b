import SchemaLang.Report.Basic

namespace SchemaLang

inductive Severity where
  | error
  | warning
  | info
  | hint
  deriving DecidableEq, Repr

namespace Severity

def name : Severity → String
  | .error => "error"
  | .warning => "warning"
  | .info => "info"
  | .hint => "hint"

def ofName? (name : String) : Option Severity :=
  [error, warning, info, hint].find? (·.name = name)

end Severity

/-- What a problem is about. -/
inductive Problem where
  | form
  | meaning
  | execution
  deriving DecidableEq, Repr

namespace Problem

def name : Problem → String
  | .form => "syntax"
  | .meaning => "semantic"
  | .execution => "runtime"

def ofName? (name : String) : Option Problem :=
  [form, meaning, execution].find? (·.name = name)

end Problem

/-- A problem at a place, for an editor to show. -/
structure Diagnostic where
  location : Location
  message : String
  severity : Severity
  problem : Problem
  deriving DecidableEq, Repr

namespace Diagnostic

/-- An error in the form of a text. -/
def formError (location : Location) (message : String) : Diagnostic :=
  ⟨location, message, .error, .form⟩

def ofReport (report : Report) : Diagnostic :=
  formError report.location (reword report.message)

/-- A diagnostic from a message that may end in a position of its own. -/
def ofMessage (raw : String) : Diagnostic :=
  formError ((Rewording.location? raw).getD .start) (reword raw)

def text (d : Diagnostic) : String :=
  d.location.text ++ ": " ++ d.severity.name ++ ": " ++ d.message

end Diagnostic

def hasErrors (ds : List Diagnostic) : Bool := ds.any (·.severity = .error)

def errors (ds : List Diagnostic) : List Diagnostic := ds.filter (·.severity = .error)

end SchemaLang
