namespace SchemaLang.Command

inductive Output where
  | text
  | json
  deriving DecidableEq, Repr

def Output.ofName? : String → Option Output
  | "text" => some .text
  | "json" => some .json
  | _ => none

inductive Format where
  | records
  | monaco
  | codeMirror
  deriving DecidableEq, Repr

def Format.ofName? : String → Option Format
  | "records" => some .records
  | "monaco" => some .monaco
  | "codemirror" => some .codeMirror
  | _ => none

inductive Action where
  | tokens
  | parse
  | check (format : Format)
  deriving DecidableEq, Repr

/-- A full order: what to do, with which file, and how to answer. -/
structure Invocation where
  action : Action
  file : String
  output : Output
  quiet : Bool
  deriving DecidableEq, Repr

/-- Why arguments give no order. -/
inductive Stop where
  | misuse
  | version
  | help
  deriving DecidableEq, Repr

inductive Item where
  /-- `--name` -/
  | flag (name : String)
  /-- A letter after one dash. -/
  | letter (c : Char)
  /-- `--name=value`, or `--name value` where the name asks for a value -/
  | setting (name value : String)
  | word (text : String)
  /-- The first `--`, which ends the options. -/
  | divider
  /-- A word after the divider, which may look like anything. -/
  | trailing (text : String)
  deriving DecidableEq, Repr

namespace Item

def asksForValue (name : String) : Bool := name = "output" || name = "format"

/-- Whether an argument is read as an option. A lone dash is a word. -/
def looksLikeOption (arg : String) : Bool :=
  match arg.toList with
  | '-' :: _ :: _ => true
  | _ => false

/-- An argument of one word: `--name`, `--name=value`, letters after one dash, or a word. -/
def ofArgument (arg : String) : List Item :=
  match arg.toList with
  | '-' :: '-' :: long =>
    let name := String.ofList (long.takeWhile (· ≠ '='))
    match long.dropWhile (· ≠ '=') with
    | [] => [.flag name]
    | _ :: value => [.setting name (String.ofList value)]
  | '-' :: c :: letters => (c :: letters).map .letter
  | _ => [.word arg]

/-- The pieces of a command line. -/
def ofArguments : List String → List Item
  | [] => []
  | "--" :: rest => .divider :: rest.map .trailing
  | arg :: rest =>
    match ofArgument arg, rest with
    | [.flag name], value :: rest =>
      if asksForValue name && !looksLikeOption value then
        .setting name value :: ofArguments rest
      else .flag name :: ofArguments (value :: rest)
    | items, rest => items ++ ofArguments rest

end Item

/-- The options given so far at one level of the command line. -/
structure Given where
  output : Option Output
  format : Option Format
  quiet : Bool
  verbose : Bool

namespace Given

def nothing : Given := ⟨none, none, false, false⟩

/-- Takes an option. None may be given twice, and only a check has a format. -/
def setting (given : Given) (checks : Bool) (name value : String) : Except Stop Given :=
  match name, Output.ofName? value, Format.ofName? value with
  | "output", some output, _ =>
    if given.output.isSome then .error .misuse else .ok { given with output := some output }
  | "format", _, some format =>
    if !checks || given.format.isSome then .error .misuse
    else .ok { given with format := some format }
  | _, _, _ => .error .misuse

/-- Takes a flag. None may be given twice, and only the outer level tells the version. -/
def flag (given : Given) (outer : Bool) (name : String) : Except Stop Given :=
  match name with
  | "quiet" => if given.quiet then .error .misuse else .ok { given with quiet := true }
  | "verbose" => if given.verbose then .error .misuse else .ok { given with verbose := true }
  | "version" => .error (if outer then .version else .misuse)
  | "help" => .error .help
  | _ => .error .misuse

def letter (given : Given) (outer : Bool) (c : Char) : Except Stop Given :=
  match c with
  | 'v' => given.flag outer "verbose"
  | 'V' => given.flag outer "version"
  | 'h' => given.flag outer "help"
  | _ => .error .misuse

end Given

inductive Verb where
  | tokens
  | parse
  | check
  deriving DecidableEq, Repr

def Verb.ofName? : String → Option Verb
  | "tokens" => some .tokens
  | "parse" => some .parse
  | "check" => some .check
  | _ => none

def Verb.action (format : Option Format) : Verb → Action
  | .tokens => .tokens
  | .parse => .parse
  | .check => .check (format.getD .records)

/-- Reads what follows the verb: options and one file. An option given here counts more than the
same one before the verb. -/
def readInner (outer : Given) (verb : Verb) (given : Given) (file : Option String) :
    List Item → Except Stop Invocation
  | [] =>
    match file with
    | none => .error .misuse
    | some file => .ok {
        action := verb.action given.format
        file
        output := (given.output.or outer.output).getD .text
        quiet := given.quiet || outer.quiet }
  | .word text :: rest | .trailing text :: rest =>
    if file.isSome || text.isEmpty then .error .misuse
    else readInner outer verb given (some text) rest
  | .divider :: rest => readInner outer verb given file rest
  | .flag name :: rest => do readInner outer verb (← given.flag false name) file rest
  | .letter c :: rest => do readInner outer verb (← given.letter false c) file rest
  | .setting name value :: rest => do
    readInner outer verb (← given.setting (verb = .check) name value) file rest

/-- Whether help is at hand for what follows `help`: nothing, or one word that could stand in its
place. -/
def isHelpTopic : List Item → Bool
  | [] => true
  | [.word text] => text = "help" || (Verb.ofName? text).isSome
  | _ => false

/-- Reads options up to the verb. -/
def readOuter (given : Given) : List Item → Except Stop Invocation
  | [] => .error .misuse
  | .word text :: rest =>
    match Verb.ofName? text with
    | some verb => readInner given verb .nothing none rest
    | none => .error (if text = "help" && isHelpTopic rest then .help else .misuse)
  | .divider :: rest => readOuter given rest
  | .trailing _ :: _ => .error .misuse
  | .flag name :: rest => do readOuter (← given.flag true name) rest
  | .letter c :: rest => do readOuter (← given.letter true c) rest
  | .setting name value :: rest => do readOuter (← given.setting false name value) rest

def read (args : List String) : Except Stop Invocation :=
  readOuter .nothing (Item.ofArguments args)

end SchemaLang.Command
