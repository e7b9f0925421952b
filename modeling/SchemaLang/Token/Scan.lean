import SchemaLang.Token.Basic
import SchemaLang.Token.Lexeme

namespace SchemaLang

/-- The blocks that are open at a place of the text, innermost first, and the sort of block that
the next `do` opens. -/
structure Blocks where
  opened : List Context
  pending : Option Context
  deriving DecidableEq, Repr

namespace Blocks

def outside : Blocks := ⟨[], none⟩

/-- The blocks after a token of a kind, when `next` is the character that follows it. An `input`
before a dot is a reference and announces no block. -/
def step (blocks : Blocks) (kind : Kind) (next : Option Char) : Blocks :=
  match kind with
  | .keyword .schema => { blocks with pending := some .schema }
  | .keyword .input => if next = some '.' then blocks else { blocks with pending := some .input }
  | .keyword .doWord => ⟨blocks.pending.getD .block :: blocks.opened, none⟩
  | .keyword .endWord => { blocks with opened := blocks.opened.tail }
  | _ => blocks

end Blocks

/-- The place of a text where no token starts, and why. -/
structure ScanError where
  location : Location
  flaw : Flaw
  deriving DecidableEq, Repr

namespace Token

/-- A lexeme at its place. Identifiers are told the block they stand in. -/
def ofLexeme (blocks : Blocks) (here : Location) (lexeme : Lexeme) : Token where
  kind := lexeme.kind
  raw := String.ofList lexeme.raw
  location := here
  context := if lexeme.kind = .identifier then blocks.opened.head? else none

/-- The token that ends every scan. -/
def endOfInput (here : Location) : Token := ⟨.eof, "", here, none⟩

/-- The tokens of a text that starts at a place inside some blocks. -/
def scan (blocks : Blocks) (here : Location) (text : List Char) :
    Except ScanError (List Token) :=
  match text with
  | [] => .ok [endOfInput here]
  | c :: rest =>
    if Text.isWhiteSpace c then scan blocks (here.advance c) rest
    else
      match Lexeme.read c rest with
      | .error flaw => .error ⟨here, flaw⟩
      | .ok lexeme =>
        let after := rest.drop lexeme.more
        let blocks' := blocks.step lexeme.kind after.head?
        match scan blocks' (here.after (c :: rest.take lexeme.more)) after with
        | .error e => .error e
        | .ok tokens => .ok (ofLexeme blocks here lexeme :: tokens)
termination_by text.length
decreasing_by
  · simp
  · simp only [List.length_drop, List.length_cons]
    omega

/-- The tokens of a text, comments among them, and last the token for its end. -/
def ofText (text : String) : Except ScanError (List Token) :=
  scan .outside .start text.toList

end Token

end SchemaLang
