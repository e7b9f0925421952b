namespace SchemaLang

/-- A place in a text: lines and the characters of a line are counted from one. -/
structure Location where
  line : Nat
  column : Nat
  deriving DecidableEq, Repr

namespace Location

def start : Location := ⟨1, 1⟩

/-- The place after a character. Only a line feed starts a line. -/
def advance (here : Location) (c : Char) : Location :=
  if c = '\n' then ⟨here.line + 1, 1⟩ else ⟨here.line, here.column + 1⟩

def after (here : Location) (text : List Char) : Location :=
  text.foldl advance here

@[simp] theorem after_nil (here : Location) : here.after [] = here := rfl

@[simp] theorem after_cons (here : Location) (c : Char) (text : List Char) :
    here.after (c :: text) = (here.advance c).after text := rfl

theorem after_append (here : Location) (s t : List Char) :
    here.after (s ++ t) = (here.after s).after t :=
  List.foldl_append

def text (here : Location) : String :=
  toString here.line ++ ":" ++ toString here.column

end Location

end SchemaLang
