import SchemaLang.Token.Lexeme

namespace SchemaLang.Lexical

open Text

/-- Whether a text starts with a character of a class. -/
def starts (p : Char → Bool) (text : List Char) : Bool := text.head?.any p

@[simp] theorem starts_nil (p : Char → Bool) : starts p [] = false := rfl

@[simp] theorem starts_cons (p : Char → Bool) (c : Char) (text : List Char) :
    starts p (c :: text) = p c := by
  simp [starts]

inductive Word : List Char → Prop
  | mk {c : Char} {cs : List Char} : isWordStart c → (∀ x ∈ cs, isWordPart x) → Word (c :: cs)

inductive Path : List Char → Prop
  | word {w : List Char} : Word w → Path w
  | cons {w p : List Char} : Word w → Path p → Path (w ++ ':' :: ':' :: p)

/-- Digits, with at most one underscore between two of them. -/
inductive Digits : List Char → Prop
  | last {d : Char} : d.isDigit → Digits [d]
  | cons {d : Char} {ds : List Char} : d.isDigit → Digits ds → Digits (d :: ds)
  | underscore {d : Char} {ds : List Char} : d.isDigit → Digits ds → Digits (d :: '_' :: ds)

theorem Digits.exists_cons {ds : List Char} (h : Digits ds) :
    ∃ d rest, ds = d :: rest ∧ d.isDigit := by
  cases h with
  | last hd => exact ⟨_, _, rfl, hd⟩
  | cons hd _ => exact ⟨_, _, rfl, hd⟩
  | underscore hd _ => exact ⟨_, _, rfl, hd⟩

/-- What a backslash and the character after it stand for. Both are kept before any other
character. -/
inductive Escape : Char → List Char → Prop
  | lineFeed : Escape 'n' ['\n']
  | tab : Escape 't' ['\t']
  | carriageReturn : Escape 'r' ['\r']
  | backslash : Escape '\\' ['\\']
  | doubleQuote : Escape '"' ['"']
  | singleQuote : Escape '\'' ['\'']
  | kept {c : Char} : c ≠ 'n' → c ≠ 't' → c ≠ 'r' → c ≠ '\\' → c ≠ '"' → c ≠ '\'' →
    Escape c ['\\', c]

theorem escape_iff {c : Char} {text : List Char} : Escape c text ↔ Lexeme.unescape c = text := by
  constructor
  · intro h
    cases h with
    | kept hn ht hr hb hd hs => exact Lexeme.unescape.eq_7 c hn ht hr hb hd hs
    | _ => rfl
  · rintro rfl
    unfold Lexeme.unescape
    split
    · exact .lineFeed
    · exact .tab
    · exact .carriageReturn
    · exact .backslash
    · exact .doubleQuote
    · exact .singleQuote
    · next hn ht hr hb hd hs => exact .kept hn ht hr hb hd hs

/-- What stands between two quotes, and the text it stands for. -/
inductive Body (quote : Char) : List Char → List Char → Prop
  | nil : Body quote [] []
  | plain {c : Char} {s text : List Char} : c ≠ quote → c ≠ '\\' → Body quote s text →
    Body quote (c :: s) (c :: text)
  | escape {c : Char} {cs s text : List Char} : Escape c cs → Body quote s text →
    Body quote ('\\' :: c :: s) (cs ++ text)

/-- The signs that spell an operator or a mark. Two operators are spelt as words, and have signs
too. -/
def signs : Kind → List (List Char)
  | .operator .and => [['&'], ['&', '&']]
  | .operator .or => [['|'], ['|', '|']]
  | .operator op => [op.spelling.toList]
  | .mark m => [m.spelling.toList]
  | _ => []

/-- Whether a run of digits goes on, at once or after an underscore. -/
def digitsGoOn : List Char → Bool
  | '_' :: rest => starts Char.isDigit rest
  | rest => starts Char.isDigit rest

/-- Whether a point and a digit go on a whole number. -/
def pointGoesOn : List Char → Bool
  | '.' :: rest => starts Char.isDigit rest
  | _ => false

/-- Whether two colons and a word go on a path. -/
def pathGoesOn : List Char → Bool
  | ':' :: ':' :: rest => starts isWordStart rest
  | _ => false

/-- Whether a colon before this text ends a label: it starts neither a path nor a symbol. -/
def afterLabel (rest : List Char) : Bool := !starts (fun c => c = ':' || isWordStart c) rest

/-- Whether a word before this text is a name of its own: no longer word, no path, no label. -/
structure NameEnds (rest : List Char) : Prop where
  word : starts isWordPart rest = false
  path : pathGoesOn rest = false
  label : ∀ more, rest = ':' :: more → afterLabel more = false

/-- A token of a kind and a text is spelt by some characters, and ends before those that follow. -/
inductive Lexed : Kind → List Char → List Char → List Char → Prop
  | symbol {w rest : List Char} : Word w → starts isWordPart rest = false →
    Lexed .symbol w (':' :: w) rest
  | label {w rest : List Char} : Word w → afterLabel rest → Lexed .label w (w ++ [':']) rest
  | path {w p rest : List Char} : Word w → Path p → starts isWordPart rest = false →
    pathGoesOn rest = false →
    Lexed .constant (w ++ ':' :: ':' :: p) (w ++ ':' :: ':' :: p) rest
  | constant {c : Char} {cs rest : List Char} : Word (c :: cs) → isUppercase c → NameEnds rest →
    Lexed .constant (c :: cs) (c :: cs) rest
  | name {c : Char} {cs rest : List Char} : Word (c :: cs) → isUppercase c = false →
    NameEnds rest →
    Lexed ((Kind.ofReserved? (String.ofList (c :: cs))).getD .identifier) (c :: cs) (c :: cs) rest
  | integer {sign ds rest : List Char} : sign = [] ∨ sign = ['-'] → Digits ds →
    digitsGoOn rest = false → pointGoesOn rest = false →
    Lexed .integer (sign ++ ds) (sign ++ ds) rest
  | float {sign ds ds' rest : List Char} : sign = [] ∨ sign = ['-'] → Digits ds → Digits ds' →
    digitsGoOn rest = false →
    Lexed .float (sign ++ ds ++ '.' :: ds') (sign ++ ds ++ '.' :: ds') rest
  | string {quote : Char} {s text rest : List Char} : quote = '"' ∨ quote = '\'' →
    Body quote s text → Lexed .string text (quote :: s ++ [quote]) rest
  | comment {s rest : List Char} : '\n' ∉ s → rest = [] ∨ starts (· = '\n') rest →
    Lexed .comment (trim s) ('#' :: s) rest
  | sign {kind : Kind} {s rest : List Char} : s ∈ signs kind →
    (∀ kind', ∀ s' ∈ signs kind', s' <+: s ++ rest → s'.length ≤ s.length) →
    (s = [':'] → starts isWordStart rest = false) →
    (s = ['-'] → starts Char.isDigit rest = false) → Lexed kind s s rest

end SchemaLang.Lexical
