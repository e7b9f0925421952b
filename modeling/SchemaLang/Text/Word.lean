import SchemaLang.Text.Alphabetic
import SchemaLang.Text.Numeric

namespace SchemaLang.Text

def isWordStart (c : Char) : Bool := isAlphabetic c || c = '_'

def isWordPart (c : Char) : Bool := isAlphabetic c || isNumeric c || c = '_'

theorem isWordPart_of_isWordStart {c : Char} (h : isWordStart c) : isWordPart c := by
  simp only [isWordStart, isWordPart, Bool.or_eq_true] at h ⊢
  rcases h with h | h <;> simp [h]

end SchemaLang.Text
