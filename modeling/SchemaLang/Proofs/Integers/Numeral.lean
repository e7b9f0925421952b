import Mathlib.Data.List.Basic
import SchemaLang.Proofs.Grammar.Number
import SchemaLang.Proofs.Lexical.Spelling

namespace SchemaLang

open Lexical

/-- The text of an integer: digits with underscores between some of them, after a minus if the flag
says so. -/
inductive Numeral : Bool → List Char → Prop
  | plain {ds : List Char} : Digits ds → Numeral false ds
  | minus {ds : List Char} : Digits ds → Numeral true ('-' :: ds)

/-- The number that the digits of a text denote, the last of them counting once. -/
def Numeral.size (text : List Char) : Nat :=
  Nat.ofDigits 10 ((text.filter Char.isDigit).reverse.map fun d => d.toNat - '0'.toNat)

/-- The integer that a text denotes. Only digits and a minus in front count. -/
def Numeral.value (text : List Char) : Int :=
  if text.head? = some '-' then -Numeral.size text else Numeral.size text

/-- Whether a word of 64 bits has the value. -/
def FitsWord (n : Int) : Prop := -2 ^ 63 ≤ n ∧ n ≤ 2 ^ 63 - 1

instance (n : Int) : Decidable (FitsWord n) := inferInstanceAs (Decidable (_ ∧ _))

theorem fitsWord_toInt (n : Int64) : FitsWord n.toInt := ⟨n.minValue_le_toInt, n.toInt_le⟩

theorem FitsWord.exists_toInt {n : Int} (h : FitsWord n) : ∃ w : Int64, w.toInt = n :=
  ⟨Int64.ofInt n, Int64.toInt_ofInt_of_le h.1 (Int.lt_of_le_sub_one h.2)⟩

theorem isDigit_ne_underscore {d : Char} (h : d.isDigit) : d ≠ '_' := by
  rintro rfl
  cases h

namespace Lexical.Digits

variable {ds : List Char}

/-- What is left without underscores is the digits. -/
theorem filter_underscore (h : Digits ds) : ds.filter (· ≠ '_') = ds.filter Char.isDigit := by
  have underscore : '_'.isDigit = false := by decide
  induction h with
  | last hd => simp [hd, isDigit_ne_underscore hd]
  | cons hd _ ih => simpa [hd, isDigit_ne_underscore hd] using ih
  | underscore hd _ ih => simpa [hd, isDigit_ne_underscore hd, underscore] using ih

theorem filter_ne_nil (h : Digits ds) : ds.filter Char.isDigit ≠ [] := by
  obtain ⟨d, rest, rfl, hd⟩ := h.exists_cons
  simp [hd]

theorem head?_ne_minus (h : Digits ds) : ds.head? ≠ some '-' := by
  obtain ⟨d, rest, rfl, hd⟩ := h.exists_cons
  rintro he
  cases he
  cases hd

end Lexical.Digits

namespace Numeral

variable {negative : Bool} {text : List Char}

theorem size_eq_digitsValue (text : List Char) :
    size text = Decimal.digitsValue (text.filter Char.isDigit) :=
  (Decimal.digitsValue_eq_ofDigits _).symm

/-- A numeral tells its sign by its first character. -/
theorem head?_eq_minus_iff (h : Numeral negative text) : text.head? = some '-' ↔ negative := by
  cases h with
  | plain hds => simpa using hds.head?_ne_minus
  | minus hds => simp

theorem readInt?_eq_value (h : Numeral negative text) :
    Decimal.readInt? (text.filter (· ≠ '_')) = some (value text) := by
  rw [value, size_eq_digitsValue]
  cases h with
  | plain hds =>
    rw [hds.filter_underscore, if_neg hds.head?_ne_minus,
      Decimal.readInt?_of_digits hds.filter_ne_nil fun _ => List.of_mem_filter]
  | @minus ds hds =>
    have kept : ('-' :: ds).filter (· ≠ '_') = '-' :: ds.filter Char.isDigit := by
      rw [List.filter_cons_of_pos (by decide), hds.filter_underscore]
    have dropped : ('-' :: ds).filter Char.isDigit = ds.filter Char.isDigit :=
      List.filter_cons_of_neg (by decide)
    rw [kept, dropped, if_pos List.head?_cons,
      Decimal.readInt?_of_minus hds.filter_ne_nil fun _ => List.of_mem_filter]

/-- A numeral is read as the word that has its value. -/
theorem readInt64?_of_toInt (h : Numeral negative text) {n : Int64} (hn : n.toInt = value text) :
    Decimal.readInt64? (text.filter (· ≠ '_')) = some n := by
  rw [Decimal.readInt64?, h.readInt?_eq_value, ← hn]
  have range : Int64.minValue.toInt ≤ n.toInt ∧ n.toInt ≤ Int64.maxValue.toInt := fitsWord_toInt n
  simp only [Option.bind_eq_bind, Option.bind_some, if_pos range, Int64.ofInt_toInt]

/-- A numeral is not read where its value is that of no word. -/
theorem readInt64?_of_not_fits (h : Numeral negative text) (hn : ¬FitsWord (value text)) :
    Decimal.readInt64? (text.filter (· ≠ '_')) = none := by
  rw [Decimal.readInt64?, h.readInt?_eq_value]
  exact if_neg hn

end Numeral

end SchemaLang
