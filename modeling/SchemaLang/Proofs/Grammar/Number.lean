import Mathlib.Data.Nat.Digits.Defs
import SchemaLang.Reader.Basic

namespace SchemaLang

namespace Decimal

/-- Digit after digit, the value is the one by powers of ten. -/
theorem digitsValue_eq_ofDigits (ds : List Char) :
    digitsValue ds = Nat.ofDigits 10 (ds.reverse.map fun d => d.toNat - '0'.toNat) := by
  rw [Nat.ofDigits_eq_foldr, List.foldr_map, List.foldr_reverse, digitsValue]
  congr 1
  funext n d
  exact Nat.add_comm ..

theorem splitSign_of_isDigit {d : Char} (hd : d.isDigit) (ds : List Char) :
    splitSign (d :: ds) = (false, d :: ds) := by
  rw [splitSign]
  · rintro rest he
    cases he
    cases hd
  · rintro rest he
    cases he
    cases hd

section Digits

variable {ds : List Char} (hne : ds ≠ []) (hall : ∀ d ∈ ds, d.isDigit)

include hne hall

theorem readInt?_of_digits : readInt? ds = some (digitsValue ds : Int) := by
  obtain ⟨d, rest, rfl⟩ := List.exists_cons_of_ne_nil hne
  have all : (d :: rest).all Char.isDigit = true := List.all_eq_true.mpr hall
  rw [readInt?, splitSign_of_isDigit (hall d (List.mem_cons_self ..))]
  simp [all]

theorem readInt?_of_plus : readInt? ('+' :: ds) = some (digitsValue ds : Int) := by
  have all : ds.all Char.isDigit = true := List.all_eq_true.mpr hall
  simp [readInt?, splitSign, all, hne]

theorem readInt?_of_minus : readInt? ('-' :: ds) = some (-(digitsValue ds : Int)) := by
  have all : ds.all Char.isDigit = true := List.all_eq_true.mpr hall
  simp [readInt?, splitSign, all, hne]

end Digits

end Decimal

namespace Grammar

/-- The number that decimal digits denote, the last of them counting once. -/
def natural (ds : List Char) : Nat :=
  Nat.ofDigits 10 (ds.reverse.map fun d => d.toNat - '0'.toNat)

/-- Decimal digits, after a sign or none, and the integer that they denote. -/
inductive Signed : List Char → Int → Prop
  | plain {ds : List Char} : ds ≠ [] → (∀ d ∈ ds, d.isDigit) → Signed ds (natural ds)
  | plus {ds : List Char} : ds ≠ [] → (∀ d ∈ ds, d.isDigit) → Signed ('+' :: ds) (natural ds)
  | minus {ds : List Char} : ds ≠ [] → (∀ d ∈ ds, d.isDigit) → Signed ('-' :: ds) (-natural ds)

/-- The word of 64 bits that a number's token denotes. Its underscores do not count. -/
def Denotes (t : Token) (n : Int64) : Prop := Signed (t.raw.toList.filter (· ≠ '_')) n.toInt

open Decimal

theorem signed_of_readInt? {text : List Char} {n : Int} (h : readInt? text = some n) :
    Signed text n := by
  have digits {ds : List Char} (hds : ¬(ds.isEmpty || !ds.all Char.isDigit) = true) :
      ds ≠ [] ∧ ∀ d ∈ ds, d.isDigit := by
    simpa [not_or] using hds
  rw [readInt?] at h
  unfold splitSign at h
  split at h
  next negative ds hsplit =>
  split at h
  · cases h
  · next hds =>
    obtain ⟨hne, hall⟩ := digits hds
    rw [digitsValue_eq_ofDigits] at h
    split at hsplit <;> cases hsplit <;> cases h
    · exact .minus hne hall
    · exact .plus hne hall
    · exact .plain hne hall

theorem readInt?_eq_some_iff {text : List Char} {n : Int} :
    readInt? text = some n ↔ Signed text n := by
  refine ⟨signed_of_readInt?, fun h => ?_⟩
  cases h with
  | plain hne hall => rw [readInt?_of_digits hne hall, digitsValue_eq_ofDigits, natural]
  | plus hne hall => rw [readInt?_of_plus hne hall, digitsValue_eq_ofDigits, natural]
  | minus hne hall => rw [readInt?_of_minus hne hall, digitsValue_eq_ofDigits, natural]

/-- A number's token is read as the word that it denotes. -/
theorem denotes_iff {t : Token} {n : Int64} :
    Denotes t n ↔ readInt64? (Reader.digits t) = some n := by
  rw [Denotes, ← readInt?_eq_some_iff, Reader.digits, readInt64?]
  constructor
  · intro h
    have range : Int64.minValue.toInt ≤ n.toInt ∧ n.toInt ≤ Int64.maxValue.toInt :=
      ⟨n.minValue_le_toInt, n.toInt_le⟩
    rw [h]
    simp only [Option.bind_eq_bind, Option.bind_some, if_pos range, Int64.ofInt_toInt]
  · intro h
    obtain ⟨m, hm, h⟩ := Option.bind_eq_some_iff.mp h
    split at h
    · next range =>
      cases h
      rw [hm, Int64.toInt_ofInt_of_le range.1 (Int.lt_of_le_sub_one range.2)]
    · cases h

end Grammar

end SchemaLang
