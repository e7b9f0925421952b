import Mathlib.Logic.Basic
import SchemaLang.Proofs.Predictive.Basic

namespace SchemaLang.Reader

open Reading

variable {α : Type}

/-- A reading takes each phrase, when the tokens after it are as `after` says. -/
def Takes (G : Phrase α) (after : List Token → Prop) (run : Reading α) : Prop :=
  ∀ p a rest, G p a → after rest → run (p ++ rest) = .ok (a, rest)

theorem expect_of_kind {kind : Kind} {t : Token} (h : t.kind = kind) (rest : List Token) :
    reading (expect kind) (t :: rest) = .ok (t, rest) := by
  rw [reading_expect, take_of_ok (if_pos h)]
  rfl

theorem symbol_of_kind {t : Token} (h : t.kind = .symbol) (rest : List Token) :
    reading symbol (t :: rest) = .ok (t.raw, rest) := by
  rw [reading_symbol, take_of_ok (if_pos h)]
  rfl

theorem firstKind_append {p : List Token} (h : p ≠ []) (rest : List Token) :
    firstKind (p ++ rest) = firstKind p := by
  cases p with
  | nil => exact absurd rfl h
  | cons t p => rfl

/-- Items that are each allowed after the earlier ones are taken up to the closing token. An item
must not be taken for that token, nor for the comma before it. -/
theorem separated_of_items (close : Kind) {item : List α → Reader α} {phrase : Phrase α}
    {allowed : List α → α → Prop} {after : List Token → Prop}
    (hitem : ∀ earlier, Takes (fun p a => phrase p a ∧ allowed earlier a) after
      (reading (item earlier)))
    (hstart : ∀ p a rest, phrase p a → firstKind (p ++ rest) ≠ close)
    (hafter : ∀ t rest, t.kind = .mark .comma ∨ t.kind = close → after (t :: rest))
    (hclose : close ≠ .mark .comma) {p : List Token} {new earlier : List α} {t : Token}
    (hp : Grammar.Items phrase p new) (hadm : Admits allowed earlier new) (ht : t.kind = close)
    (rest : List Token) :
    reading (separated close item earlier) (p ++ t :: rest) =
      .ok (earlier.reverse ++ new, rest) := by
  induction hp generalizing earlier with
  | nil =>
    have first : firstKind (t :: rest) = close := ht
    rw [reading_separated, List.nil_append, look_bind, if_pos first,
      bind_of_ok (expect_of_kind ht rest), List.append_nil]
    rfl
  | @last p a hp =>
    have read := hitem earlier p a (t :: rest) ⟨hp, hadm.1⟩ (hafter t rest (Or.inr ht))
    have comma : firstKind (t :: rest) ≠ .mark .comma := fun h => hclose (ht.symm.trans h)
    rw [reading_separated, look_bind, if_neg (hstart p a _ hp), bind_of_ok read,
      ifNext_of_ne comma, bind_of_ok (expect_of_kind ht rest), List.reverse_cons]
    rfl
  | @cons p q a as comma hp hc _ ih =>
    have read := hitem earlier p a (comma :: (q ++ t :: rest)) ⟨hp, hadm.1⟩
      (hafter comma _ (Or.inl hc))
    have more := ih hadm.2
    rw [List.append_assoc, List.cons_append, reading_separated, look_bind,
      if_neg (hstart p a _ hp), bind_of_ok read, ifNext_of_eq hc, more, List.reverse_cons,
      List.append_assoc]
    rfl

theorem separated_of_takes (close : Kind) {item : Reader α} {phrase : Phrase α}
    {after : List Token → Prop} (hitem : Takes phrase after (reading item))
    (hstart : ∀ p a rest, phrase p a → firstKind (p ++ rest) ≠ close)
    (hafter : ∀ t rest, t.kind = .mark .comma ∨ t.kind = close → after (t :: rest))
    (hclose : close ≠ .mark .comma) {p : List Token} {as : List α} {t : Token}
    (hp : Grammar.Items phrase p as) (ht : t.kind = close) (rest : List Token) :
    reading (separated close (fun _ => item) []) (p ++ t :: rest) = .ok (as, rest) := by
  have any (earlier : List α) :
      Takes (fun p a => phrase p a ∧ True) after (reading item) :=
    fun p a rest hp => hitem p a rest hp.1
  have all (earlier new : List α) : Admits (fun _ _ => True) earlier new := by
    induction new generalizing earlier with
    | nil => trivial
    | cons a new ih => exact ⟨trivial, ih (a :: earlier)⟩
  exact separated_of_items close any hstart hafter hclose hp (all [] as) ht rest

end SchemaLang.Reader
