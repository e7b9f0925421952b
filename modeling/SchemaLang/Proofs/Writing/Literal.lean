import SchemaLang.Proofs.Grammar.Input
import SchemaLang.Proofs.Integers.Numeral
import SchemaLang.Proofs.Writing.Layout

namespace SchemaLang

open Lexical

/-- The pieces can be scanned, and the tokens that are found for them spell a value. -/
structure Writes {α : Type} (ps : List Piece) (G : Phrase α) (a : α) : Prop where
  valid : ∀ p ∈ ps, p.Valid
  spells : ∀ ts, List.Forall₂ Piece.Spells ts ps → G ts a

/-- A phrase after a token of a kind. -/
inductive After {α : Type} (kind : Kind) (G : Phrase α) : Phrase α
  | mk {t : Token} {ts : List Token} {a : α} : t.kind = kind → G ts a → After kind G (t :: ts) a

/-- One phrase after another. -/
inductive Both {α β : Type} (G : Phrase α) (H : Phrase β) : Phrase (α × β)
  | mk {ts us : List Token} {a : α} {b : β} : G ts a → H us b → Both G H (ts ++ us) (a, b)

/-- A phrase for a value that is the same as another by a measure. -/
def UpTo {α γ : Type} (view : α → γ) (G : Phrase α) : Phrase α :=
  fun ts a => ∃ a', G ts a' ∧ view a' = view a

theorem many_upTo {α γ : Type} {view : α → γ} {G : Phrase α} {ts : List Token} {as : List α}
    (h : Grammar.Many (UpTo view G) ts as) : UpTo (List.map view) (Grammar.Many G) ts as := by
  induction h with
  | nil => exact ⟨[], .nil, rfl⟩
  | cons ha _ ih =>
    obtain ⟨a', ha', hview⟩ := ha
    obtain ⟨as', has', hviews⟩ := ih
    exact ⟨a' :: as', .cons ha' has', by rw [List.map_cons, List.map_cons, hview, hviews]⟩

/-- Lists of pieces with a comma between them. -/
def commas (items : List (List Piece)) : List Piece := List.intercalate [.mark .comma] items

@[simp] theorem commas_nil : commas [] = [] := rfl

@[simp] theorem commas_singleton (ps : List Piece) : commas [ps] = ps :=
  List.intercalate_singleton

@[simp] theorem commas_cons_cons (ps qs : List Piece) (more : List (List Piece)) :
    commas (ps :: qs :: more) = ps ++ .mark .comma :: commas (qs :: more) := by
  simp [commas, List.intercalate_cons_cons]

/-- The most of some levels. -/
def deepest (levels : List Nat) : Nat := levels.max?.getD 0

theorem le_deepest {n : Nat} {levels : List Nat} (h : n ∈ levels) : n ≤ deepest levels :=
  List.le_max?_getD_of_mem h

/-- The tokens of two lists of pieces come one after the other. -/
theorem spells_append {ps qs : List Piece} {ts : List Token}
    (h : List.Forall₂ Piece.Spells ts (ps ++ qs)) :
    ∃ us vs, ts = us ++ vs ∧ List.Forall₂ Piece.Spells us ps ∧ List.Forall₂ Piece.Spells vs qs :=
  ⟨_, _, (List.take_append_drop ps.length ts).symm, List.forall₂_take_append ts ps qs h,
    List.forall₂_drop_append ts ps qs h⟩

namespace Writes

variable {α β : Type} {item : Phrase α} {write : α → List Piece}

theorem imp {ps : List Piece} {G : Phrase α} {H : Phrase β} {a : α} {b : β} (h : Writes ps G a)
    (hH : ∀ ts, G ts a → H ts b) : Writes ps H b where
  valid := h.valid
  spells ts hts := hH ts (h.spells ts hts)

theorem cons {p : Piece} {ps : List Piece} {G : Phrase α} {H : Phrase β} {a : α} {b : β}
    (hp : p.Valid) (h : Writes ps G a)
    (hH : ∀ t ts, Piece.Spells t p → G ts a → H (t :: ts) b) : Writes (p :: ps) H b where
  valid q hq := by
    rcases List.mem_cons.mp hq with rfl | hq
    · exact hp
    · exact h.valid q hq
  spells ts hts := by
    obtain _ | ⟨ht, hts⟩ := hts
    exact hH _ _ ht (h.spells _ hts)

theorem append {γ : Type} {ps qs : List Piece} {G : Phrase α} {G' : Phrase β} {H : Phrase γ} {a : α}
    {b : β} {c : γ} (h : Writes ps G a) (h' : Writes qs G' b)
    (hH : ∀ ts us, G ts a → G' us b → H (ts ++ us) c) : Writes (ps ++ qs) H c where
  valid q hq := by
    rcases List.mem_append.mp hq with hq | hq
    · exact h.valid q hq
    · exact h'.valid q hq
  spells ts hts := by
    obtain ⟨us, vs, rfl, hus, hvs⟩ := spells_append hts
    exact hH us vs (h.spells us hus) (h'.spells vs hvs)

theorem both {ps qs : List Piece} {G : Phrase α} {H : Phrase β} {a : α} {b : β}
    (h : Writes ps G a) (h' : Writes qs H b) : Writes (ps ++ qs) (Both G H) (a, b) :=
  h.append h' fun _ _ hts hus => .mk hts hus

theorem nil {G : Phrase α} {a : α} (h : G [] a) : Writes [] G a where
  valid := by simp
  spells ts hts := by
    cases hts
    exact h

theorem single {p : Piece} {G : Phrase α} {a : α} (hp : p.Valid)
    (h : ∀ t, Piece.Spells t p → G [t] a) : Writes [p] G a where
  valid q hq := by rwa [List.mem_singleton.mp hq]
  spells ts hts := by
    obtain _ | ⟨ht, hts⟩ := hts
    cases hts
    exact h _ ht

theorem after {p : Piece} {ps : List Piece} {G : Phrase α} {a : α} (h : Writes ps G a)
    (hp : p.Valid) : Writes (p :: ps) (After p.kind G) a :=
  .cons hp h fun _ _ ht hts => .mk ht.1 hts

/-- Pieces between two more. -/
theorem between {op close : Piece} {ps : List Piece} {G : Phrase α} {H : Phrase β} {a : α} {b : β}
    (hop : op.Valid) (h : Writes ps G a) (hclose : close.Valid)
    (hH : ∀ t ts u, Piece.Spells t op → G ts a → Piece.Spells u close → H (t :: ts ++ [u]) b) :
    Writes (op :: ps ++ [close]) H b := by
  refine ⟨?_, fun ts hts => ?_⟩
  · intro p hp
    simp only [List.cons_append, List.mem_cons, List.mem_append, List.not_mem_nil, or_false] at hp
    rcases hp with rfl | hp | rfl
    · exact hop
    · exact h.valid p hp
    · exact hclose
  · obtain _ | ⟨ht, hts⟩ := hts
    obtain ⟨us, vs, rfl, hus, hvs⟩ := spells_append hts
    obtain _ | ⟨hu, hvs⟩ := hvs
    cases hvs
    exact hH _ us _ ht (h.spells us hus) hu

theorem many {l : List α} (h : ∀ a ∈ l, Writes (write a) item a) :
    Writes (l.flatMap write) (Grammar.Many item) l := by
  induction l with
  | nil => exact .nil .nil
  | cons a l ih =>
    have more := ih fun b hb => h b (by simp [hb])
    rw [List.flatMap_cons]
    exact (h a (by simp)).append more fun ts us hts hus => .cons hts hus

theorem items {l : List α} (h : ∀ a ∈ l, Writes (write a) item a) :
    Writes (commas (l.map write)) (Grammar.Items item) l := by
  induction l with
  | nil => exact .nil .nil
  | cons a l ih =>
    have first := h a (by simp)
    have more := ih fun b hb => h b (by simp [hb])
    cases l with
    | nil =>
      rw [List.map_cons, List.map_nil, commas_singleton]
      exact first.imp fun ts hts => .last hts
    | cons b l =>
      rw [List.map_cons, List.map_cons, commas_cons_cons]
      apply first.append (after more (p := .mark .comma) (by simp))
      intro ts us hts hus
      obtain ⟨hcomma, hus⟩ := hus
      exact .cons hts hcomma hus

end Writes

namespace Piece

theorem digitsValue_toDigits (n : Nat) : Decimal.digitsValue (Nat.toDigits 10 n) = n :=
  Nat.ofDigitChars_ten_toDigits

theorem isDigit_of_toDigits (n : Nat) : ∀ d ∈ Nat.toDigits 10 n, d.isDigit :=
  fun _ hd => Nat.isDigit_of_mem_toDigits (by decide) (by decide) hd

theorem readInt?_toDigits (n : Nat) : Decimal.readInt? (Nat.toDigits 10 n) = some (n : Int) := by
  rw [Decimal.readInt?_of_digits Nat.toDigits_ne_nil (isDigit_of_toDigits n), digitsValue_toDigits]

theorem readInt?_minus_toDigits (n : Nat) :
    Decimal.readInt? ('-' :: Nat.toDigits 10 n) = some (-(n : Int)) := by
  rw [Decimal.readInt?_of_minus Nat.toDigits_ne_nil (isDigit_of_toDigits n), digitsValue_toDigits]

/-- Every word of 64 bits is read from its digits. -/
theorem readInt64?_numeral (n : Int64) : Decimal.readInt64? (numeral n) = some n := by
  have read : Decimal.readInt? (numeral n) = some n.toInt := by
    rw [numeral]
    split
    · next h =>
      rw [List.singleton_append, readInt?_minus_toDigits]
      congr 1
      omega
    · next h =>
      rw [List.nil_append, readInt?_toDigits]
      congr 1
      omega
  have range : Int64.minValue.toInt ≤ n.toInt ∧ n.toInt ≤ Int64.maxValue.toInt :=
    ⟨n.minValue_le_toInt, n.toInt_le⟩
  rw [Decimal.readInt64?, read]
  simp only [Option.bind_eq_bind, Option.bind_some, if_pos range, Int64.ofInt_toInt]

theorem digits_of_spells_integer {t : Token} {n : Int64} (h : Spells t (.integer n)) :
    Reader.digits t = numeral n := by
  have plain : ∀ c ∈ numeral n, (c ≠ '_' : Bool) = true := by
    intro c hc
    rw [numeral] at hc
    rcases List.mem_append.mp hc with hc | hc
    · split at hc
      · rw [List.mem_singleton.mp hc]
        decide
      · cases hc
    · have other : c ≠ '_' := fun he => Nat.underscore_not_in_toDigits (he ▸ hc)
      simpa using other
  have raw : t.raw.toList = numeral n := by
    rw [h.2]
    exact String.toList_ofList
  rw [Reader.digits, raw]
  exact List.filter_eq_self.mpr plain

/-- The token of an integer has its value. -/
theorem denotes_of_spells {t : Token} {n : Int64} (h : Spells t (.integer n)) :
    Grammar.Denotes t n := by
  rw [Grammar.denotes_iff, digits_of_spells_integer h, readInt64?_numeral]

end Piece

theorem writes_name {name : String} (h : Word name.toList) :
    Writes [.symbol name] Grammar.Name name := by
  refine .single h fun t ht => ?_
  have spelt := Grammar.Name.mk ht.1
  rwa [ht.2] at spelt

/-- How a float is written. -/
inductive FloatForm where
  | decimal (numeral : String)
  | infinity (negative : Bool)

namespace FloatForm

def pieces : FloatForm → List Piece
  | .decimal numeral => [.float numeral]
  | .infinity false => [.constant "Float::INFINITY"]
  | .infinity true => [.operator .subtract, .constant "Float::INFINITY"]

/-- The float that a form is read as. -/
inductive Denotes : FloatForm → Float → Prop
  | decimal {numeral : String} {x : Float} : Lexical.Decimal numeral.toList →
    SchemaLang.Decimal.readFloat? (numeral.toList.filter (· ≠ '_')) = some x →
    Denotes (.decimal numeral) x
  | infinity : Denotes (.infinity false) (1.0 / 0.0)
  | negative : Denotes (.infinity true) (-(1.0 / 0.0))

end FloatForm

theorem valid_infinity : (Piece.constant "Float::INFINITY").Valid := by
  have path : Constant ("Float".toList ++ ':' :: ':' :: "INFINITY".toList) :=
    .path (by decide) (.word (by decide))
  exact path

section

variable (spell : Float → FloatForm)

/-- The pieces of a literal, each of whose floats has the form that `spell` gives it. -/
def Literal.pieces : Literal → List Piece
  | .integer n => [.integer n]
  | .float x => (spell x).pieces
  | .string s => [.string s]
  | .boolean b => [.boolean b]
  | .symbol name => [.symbol name]

/-- Literals whose floats have digits and whose symbols are words. -/
inductive Literal.WellFormed : Literal → Prop
  | integer {n : Int64} : WellFormed (.integer n)
  | float {x : Float} {numeral : String} : spell x = .decimal numeral →
    (FloatForm.decimal numeral).Denotes x → WellFormed (.float x)
  | string {s : String} : WellFormed (.string s)
  | boolean {b : Bool} : WellFormed (.boolean b)
  | symbol {name : String} : Word name.toList → WellFormed (.symbol name)

end

variable {spell : Float → FloatForm}

theorem FloatForm.writes_decimal {numeral : String} {x : Float}
    (h : (FloatForm.decimal numeral).Denotes x) {α : Type} {G : Phrase α} {a : α}
    (hG : ∀ t : Token, t.kind = .float → Decimal.readFloat? (Reader.digits t) = some x → G [t] a) :
    Writes (FloatForm.decimal numeral).pieces G a := by
  obtain ⟨hnumeral, hread⟩ := h
  refine .single hnumeral fun t ht => hG t ht.1 ?_
  rw [Reader.digits, ht.2]
  exact hread

theorem boolean_of_spells {t : Token} {b : Bool} (h : Piece.Spells t (.boolean b)) :
    decide (t.raw = "true") = b := by
  rw [h.2]
  cases b <;> decide

/-- Literals are read back in a domain. -/
theorem Literal.WellFormed.writes {value : Literal} (h : value.WellFormed spell) :
    Writes (value.pieces spell) Grammar.DomainLiteral value := by
  cases h with
  | integer => exact .single trivial fun t ht => .integer ht.1 (Piece.denotes_of_spells ht)
  | float hform hx =>
    rw [Literal.pieces, hform]
    exact FloatForm.writes_decimal hx fun t hk hread => .float hk hread
  | string =>
    refine .single trivial fun t ht => ?_
    have spelt := Grammar.DomainLiteral.string ht.1
    rwa [ht.2] at spelt
  | boolean =>
    refine .single trivial fun t ht => ?_
    have spelt := Grammar.DomainLiteral.boolean ht.1
    rwa [boolean_of_spells ht] at spelt
  | symbol hname =>
    refine .single hname fun t ht => ?_
    have spelt := Grammar.DomainLiteral.symbol ht.1
    rwa [ht.2] at spelt

end SchemaLang
