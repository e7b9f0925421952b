import SchemaLang.Proofs.Lexical.Tiling
import SchemaLang.Proofs.Wording.Message
import SchemaLang.Proofs.Writing.Layout

namespace SchemaLang

open Text Lexical

theorem isWhiteSpace_of_isNumeric {c : Char} (h : isNumeric c) : isWhiteSpace c = false := by
  have apart : ∀ s ∈ whiteSpaceSpans, ∀ n ∈ List.range' s.1 (s.2 - s.1 + 1),
      covers numericSpans n = false := by decide
  apply Bool.eq_false_iff.mpr
  intro hblank
  have other : isNumeric c = false := covers_eq_false_of_apart apart hblank
  rw [other] at h
  cases h

theorem isWhiteSpace_of_isWordPart {c : Char} (h : isWordPart c) : isWhiteSpace c = false := by
  simp only [isWordPart, Bool.or_eq_true, or_assoc] at h
  rcases h with h | h | h
  · exact isWhiteSpace_of_isWordStart (by simp [isWordStart, h])
  · exact isWhiteSpace_of_isNumeric h
  · exact isWhiteSpace_of_isWordStart (by simp [isWordStart, h])

namespace Lexical

/-- Characters of which none is white space. -/
def Solid (text : List Char) : Prop := ∀ c ∈ text, isWhiteSpace c = false

@[simp] theorem solid_cons {c : Char} {text : List Char} :
    Solid (c :: text) ↔ isWhiteSpace c = false ∧ Solid text :=
  List.forall_mem_cons

@[simp] theorem solid_append {s t : List Char} : Solid (s ++ t) ↔ Solid s ∧ Solid t :=
  List.forall_mem_append

theorem Word.ne_nil {w : List Char} (h : Word w) : w ≠ [] := by
  cases h
  simp

theorem Word.solid {w : List Char} (h : Word w) : Solid w :=
  fun c hc => isWhiteSpace_of_isWordPart (h.part c hc)

theorem Path.solid {p : List Char} (h : Path p) : Solid p := by
  have colon : isWhiteSpace ':' = false := by decide
  induction h with
  | word hw => exact hw.solid
  | cons hw _ ih => simp [hw.solid, colon, ih]

theorem Digits.solid {ds : List Char} (h : Digits ds) : Solid ds := by
  have underscore : isWhiteSpace '_' = false := by decide
  induction h with
  | last hd => simp [isWhiteSpace_of_isDigit hd, Solid]
  | cons hd _ ih => simp [isWhiteSpace_of_isDigit hd, ih]
  | underscore hd _ ih => simp [isWhiteSpace_of_isDigit hd, underscore, ih]

theorem solid_of_sign {sign : List Char} (h : sign = [] ∨ sign = ['-']) : Solid sign := by
  rcases h with rfl | rfl
  · simp [Solid]
  · have dash : isWhiteSpace '-' = false := by decide
    simp [dash, Solid]

/-- The text of a word or a number is not empty and has no white space. -/
theorem Lexed.solid {kind : Kind} {raw s rest : List Char} (h : Lexed kind raw s rest)
    (hk : kind.isBare) : raw ≠ [] ∧ Solid raw := by
  have colon : isWhiteSpace ':' = false := by decide
  have point : isWhiteSpace '.' = false := by decide
  cases h with
  | symbol hw _ => exact ⟨hw.ne_nil, hw.solid⟩
  | label hw _ => exact ⟨hw.ne_nil, hw.solid⟩
  | path hw hp _ _ => exact ⟨by simp, by simp [hw.solid, colon, hp.solid]⟩
  | constant hw _ _ => exact ⟨hw.ne_nil, hw.solid⟩
  | name hw _ _ => exact ⟨hw.ne_nil, hw.solid⟩
  | integer hsign hds _ _ =>
    obtain ⟨d, ds, rfl, _⟩ := hds.exists_cons
    exact ⟨by simp, solid_append.mpr ⟨solid_of_sign hsign, hds.solid⟩⟩
  | float hsign hds hds' _ =>
    exact ⟨by simp, by simp [solid_of_sign hsign, hds.solid, point, hds'.solid]⟩
  | string _ _ => cases hk
  | comment _ _ => cases hk
  | sign hs _ _ _ =>
    -- only operators and marks have signs
    cases kind with
    | operator _ | mark _ => cases hk
    | _ => cases hs

theorem Placed.unspaced {text : List Char} {t : Token} {span : Span} (h : Placed text t span)
    (hk : t.kind.isBare) : Unspaced t.raw := by
  cases h with
  | token _ _ _ _ hlexed =>
    obtain ⟨hne, hsolid⟩ := hlexed.solid hk
    exact ⟨by simpa using hne, hsolid⟩
  | stop hstop _ _ =>
    rw [hstop] at hk
    cases hk

/-- A character that is refused stands where a token was to start. -/
theorem read_stray {c d : Char} {rest : List Char}
    (h : Lexeme.read c rest = .error (.strayCharacter d)) : d = c := by
  unfold Lexeme.read at h
  split at h
  · cases h
  split at h
  · unfold Lexeme.quotedString at h
    split at h <;> cases h
  split at h
  · cases h
  split at h
  · cases h
  split at h
  · cases h
  · unfold Lexeme.punctuation at h
    split at h
    · cases h
    · split at h
      · cases h
      · split at h
        · cases h
        · cases h
          rfl

end Lexical

namespace Token

theorem unspaced_of_ofText {text : String} {tokens : List Token} (h : ofText text = .ok tokens)
    {t : Token} (ht : t ∈ tokens) (hk : t.kind.isBare) : Unspaced t.raw := by
  have tiles : ∃ spans, Tiling ([] ++ text.toList) [].length tokens spans := scan_tiles h
  obtain ⟨spans, tiling⟩ := tiles
  obtain ⟨i, hi, rfl⟩ := List.getElem_of_mem ht
  obtain ⟨hlength, hplaced⟩ := List.forall₂_iff_get.mp tiling.placed
  exact (hplaced i hi (hlength ▸ hi)).unspaced hk

/-- White space is skipped, so none is refused. -/
theorem scan_stray {blocks : Blocks} {here : Location} {text : List Char} {e : ScanError} {c : Char}
    (h : scan blocks here text = .error e) (hc : e.flaw = .strayCharacter c) :
    isWhiteSpace c = false := by
  fun_induction scan blocks here text with
  | case1 => cases h
  | case2 blocks here d rest hblank ih => exact ih h
  | case3 blocks here d rest hsolid flaw hread =>
    cases h
    rw [show flaw = _ from hc] at hread
    rw [read_stray hread]
    simpa using hsolid
  | case4 blocks here d rest hsolid lexeme hread after blocks' e' hscan ih =>
    cases h
    exact ih hscan
  | case5 => cases h

end Token

end SchemaLang
