import Mathlib.Data.List.Infix
import SchemaLang.Proofs.Wording.Settled

namespace SchemaLang

open Text Lexical

namespace Rewording

theorem isDecimalDigit_of_isDigit {c : Char} (h : c.isDigit) : isDecimalDigit c := by
  have common : ∀ n ∈ List.range' 48 10, covers decimalDigitSpans n = true := by decide
  simp only [Char.isDigit, Bool.and_eq_true, decide_eq_true_eq, ge_iff_le] at h
  have low : 48 ≤ c.toNat := UInt32.le_iff_toNat_le.mp h.1
  have high : c.toNat ≤ 57 := UInt32.le_iff_toNat_le.mp h.2
  exact common _ (List.mem_range'_1.mpr (by omega))

theorem isDigit_of_mem_numeral {n : Nat} {c : Char} (h : c ∈ Nat.toDigits 10 n) : c.isDigit :=
  Nat.isDigit_of_mem_toDigits (by decide) (by decide) h

theorem readWord32?_toDigits (n : UInt32) :
    readWord32? (Nat.toDigits 10 n.toNat) = some n.toNat := by
  have nonempty : Nat.toDigits 10 n.toNat ≠ [] := Nat.toDigits_ne_nil
  have digits : (Nat.toDigits 10 n.toNat).all Char.isDigit = true :=
    List.all_eq_true.mpr fun c => isDigit_of_mem_numeral
  have value : Decimal.digitsValue (Nat.toDigits 10 n.toNat) = n.toNat :=
    Nat.ofDigitChars_ten_toDigits
  have small : n.toNat < UInt32.size := n.toNat_lt
  simp [readWord32?, nonempty, digits, value, small]

/-- The words that give a position at the end of a message. -/
def positionWords (line column : UInt32) : String :=
  " at line " ++ toString line.toNat ++ " char " ++ toString column.toNat

theorem toList_positionWords (line column : UInt32) : (positionWords line column).toList =
    ' ' :: ("at line ".toList ++ (Nat.toDigits 10 line.toNat ++ (" char ".toList ++
      Nat.toDigits 10 column.toNat))) := by
  simp [positionWords]

/-- White space, the words for a position and a full stop are a position. -/
theorem position_of_words {blank stop : List Char} (hblank : ∀ c ∈ blank, isWhiteSpace c)
    (hstop : stop = [] ∨ stop = ['.']) (line column : UInt32) :
    Position (Nat.toDigits 10 line.toNat) (Nat.toDigits 10 column.toNat)
      (blank ++ ((positionWords line column).toList ++ stop)) := by
  have numeral {n : Nat} : ∀ c ∈ Nat.toDigits 10 n, isDecimalDigit c :=
    fun c hc => isDecimalDigit_of_isDigit (isDigit_of_mem_numeral hc)
  have white : ∀ c ∈ blank ++ [' '], isWhiteSpace c := by
    have space : isWhiteSpace ' ' = true := by decide
    simpa [or_imp, forall_and, space] using hblank
  have none : ∀ c ∈ ([] : List Char), isWhiteSpace c := by simp
  have position : Position (Nat.toDigits 10 line.toNat) (Nat.toDigits 10 column.toNat) _ :=
    .mk (by simp) white Nat.toDigits_ne_nil numeral Nat.toDigits_ne_nil numeral hstop none
  rw [toList_positionWords]
  simpa only [List.append_assoc, List.cons_append, List.nil_append, List.append_nil] using position

/-- After each blank of the generic message a letter follows that starts no position. -/
theorem generic_tails : ∀ rest ∈ "Failed to match sequence".toList.tails,
    rest.head?.all (!isWhiteSpace ·) ||
      rest.tail.head?.any fun d => !isWhiteSpace d && d != 'a' := by
  decide

/-- A position is not what goes on in the generic message. -/
theorem Position.not_prefix {line column pos : List Char} (h : Position line column pos)
    {rest : List Char} (hrest : rest <:+ "Failed to match sequence".toList) (hne : rest ≠ []) :
    ¬rest <+: pos := by
  intro hprefix
  obtain ⟨c, rest, rfl⟩ := List.exists_cons_of_ne_nil hne
  have apart := generic_tails _ ((List.mem_tails _ _).mpr hrest)
  obtain @⟨blank, stop, space, hblank, hwhite, -⟩ := h
  obtain ⟨b, bs, rfl⟩ := List.exists_cons_of_ne_nil hblank
  obtain ⟨rfl, hnext⟩ := List.cons_prefix_cons.mp hprefix
  have first : isWhiteSpace c = true := hwhite c (List.mem_cons_self ..)
  cases rest with
  | nil => simp [first] at apart
  | cons d rest =>
    have other : isWhiteSpace d = false ∧ d ≠ 'a' := by simpa [first] using apart
    cases bs with
    | nil => exact other.2 (List.cons_prefix_cons.mp hnext).1
    | cons e bs =>
      obtain ⟨rfl, -⟩ := List.cons_prefix_cons.mp hnext
      rw [hwhite d (by simp)] at other
      cases other.1

theorem isGeneric_iff {text : List Char} :
    isGeneric text ↔ "Failed to match sequence".toList <+: text :=
  after?_isSome_iff

/-- A position after a text that is not generic does not make it so. -/
theorem isGeneric_append {line column pos text : List Char} (h : Position line column pos)
    (htext : isGeneric text = false) : isGeneric (text ++ pos) = false := by
  rw [Bool.eq_false_iff] at htext ⊢
  rintro hlong
  obtain ⟨more, hmore⟩ := isGeneric_iff.mp hlong
  rcases List.append_eq_append_iff.mp hmore with ⟨rest, rfl, -⟩ | ⟨rest, hwords, rfl⟩
  · exact htext (isGeneric_iff.mpr (List.prefix_append _ _))
  · by_cases hrest : rest = []
    · rw [hrest, List.append_nil] at hwords
      exact htext (isGeneric_iff.mpr (hwords ▸ List.prefix_rfl))
    · have ends : rest <:+ "Failed to match sequence".toList := ⟨text, hwords.symm⟩
      exact h.not_prefix ends hrest (List.prefix_append _ _)

/-- A line that adds no cause: only drawing, or no more than that a sequence failed. -/
structure Mute (line : String) : Prop where
  oneLine : OneLine line
  idle : (∀ c ∈ line.toList, isMarker c) ∨
    "Failed to match sequence".toList <+: line.toList.dropWhile isMarker

theorem Mute.undrawn {line : String} (h : Mute line) :
    undrawn line.toList = [] ∨ isGeneric (undrawn line.toList) := by
  rw [undrawn_eq_rdropWhile]
  rcases h.idle with hdrawn | hgeneric
  · rw [List.dropWhile_eq_nil_iff.mpr hdrawn, List.rdropWhile_nil]
    exact .inl rfl
  · refine .inr (isGeneric_iff.mpr (prefix_rdropWhile hgeneric ?_))
    rintro c ⟨⟩
    rfl

/-- A line with a cause of its own, which says more than that a sequence failed and where no
position is given. -/
structure Specific (line : String) : Prop where
  oneLine : OneLine line
  nonempty : undrawn line.toList ≠ []
  telling : ¬"Failed to match sequence".toList <+: undrawn line.toList
  unplaced : ¬EndsInPosition (undrawn line.toList)

/-- The last line that is neither empty nor generic is the one that is taken. -/
theorem deepestCause_intercalate {before after : List (List Char)} {line : List Char}
    (hbefore : ∀ l ∈ before, '\n' ∉ l) (hline : '\n' ∉ line) (hafter : ∀ l ∈ after, '\n' ∉ l)
    (hne : undrawn line ≠ []) (htelling : isGeneric (undrawn line) = false)
    (hidle : ∀ l ∈ after, undrawn l = [] ∨ isGeneric (undrawn l)) :
    deepestCause (['\n'].intercalate (before ++ line :: after)) = undrawn line := by
  have oneLine : ∀ l ∈ before ++ line :: after, '\n' ∉ l := by
    simp only [List.mem_append, List.mem_cons]
    rintro l (hl | rfl | hl)
    · exact hbefore l hl
    · exact hline
    · exact hafter l hl
  have later : ((after.map undrawn).filter (!·.isEmpty)).reverse.find? (!isGeneric ·) = none := by
    simp only [List.find?_eq_none, List.mem_reverse, List.mem_filter, List.mem_map]
    rintro cause ⟨⟨l, hl, rfl⟩, hcause⟩
    rcases hidle l hl with hnil | hgeneric
    · simp [hnil] at hcause
    · simp [hgeneric]
  rw [deepestCause_eq, causes_intercalate oneLine, List.map_append, List.filter_append,
    List.map_cons, List.filter_cons_of_pos (by simpa using hne), List.reverse_append,
    List.reverse_cons, List.append_assoc, List.find?_append, later]
  simp [htelling]

theorem oneLine_positionWords (line column : UInt32) : OneLine (positionWords line column) := by
  have numeral (n : Nat) : '\n' ∉ Nat.toDigits 10 n := by
    intro hmem
    cases isDigit_of_mem_numeral hmem
  rw [OneLine, toList_positionWords]
  simp [numeral]

theorem getLast?_positionWords {stop : String} (hstop : stop = "" ∨ stop = ".")
    (line column : UInt32) :
    ∃ c, ((positionWords line column).toList ++ stop.toList).getLast? = some c ∧
      isWhiteSpace c = false := by
  rcases hstop with rfl | rfl
  · have nonempty : Nat.toDigits 10 column.toNat ≠ [] := Nat.toDigits_ne_nil
    have digit := isDecimalDigit_of_isDigit (isDigit_of_mem_numeral (List.getLast_mem nonempty))
    refine ⟨(Nat.toDigits 10 column.toNat).getLast nonempty, ?_, ?_⟩
    · rw [toList_positionWords]
      simp [List.getLast?_cons, List.getLast?_append, List.getLast?_eq_some_getLast nonempty]
    · apply Bool.eq_false_iff.mpr
      intro hwhite
      rw [isDecimalDigit_of_isWhiteSpace hwhite] at digit
      cases digit
  · exact ⟨'.', by simp, by decide⟩

section

variable {m drawing stop ending : String} (hm : Specific m)
  (hdrawing : OneLine drawing ∧ ∀ c ∈ drawing.toList, isMarker c)
  (hstop : stop = "" ∨ stop = ".") (hending : ending = "" ∨ ending = "\r") (line column : UInt32)

include hm hdrawing hstop hending

/-- The line of a cause with its position: the cause of the line is the cause and a position. -/
theorem Specific.placed :
    ∃ pos, Position (Nat.toDigits 10 line.toNat) (Nat.toDigits 10 column.toNat) pos ∧
    undrawn (drawing ++ m ++ positionWords line column ++ stop ++ ending).toList =
      undrawn m.toList ++ pos := by
  obtain ⟨space, hspace, hwhite⟩ := exists_undrawn_append m.toList
  have white : ∀ c ∈ ending.toList, isWhiteSpace c := by
    rcases hending with rfl | rfl
    · simp
    · exact List.forall_mem_singleton.mpr rfl
  have point : stop.toList = [] ∨ stop.toList = ['.'] := by
    rcases hstop with rfl | rfl
    · exact .inl rfl
    · exact .inr rfl
  refine ⟨_, position_of_words hwhite point line column, ?_⟩
  have bare (words : List Char) : (drawing.toList ++ (m.toList ++ words)).dropWhile isMarker =
      undrawn m.toList ++ (space ++ words) := by
    rw [List.dropWhile_append_of_pos hdrawing.2, List.dropWhile_append, hspace, if_neg,
      List.append_assoc]
    simp [hm.nonempty]
  obtain ⟨c, hlast, hsolid⟩ := getLast?_positionWords hstop line column
  simp only [String.toList_append]
  rw [undrawn_append white, undrawn_eq_rdropWhile]
  simp only [List.append_assoc]
  rw [bare]
  apply rdropWhile_eq_self
  intro d hd
  rw [← List.append_assoc, List.getLast?_append, hlast] at hd
  cases hd
  exact hsolid

end

/-- A tree of causes says what its deepest specific line says, and is placed where that line is. -/
theorem reword_tree (before after : List String) (m drawing stop ending : String)
    (line column : UInt32) (hbefore : ∀ line ∈ before, OneLine line)
    (hdrawing : OneLine drawing ∧ ∀ c ∈ drawing.toList, isMarker c) (hm : Specific m)
    (hstop : stop = "" ∨ stop = ".") (hending : ending = "" ∨ ending = "\r")
    (hafter : ∀ line ∈ after, Mute line) :
    let raw := "\n".intercalate
      (before ++ (drawing ++ m ++ positionWords line column ++ stop ++ ending) :: after)
    location? raw = some ⟨line.toNat, column.toNat⟩ ∧ reword raw = reword m := by
  intro raw
  have oneLine : OneLine (drawing ++ m ++ positionWords line column ++ stop ++ ending) := by
    have point : OneLine stop := by
      rcases hstop with rfl | rfl <;> exact oneLine_ofList (by decide)
    have back : OneLine ending := by
      rcases hending with rfl | rfl <;> exact oneLine_ofList (by decide)
    simp [hdrawing.1, hm.oneLine, oneLine_positionWords, point, back]
  obtain ⟨pos, hpos, hcause⟩ := hm.placed hdrawing hstop hending line column
  have bare := undrawn_undrawn hm.oneLine
  have telling : isGeneric (undrawn m.toList) = false :=
    Bool.eq_false_iff.mpr fun h => hm.telling (isGeneric_iff.mp h)
  have deepest : deepestCause raw.toList = undrawn m.toList ++ pos := by
    have found := isGeneric_append hpos telling
    have nonempty : undrawn m.toList ++ pos ≠ [] := by simp [hm.nonempty]
    rw [← hcause] at found nonempty ⊢
    rw [show raw = _ from rfl, String.toList_intercalate, List.map_append, List.map_cons]
    refine deepestCause_intercalate ?_ oneLine ?_ nonempty found ?_
    · exact List.forall_mem_map.mpr hbefore
    · exact List.forall_mem_map.mpr fun l hl => (hafter l hl).oneLine
    · exact List.forall_mem_map.mpr fun l hl => (hafter l hl).undrawn
  have split := splitPosition_append hpos bare.last
  have alone : splitPosition (deepestCause m.toList) = (undrawn m.toList, none) := by
    rw [deepestCause_of_not_mem hm.oneLine, splitPosition_of_not hm.unplaced]
  constructor
  · simp [location?, deepest, split, readWord32?_toDigits]
  · rw [reword, deepest, split, reword, alone]

theorem reword_tree_three_lines :
    Specific "Expected \"end\", but got \"at line 9 char\"" ∧
      let raw := "\n".intercalate ["Failed to match sequence (A B) at line 1 char 1.",
        "|  \x60- Expected \"end\", but got \"at line 9 char\" at line 3 char 4294967295.\r",
        "   +- Failed to match sequence (C) at line 5 char 6"]
      location? raw = some ⟨3, 4294967295⟩ ∧
        reword raw = reword "Expected \"end\", but got \"at line 9 char\"" ∧
        reword raw = "Missing 'end' keyword, but got \"at line 9 char\"" := by
  have specific : Specific "Expected \"end\", but got \"at line 9 char\"" :=
    ⟨by decide, by decide, by decide, by decide⟩
  have later : ∀ line ∈ ["   +- Failed to match sequence (C) at line 5 char 6"], Mute line := by
    simpa using ⟨by decide, .inr (by decide)⟩
  have tree := reword_tree ["Failed to match sequence (A B) at line 1 char 1."]
    ["   +- Failed to match sequence (C) at line 5 char 6"]
    "Expected \"end\", but got \"at line 9 char\"" "|  \x60- " "." "\r" 3 4294967295
    (by decide) ⟨by decide, List.all_eq_true.mp (by decide)⟩ specific (.inr rfl) (.inr rfl) later
  have alone : reword "Expected \"end\", but got \"at line 9 char\"" =
      "Missing 'end' keyword, but got \"at line 9 char\"" := by decide +kernel
  exact ⟨specific, tree.1, tree.2, tree.2.trans alone⟩

end Rewording

end SchemaLang
