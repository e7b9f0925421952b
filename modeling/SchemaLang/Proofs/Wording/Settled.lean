import SchemaLang.Proofs.Wording.Cause

namespace SchemaLang

open Text

namespace Rewording

/-- What a position may end in: a digit, a full stop or white space. -/
def endsPosition (c : Char) : Bool := isDecimalDigit c || c = '.' || isWhiteSpace c

theorem Position.endsPosition_of_getLast? {line column pos : List Char}
    (h : Position line column pos) {c : Char} (hc : pos.getLast? = some c) : endsPosition c := by
  obtain @⟨blank, stop, space, -, -, -, -, hcolumn, hdigits, hstop, hspace⟩ := h
  have nonempty : column ++ (stop ++ space) ≠ [] := by simp [hcolumn]
  have last : c ∈ column ++ (stop ++ space) := by
    simp only [← List.append_assoc] at hc nonempty ⊢
    rw [List.append_assoc, List.append_assoc, List.getLast?_append,
      ← List.append_assoc, List.getLast?_eq_some_getLast nonempty] at hc
    cases hc
    exact List.getLast_mem nonempty
  simp only [List.mem_append] at last
  rcases last with hmem | hmem | hmem
  · simp [endsPosition, hdigits c hmem]
  · rcases hstop with rfl | rfl
    · cases hmem
    · simp [endsPosition, List.mem_singleton.mp hmem]
  · simp [endsPosition, hspace c hmem]

theorem Position.words {line column pos : List Char} (h : Position line column pos) :
    "at line ".toList <:+: pos := by
  obtain @⟨blank, _, _, _⟩ := h
  exact ⟨blank, _, by rw [List.append_assoc]⟩

/-- Enough of the start of each text that a rule rewords to tell it from other messages. -/
def openings : List (List Char) :=
  [['E', 'x', 'p', 'e', 'c', 't', 'e', 'd', ' ', '"'],
    ['E', 'x', 'p', 'e', 'c', 't', 'e', 'd', ' ', 'o'],
    ['P', 'r'], ['E', 'x', 't'], ['D', 'o', 'n'], ['F']]

theorem after?_eq_none {start : String} {opening text : List Char}
    (hstart : opening <+: start.toList) (h : ¬opening <+: text) : after? start text = none := by
  apply if_neg
  intro hprefix
  exact h (hstart.trans (List.isPrefixOf_iff_prefix.mp hprefix))

/-- A line that starts as no other rule asks for is reworded as a list of alternatives or not at
all. -/
theorem rewordLine_eq_alternatives {text : List Char}
    (h : ∀ opening ∈ openings, opening ≠ "Expected o".toList → ¬opening <+: text) :
    rewordLine text = (alternatives? text).getD text := by
  have quoted : after? "Expected \"" text = none :=
    after?_eq_none (by decide) (h _ (.head _) (by decide))
  have premature : text ≠ "Premature end of input".toList := by
    rintro rfl
    exact h ['P', 'r'] (by decide) (by decide) (by decide)
  have extra : text ≠ "Extra input after last repetition".toList := by
    rintro rfl
    exact h ['E', 'x', 't'] (by decide) (by decide) (by decide)
  have unknown : after? "Don't know what to do with " text = none :=
    after?_eq_none (by decide) (h ['D', 'o', 'n'] (by decide) (by decide))
  have failed : after? "Failed to match " text = none :=
    after?_eq_none (by decide) (h ['F'] (by decide) (by decide))
  have expectation : expectation? text = none := by simp [expectation?, quoted]
  have general : general? text = none := by
    rw [general?, if_neg premature, if_neg, if_neg]
    · simp [failed]
    · exact not_or.mpr ⟨extra, by simp [unknown]⟩
  rw [rewordLine, expectation, general]
  cases alternatives? text <;> rfl

/-- A line that starts as no rule asks for stays as it is. -/
theorem rewordLine_eq_self {text : List Char} (h : ∀ opening ∈ openings, ¬opening <+: text) :
    rewordLine text = text := by
  have listed : after? "Expected one of [" text = none :=
    after?_eq_none (by decide) (h _ (.tail _ (.head _)))
  have alternatives : alternatives? text = none := by simp [alternatives?, listed]
  rw [rewordLine_eq_alternatives fun opening hmem _ => h opening hmem, alternatives]
  rfl

end Rewording

open Rewording

def OneLine (text : String) : Prop := '\n' ∉ text.toList

instance (text : String) : Decidable (OneLine text) := inferInstanceAs (Decidable ('\n' ∉ _))

@[simp] theorem oneLine_append {s t : String} : OneLine (s ++ t) ↔ OneLine s ∧ OneLine t := by
  simp [OneLine]

theorem oneLine_ofList {text : List Char} (h : '\n' ∉ text) : OneLine (String.ofList text) := by
  rwa [OneLine, String.toList_ofList]

/-- Whether a text starts a message of its own: not with the drawing of a tree, and apart from each
opening before either ends. -/
def isFirm (start : List Char) : Bool :=
  start.head?.any (!isMarker ·) &&
    openings.all fun opening => !opening.isPrefixOf start && !start.isPrefixOf opening

/-- A text that may start a message that is left as it is. -/
structure Opens (text : String) : Prop where
  oneLine : OneLine text
  firm : ∃ start, start <+: text.toList ∧ isFirm start

/-- A text that may end a message that is left as it is. -/
structure Closes (text : String) : Prop where
  oneLine : OneLine text
  last : ∃ c, text.toList.getLast? = some c ∧ endsPosition c = false

/-- A message that is left as it is. -/
structure Settled (message : String) : Prop where
  opens : Opens message
  trimmed : ∀ c ∈ message.toList.getLast?, isWhiteSpace c = false
  unplaced : ¬EndsInPosition message.toList

theorem opens_ofList {text : List Char} (h : '\n' ∉ text ∧ isFirm text) :
    Opens (String.ofList text) :=
  ⟨oneLine_ofList h.1, text, by simp, h.2⟩

theorem Opens.append {s t : String} (hs : Opens s) (ht : OneLine t) : Opens (s ++ t) := by
  obtain ⟨hline, start, hstart, hfirm⟩ := hs
  refine ⟨oneLine_append.mpr ⟨hline, ht⟩, start, ?_, hfirm⟩
  rw [String.toList_append]
  exact hstart.trans (List.prefix_append _ _)

theorem closes_ofList {text : List Char} (h : '\n' ∉ text ∧ (text.getLast?.any (!endsPosition ·))) :
    Closes (String.ofList text) := by
  refine ⟨oneLine_ofList h.1, ?_⟩
  rw [String.toList_ofList]
  cases hlast : text.getLast? with
  | none => simp [hlast] at h
  | some c => exact ⟨c, rfl, by simpa [hlast] using h.2⟩

theorem Closes.append {s t : String} (ht : Closes t) (hs : OneLine s) : Closes (s ++ t) := by
  obtain ⟨hline, c, hc, hends⟩ := ht
  refine ⟨oneLine_append.mpr ⟨hs, hline⟩, c, ?_, hends⟩
  rw [String.toList_append, List.getLast?_append, hc]
  rfl

/-- A message that ends firmly ends in no position. -/
theorem Settled.of_closes {message : String} (ho : Opens message) (hc : Closes message) :
    Settled message := by
  obtain ⟨-, c, hlast, hends⟩ := hc
  refine ⟨ho, ?_, ?_⟩
  · intro d hd
    cases hlast.symm.trans hd
    simp only [endsPosition, Bool.or_eq_false_iff] at hends
    exact hends.2
  · rintro ⟨before, pos, line, column, hmessage, hpos⟩
    obtain ⟨_, _, hcons, -⟩ := hpos.exists_cons
    have nonempty : pos ≠ [] := by simp [hcons]
    have last : pos.getLast? = some c := by
      rw [hmessage, List.getLast?_append, List.getLast?_eq_some_getLast nonempty] at hlast
      rw [List.getLast?_eq_some_getLast nonempty]
      exact hlast
    rw [hpos.endsPosition_of_getLast? last] at hends
    cases hends

theorem Opens.ends {s t : String} (hs : Opens s) (ht : Closes t) : Settled (s ++ t) :=
  .of_closes (hs.append ht.oneLine) (ht.append hs.oneLine)

/-- A text that ends in a space stands in none without one, so it stands before that. -/
theorem infix_of_append_space {words start text : List Char} (h : words ++ [' '] <:+: start ++ text)
    (htext : ' ' ∉ text) : words ++ [' '] <:+: start := by
  obtain ⟨before, after, heq⟩ := h
  rcases List.append_eq_append_iff.mp heq with ⟨more, hstart, -⟩ | ⟨more, hwords, htail⟩
  · exact ⟨before, more, hstart.symm⟩
  · cases List.eq_nil_or_concat more with
    | inl hnil =>
      rw [hnil, List.append_nil] at hwords
      exact ⟨before, [], by rw [List.append_nil, hwords]⟩
    | inr hmore =>
      obtain ⟨init, last, rfl⟩ := hmore
      rw [List.concat_eq_append, ← List.append_assoc, ← List.append_assoc] at hwords
      obtain ⟨-, hlast⟩ := List.append_inj' hwords rfl
      cases hlast
      exact absurd (by simp [htail]) htext

/-- A message that ends in a text without white space has all the words of a position before it. -/
theorem Settled.of_bare {start : List Char} {text : String}
    (hstart : '\n' ∉ start ∧ isFirm start ∧ ¬['a', 't', ' ', 'l', 'i', 'n', 'e', ' '] <:+: start)
    (hne : text ≠ "") (hblank : ∀ c ∈ text.toList, isWhiteSpace c = false) :
    Settled (String.ofList start ++ text) := by
  obtain ⟨hline, hfirm, hwords⟩ := hstart
  have oneLine : OneLine text := by
    intro hmem
    cases hblank _ hmem
  have joined : (String.ofList start ++ text).toList = start ++ text.toList := by simp
  refine ⟨(opens_ofList ⟨hline, hfirm⟩).append oneLine, ?_, ?_⟩
  · intro c hc
    apply hblank c
    have nonempty : text.toList ≠ [] := by simpa using hne
    rw [joined, List.getLast?_append, List.getLast?_eq_some_getLast nonempty] at hc
    cases hc
    exact List.getLast_mem nonempty
  · rintro ⟨before, pos, line, column, hmessage, hpos⟩
    have here : "at line ".toList <:+: start ++ text.toList := by
      rw [← joined, hmessage]
      exact hpos.words.trans (List.suffix_append _ _).isInfix
    have space : ' ' ∉ text.toList := by
      intro hmem
      cases hblank _ hmem
    have words : ['a', 't', ' ', 'l', 'i', 'n', 'e'] ++ [' '] <:+: start :=
      infix_of_append_space here space
    exact absurd words hwords

namespace Settled

variable {message : String} (h : Settled message)

include h

theorem not_marker : ∀ c ∈ message.toList.head?, isMarker c = false := by
  obtain ⟨start, ⟨rest, hrest⟩, hfirm⟩ := h.opens.firm
  intro c hc
  cases start with
  | nil => simp [isFirm] at hfirm
  | cons d start =>
    rw [← hrest] at hc
    cases hc
    simp only [isFirm, List.head?_cons, Option.any_some, Bool.and_eq_true, Bool.not_eq_eq_eq_not,
      Bool.not_true] at hfirm
    exact hfirm.1

theorem undrawn : Undrawn message.toList := ⟨h.opens.oneLine, h.not_marker, h.trimmed⟩

theorem not_opening : ∀ opening ∈ openings, ¬opening <+: message.toList := by
  obtain ⟨start, hstart, hfirm⟩ := h.opens.firm
  intro opening hmem hopening
  simp only [isFirm, Bool.and_eq_true, List.all_eq_true] at hfirm
  have apart := hfirm.2 opening hmem
  simp only [Bool.not_eq_eq_eq_not, Bool.not_true, ← Bool.not_eq_true,
    List.isPrefixOf_iff_prefix] at apart
  rcases List.prefix_or_prefix_of_prefix hopening hstart with hp | hp
  · exact apart.1 hp
  · exact apart.2 hp

theorem reword_eq : reword message = message := by
  rw [reword, h.undrawn.deepestCause_eq, splitPosition_of_not h.unplaced]
  dsimp only
  rw [h.undrawn.trim_eq, rewordLine_eq_self h.not_opening, String.ofList_toList]

end Settled

end SchemaLang
