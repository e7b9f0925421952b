import SchemaLang.Proofs.Lexical.Read
import SchemaLang.Report.Rewording

namespace SchemaLang.Rewording

open Text Lexical

theorem after?_append (start : String) (rest : List Char) :
    after? start (start.toList ++ rest) = some rest := by
  rw [after?, if_pos (List.isPrefixOf_iff_prefix.mpr (List.prefix_append _ _))]
  simp [← String.length_toList]

theorem after?_eq_some {start : String} {text rest : List Char}
    (h : after? start text = some rest) :
    start.toList ++ rest = text := by
  rw [after?] at h
  split at h
  · next hprefix =>
    obtain ⟨more, rfl⟩ := List.isPrefixOf_iff_prefix.mp hprefix
    cases h
    simp [← String.length_toList]
  · cases h

theorem after?_isSome_iff {start : String} {text : List Char} :
    (after? start text).isSome ↔ start.toList <+: text := by
  constructor
  · intro h
    obtain ⟨rest, hrest⟩ := Option.isSome_iff_exists.mp h
    exact ⟨rest, after?_eq_some hrest⟩
  · rintro ⟨rest, rfl⟩
    rw [after?_append]
    rfl

/-- A text that is ` at line L char C`, perhaps with a full stop and white space after it. -/
inductive Position (line column : List Char) : List Char → Prop
  | mk {blank stop space : List Char} : blank ≠ [] → (∀ c ∈ blank, isWhiteSpace c) →
    line ≠ [] → (∀ c ∈ line, isDecimalDigit c) → column ≠ [] → (∀ c ∈ column, isDecimalDigit c) →
    stop = [] ∨ stop = ['.'] → (∀ c ∈ space, isWhiteSpace c) →
    Position line column (blank ++ ("at line ".toList ++ (line ++ (" char ".toList ++
      (column ++ (stop ++ space))))))

theorem isDecimalDigit_of_isWhiteSpace {c : Char} (h : isWhiteSpace c) :
    isDecimalDigit c = false := by
  have apart : ∀ s ∈ whiteSpaceSpans, ∀ n ∈ List.range' s.1 (s.2 - s.1 + 1),
      covers decimalDigitSpans n = false := by decide
  exact covers_eq_false_of_apart apart h

/-- A full stop and white space end the digits before them, and the stop is told from the space. -/
theorem ending_of_stop {stop space : List Char} (hstop : stop = [] ∨ stop = ['.'])
    (hspace : ∀ c ∈ space, isWhiteSpace c) :
    starts isDecimalDigit (stop ++ space) = false ∧
      (after? "." (stop ++ space)).getD (stop ++ space) = space := by
  rcases hstop with rfl | rfl
  · cases space with
    | nil => exact ⟨rfl, rfl⟩
    | cons c space =>
      have white := hspace c (List.mem_cons_self ..)
      have other : '.' ≠ c := by
        rintro rfl
        cases white
      refine ⟨isDecimalDigit_of_isWhiteSpace white, ?_⟩
      simp [after?, other]
  · refine ⟨rfl, ?_⟩
    rw [show ['.'] ++ space = ".".toList ++ space from rfl, after?_append]
    rfl

theorem position?_of_position {line column text : List Char} (h : Position line column text) :
    position? text = some (line, column) := by
  obtain @⟨blank, stop, space, hblank, hwhite, hline, hdigits, hcolumn, hdigits', hstop,
    hspace⟩ := h
  obtain ⟨hends, hrest⟩ := ending_of_stop hstop hspace
  obtain ⟨b, bs, rfl⟩ := List.exists_cons_of_ne_nil hblank
  have first : isWhiteSpace b = true := hwhite b (List.mem_cons_self ..)
  have words (rest : List Char) : starts isWhiteSpace ("at line ".toList ++ rest) = false := rfl
  have gap (rest : List Char) : starts isDecimalDigit (" char ".toList ++ rest) = false := rfl
  have spaced : space.all isWhiteSpace = true := by simpa using hspace
  unfold position?
  rw [dropWhile_of_starts hwhite (words _), after?_append]
  simp only [List.cons_append, List.head?_cons, Option.any_some, first, Option.bind_eq_bind,
    Option.bind_some, takeWhile_of_starts hdigits (gap _), dropWhile_of_starts hdigits (gap _),
    after?_append, takeWhile_of_starts hdigits' hends, dropWhile_of_starts hdigits' hends, hrest,
    spaced]
  simp [hline, hcolumn]

theorem position_of_position? {text : List Char} {p : List Char × List Char}
    (h : position? text = some p) : Position p.1 p.2 text := by
  unfold position? at h
  simp only [Bool.not_eq_eq_eq_not, Bool.not_true, Bool.or_eq_true, List.isEmpty_iff,
    List.all_eq_false, Bool.not_eq_true, Option.pure_def, Option.bind_eq_bind, Option.bind_none,
    Option.ite_none_left_eq_some, Bool.not_eq_false] at h
  obtain ⟨hfirst, h⟩ := h
  obtain ⟨numbers, hwords, h⟩ := Option.bind_eq_some_iff.mp h
  obtain ⟨tail, hchar, h⟩ := Option.bind_eq_some_iff.mp h
  obtain ⟨hfine, hp⟩ := Option.ite_none_left_eq_some.mp h
  obtain ⟨hdigits, hblank⟩ := not_or.mp hfine
  obtain ⟨hline, hcolumn⟩ := not_or.mp hdigits
  obtain ⟨stop, space, hstop, hrest, hspace⟩ : ∃ stop space, (stop = [] ∨ stop = ['.']) ∧
      tail.dropWhile isDecimalDigit = stop ++ space ∧ ∀ c ∈ space, isWhiteSpace c := by
    cases hpoint : after? "." (tail.dropWhile isDecimalDigit) with
    | none =>
      rw [hpoint] at hblank
      exact ⟨[], _, .inl rfl, rfl, by simpa using hblank⟩
    | some space =>
      rw [hpoint] at hblank
      exact ⟨['.'], space, .inr rfl, (after?_eq_some hpoint).symm, by simpa using hblank⟩
  have whole : text = text.takeWhile isWhiteSpace ++ ("at line ".toList ++
      (numbers.takeWhile isDecimalDigit ++ (" char ".toList ++
        (tail.takeWhile isDecimalDigit ++ (stop ++ space))))) := by
    rw [← hrest, List.takeWhile_append_dropWhile, after?_eq_some hchar,
      List.takeWhile_append_dropWhile, after?_eq_some hwords, List.takeWhile_append_dropWhile]
  have gap : text.takeWhile isWhiteSpace ≠ [] := by
    cases text with
    | nil => cases hfirst
    | cons c text =>
      have white : isWhiteSpace c = true := by simpa using hfirst
      simp [white]
  obtain rfl := Option.some.inj hp
  rw [whole]
  exact .mk gap (fun _ => mem_takeWhile) hline (fun _ => mem_takeWhile) hcolumn
    (fun _ => mem_takeWhile) hstop hspace

theorem position?_eq_none {text : List Char} (h : ∀ line column, ¬Position line column text) :
    position? text = none := by
  cases hp : position? text with
  | none => rfl
  | some p => exact absurd (position_of_position? hp) (h p.1 p.2)

namespace Position

variable {line column pos : List Char}

theorem exists_cons (h : Position line column pos) :
    ∃ c rest, pos = c :: rest ∧ isWhiteSpace c := by
  obtain @⟨blank, _, _, hblank, hwhite, _⟩ := h
  obtain ⟨c, cs, rfl⟩ := List.exists_cons_of_ne_nil hblank
  exact ⟨c, _, rfl, hwhite c (List.mem_cons_self ..)⟩

/-- The second letter of a position stands in it once. -/
theorem count_t (h : Position line column pos) : pos.count 't' = 1 := by
  obtain @⟨blank, stop, space, _, hwhite, _, hdigits, _, hdigits', hstop, hspace⟩ := h
  have noSpace {s : List Char} (hs : ∀ c ∈ s, isWhiteSpace c) : s.count 't' = 0 :=
    List.count_eq_zero.mpr fun ht => absurd (hs _ ht) (by decide)
  have noDigit {s : List Char} (hs : ∀ c ∈ s, isDecimalDigit c) : s.count 't' = 0 :=
    List.count_eq_zero.mpr fun ht => absurd (hs _ ht) (by decide)
  have noStop : stop.count 't' = 0 := by
    rcases hstop with rfl | rfl
    · rfl
    · rfl
  have words : "at line ".toList.count 't' = 1 := by decide
  have word : " char ".toList.count 't' = 0 := by decide
  simp only [List.count_append, noSpace hwhite, words, noDigit hdigits, word, noDigit hdigits',
    noStop, noSpace hspace]

/-- A position does not start earlier than at the white space before its words. -/
theorem not_append (h : Position line column pos) {f : List Char} (hne : f ≠ [])
    (hlast : ∀ c ∈ f.getLast?, isWhiteSpace c = false) {line' column' : List Char} :
    ¬Position line' column' (f ++ pos) := by
  intro hlong
  have once := hlong.count_t
  rw [List.count_append, h.count_t] at once
  have noT : 't' ∉ f := List.count_eq_zero.mp (by omega)
  obtain ⟨c, rest, rfl, hc⟩ := h.exists_cons
  generalize htext : f ++ c :: rest = text at hlong
  obtain @⟨blank, stop, space, _, hwhite, _⟩ := hlong
  rcases List.append_eq_append_iff.mp htext with ⟨more, hblank, -⟩ | ⟨more, hf, hwords⟩
  · -- all of what stands before would be white space
    have last : f.getLast hne ∈ blank := by
      rw [hblank]
      exact List.mem_append_left _ (List.getLast_mem hne)
    have white := hlast _ (List.getLast_mem_getLast? hne)
    rw [hwhite _ last] at white
    cases white
  · match more with
    | [] =>
      have last : f.getLast hne ∈ blank := by
        rw [List.append_nil] at hf
        exact hf ▸ List.getLast_mem hne
      have white := hlast _ (List.getLast_mem_getLast? hne)
      rw [hwhite _ last] at white
      cases white
    | [a] =>
      have second : 't' = c := (List.cons.inj (List.cons.inj hwords).2).1
      rw [← second] at hc
      cases hc
    | a :: b :: more =>
      have second : 't' = b := (List.cons.inj (List.cons.inj hwords).2).1
      apply noT
      rw [hf, second]
      simp

end Position

def EndsInPosition (text : List Char) : Prop :=
  ∃ before pos line column, text = before ++ pos ∧ Position line column pos

/-- What stands before the white space of a position is what is left without it. -/
theorem splitPosition_append {line column pos f : List Char} (h : Position line column pos)
    (hlast : ∀ c ∈ f.getLast?, isWhiteSpace c = false) :
    splitPosition (f ++ pos) = (f, some (line, column)) := by
  induction f with
  | nil =>
    have found := position?_of_position h
    obtain ⟨c, rest, rfl, -⟩ := h.exists_cons
    rw [List.nil_append, splitPosition, found]
  | cons c f ih =>
    have last : ∀ d ∈ f.getLast?, isWhiteSpace d = false := by
      intro d hd
      cases f with
      | nil => cases hd
      | cons e f => exact hlast d (by rwa [List.getLast?_cons_cons])
    have none : position? (c :: (f ++ pos)) = none :=
      position?_eq_none fun _ _ => h.not_append (List.cons_ne_nil c f) hlast
    rw [List.cons_append, splitPosition, none]
    dsimp only
    rw [ih last]

theorem splitPosition_of_not {text : List Char} (h : ¬EndsInPosition text) :
    splitPosition text = (text, none) := by
  induction text with
  | nil => rfl
  | cons c text ih =>
    have whole : position? (c :: text) = none :=
      position?_eq_none fun line column hpos => h ⟨[], _, line, column, rfl, hpos⟩
    have inner : ¬EndsInPosition text := by
      rintro ⟨before, pos, line, column, rfl, hpos⟩
      exact h ⟨c :: before, pos, line, column, rfl, hpos⟩
    rw [splitPosition, whole]
    dsimp only
    rw [ih inner]

theorem exists_of_splitPosition {text line column : List Char}
    (h : (splitPosition text).2 = some (line, column)) :
    ∃ pos, text = (splitPosition text).1 ++ pos ∧ Position line column pos := by
  induction text with
  | nil => cases h
  | cons c text ih =>
    rw [splitPosition] at h ⊢
    split at h
    · next p hp =>
      cases h
      exact ⟨c :: text, rfl, position_of_position? hp⟩
    · obtain ⟨pos, htext, hpos⟩ := ih h
      exact ⟨pos, congrArg (c :: ·) htext, hpos⟩

theorem endsInPosition_iff {text : List Char} :
    EndsInPosition text ↔ (splitPosition text).2.isSome := by
  constructor
  · rintro ⟨before, pos, line, column, rfl, hpos⟩
    induction before with
    | nil => rw [splitPosition_append hpos (by simp)]; rfl
    | cons c before ih =>
      rw [List.cons_append, splitPosition]
      split
      · rfl
      · exact ih
  · intro h
    obtain ⟨p, hp⟩ := Option.isSome_iff_exists.mp h
    obtain ⟨pos, htext, hpos⟩ := exists_of_splitPosition hp
    exact ⟨_, pos, _, _, htext, hpos⟩

instance (text : List Char) : Decidable (EndsInPosition text) :=
  decidable_of_iff _ endsInPosition_iff.symm

end SchemaLang.Rewording
