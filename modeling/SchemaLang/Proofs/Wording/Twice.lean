import SchemaLang.Diagnostic.Basic
import SchemaLang.Proofs.Wording.Settled

namespace SchemaLang

open Text

namespace Rewording

theorem splitLast?_eq_some {mark : String} {text before after : List Char}
    (h : splitLast? mark text = some (before, after)) :
    text = before ++ (mark.toList ++ after) ∧ after ≠ [] := by
  induction text generalizing before after with
  | nil => cases h
  | cons c text ih =>
    rw [splitLast?] at h
    split at h
    · next before' after' hlater =>
      cases h
      obtain ⟨rfl, hne⟩ := ih hlater
      exact ⟨rfl, hne⟩
    · split at h
      · next d after' hhere =>
        cases h
        exact ⟨(after?_eq_some hhere).symm, by simp⟩
      · cases h

/-- A place of the mark is found, and none before a given one. -/
theorem splitLast?_append (mark : String) {after : List Char} (hne : after ≠ [])
    (before : List Char) : ∃ before' after',
      splitLast? mark (before ++ (mark.toList ++ after)) = some (before', after') ∧
        before.length ≤ before'.length := by
  induction before with
  | nil =>
    obtain ⟨d, after, rfl⟩ := List.exists_cons_of_ne_nil hne
    have here := after?_append mark (d :: after)
    rw [List.nil_append]
    cases htext : mark.toList ++ d :: after with
    | nil => simp at htext
    | cons c text =>
      rw [htext] at here
      rw [splitLast?, here]
      split
      · exact ⟨_, _, rfl, Nat.zero_le _⟩
      · exact ⟨_, _, rfl, Nat.le_refl _⟩
  | cons c before ih =>
    obtain ⟨before', after', hfound, hle⟩ := ih
    refine ⟨c :: before', after', ?_, by simpa using hle⟩
    rw [List.cons_append, splitLast?, hfound]

/-- Alternatives that are listed in brackets. -/
def Bracketed (text : List Char) : Prop :=
  ∃ names got, names ≠ [] ∧ got ≠ [] ∧
    text = "Expected one of [".toList ++ (names ++ ("], but got ".toList ++ got))

theorem alternatives?_eq_some {text result : List Char} (h : alternatives? text = some result) :
    ∃ names got, names ≠ [] ∧ got ≠ [] ∧
      text = "Expected one of [".toList ++ (names ++ ("], but got ".toList ++ got)) ∧
      result = "Expected one of ".toList ++ (names ++ (", but got ".toList ++ got)) := by
  simp only [alternatives?, Option.pure_def, Option.bind_eq_bind, Option.bind_none] at h
  obtain ⟨inner, hinner, h⟩ := Option.bind_eq_some_iff.mp h
  obtain ⟨⟨names, got⟩, hsplit, h⟩ := Option.bind_eq_some_iff.mp h
  obtain ⟨hwhole, hgot⟩ := splitLast?_eq_some hsplit
  obtain ⟨hnames, hresult⟩ := Option.ite_none_left_eq_some.mp h
  refine ⟨names, got, by simpa using hnames, hgot, ?_, ?_⟩
  · rw [← hwhole, after?_eq_some hinner]
  · rw [← Option.some.inj hresult, List.append_assoc, List.append_assoc]

theorem length_lt_of_alternatives? {text result : List Char}
    (h : alternatives? text = some result) :
    result.length < text.length := by
  obtain ⟨names, got, -, -, rfl, rfl⟩ := alternatives?_eq_some h
  have first : "Expected one of ".length < "Expected one of [".length := by decide
  have second : ", but got ".length < "], but got ".length := by decide
  simp only [List.length_append, String.length_toList]
  omega

theorem alternatives?_isSome_iff {text : List Char} :
    (alternatives? text).isSome ↔ Bracketed text := by
  constructor
  · intro h
    obtain ⟨result, hresult⟩ := Option.isSome_iff_exists.mp h
    obtain ⟨names, got, hnames, hgot, htext, -⟩ := alternatives?_eq_some hresult
    exact ⟨names, got, hnames, hgot, htext⟩
  · rintro ⟨names, got, hnames, hgot, rfl⟩
    obtain ⟨names', got', hfound, hle⟩ := splitLast?_append "], but got " hgot names
    have nonempty : names' ≠ [] := by
      rintro rfl
      exact hnames (List.eq_nil_of_length_eq_zero (Nat.le_zero.mp hle))
    rw [alternatives?, after?_append]
    simp only [Option.bind_eq_bind, Option.bind_some, hfound]
    simp [nonempty]

instance (text : List Char) : Decidable (Bracketed text) :=
  decidable_of_iff _ alternatives?_isSome_iff

/-- The words for what stood in the place of what was expected. -/
def Expectation.instead (e : Expectation) : List Char :=
  (e.got.map (", but got ".toList ++ ·)).getD []

theorem expectation?_eq_some {text : List Char} {e : Expectation} (h : expectation? text = some e) :
    text = "Expected \"".toList ++ (e.name ++ ('"' :: e.instead)) := by
  simp only [expectation?, Option.pure_def, Option.bind_eq_bind, Option.bind_none] at h
  obtain ⟨inner, hinner, h⟩ := Option.bind_eq_some_iff.mp h
  obtain ⟨-, h⟩ := Option.ite_none_left_eq_some.mp h
  have whole := List.takeWhile_append_dropWhile (p := (· ≠ '"')) (l := inner)
  rw [← after?_eq_some hinner]
  split at h
  · next hrest =>
    cases h
    rw [hrest] at whole
    exact congrArg _ whole.symm
  · obtain ⟨got, hgot, h⟩ := Option.bind_eq_some_iff.mp h
    obtain ⟨-, h⟩ := Option.ite_none_left_eq_some.mp h
    cases h
    rw [← after?_eq_some hgot] at whole
    exact congrArg _ whole.symm

theorem Expectation.exists_wording (e : Expectation) : ∃ what : String,
    (what = "Missing '" ++ String.ofList e.name ++ "' keyword" ∨
        what = "Missing ':' before symbol" ∨
        what = "Missing '" ++ String.ofList e.name ++ "'") ∧
      e.wording = what.toList ++ e.instead := by
  refine ⟨_, ?_, rfl⟩
  split
  · exact .inl rfl
  · split
    · exact .inr (.inl rfl)
    · exact .inr (.inr rfl)

theorem general?_eq_some {text : List Char} {result : String} (h : general? text = some result) :
    result ∈ ["Unexpected end of input", "Unexpected content after the end of the schema",
      "Invalid syntax"] ∧ result.toList.head? ≠ text.head? := by
  unfold general? at h
  split at h
  · next htext =>
    cases h
    refine ⟨by simp, ?_⟩
    rw [htext]
    decide
  split at h
  · next htext =>
    cases h
    refine ⟨by simp, ?_⟩
    rcases htext with htext | htext
    · rw [htext]
      decide
    · obtain ⟨rest, rfl⟩ := after?_isSome_iff.mp htext
      simp
  split at h
  · next htext =>
    cases h
    obtain ⟨rest, rfl⟩ := after?_isSome_iff.mp htext
    simp
  · cases h

/-- The rule that rewords a line, if one does. -/
theorem rewordLine_cases (text : List Char) :
    (∃ e, expectation? text = some e ∧ rewordLine text = e.wording) ∨
    (∃ result, alternatives? text = some result ∧ rewordLine text = result) ∨
    (∃ result, general? text = some result ∧ rewordLine text = result.toList) ∨
    (alternatives? text = none ∧ rewordLine text = text) := by
  unfold rewordLine
  cases expectation? text with
  | some e => exact .inl ⟨e, rfl, rfl⟩
  | none =>
    cases alternatives? text with
    | some result => exact .inr (.inl ⟨result, rfl, rfl⟩)
    | none =>
      cases general? text with
      | some result => exact .inr (.inr (.inl ⟨result, rfl, rfl⟩))
      | none => exact .inr (.inr (.inr ⟨rfl, rfl⟩))

/-- No rule rewords a text that starts with another letter than those of the rules. -/
theorem rewordLine_of_head {text : List Char} (h : ∀ c ∈ text.head?, c ∉ ['E', 'P', 'D', 'F']) :
    rewordLine text = text := by
  apply rewordLine_eq_self
  have letters : ∀ opening ∈ openings, opening.head?.any (· ∈ ['E', 'P', 'D', 'F']) := by decide
  intro opening hmem hprefix
  obtain ⟨c, hc, hletter⟩ := (Option.any_eq_true _ _).mp (letters opening hmem)
  obtain ⟨rest, rfl⟩ := hprefix
  apply h c _ (of_decide_eq_true hletter)
  rw [List.head?_append, hc]
  rfl

theorem head?_wording (e : Expectation) : e.wording.head? = some 'M' := by
  obtain ⟨what, hwhat, hwording⟩ := e.exists_wording
  rw [hwording]
  rcases hwhat with rfl | rfl | rfl <;> simp

/-- A rule gives a text that starts otherwise, or a shorter one. -/
theorem rewordLine_eq_or (text : List Char) : rewordLine text = text ∨
    (rewordLine text).head? ≠ text.head? ∨ (rewordLine text).length < text.length := by
  rcases rewordLine_cases text with ⟨e, he, hline⟩ | ⟨result, hr, hline⟩ | ⟨result, hr, hline⟩ |
    ⟨-, hline⟩
  · refine .inr (.inl ?_)
    rw [hline, head?_wording, expectation?_eq_some he]
    simp
  · refine .inr (.inr ?_)
    rw [hline]
    exact length_lt_of_alternatives? hr
  · refine .inr (.inl ?_)
    rw [hline]
    exact (general?_eq_some hr).2
  · exact .inl hline

/-- Alternatives are reworded by one rule alone. -/
theorem rewordLine_listed {text : List Char} (h : "Expected one of ".toList <+: text) :
    rewordLine text = (alternatives? text).getD text := by
  have apart : ∀ opening ∈ openings, opening ≠ "Expected o".toList →
      ¬opening <+: "Expected one of ".toList ∧ ¬"Expected one of ".toList <+: opening := by decide
  apply rewordLine_eq_alternatives
  intro opening hmem hne hprefix
  rcases List.prefix_or_prefix_of_prefix hprefix h with hp | hp
  · exact (apart opening hmem hne).1 hp
  · exact (apart opening hmem hne).2 hp

/-- What a rule gives is known to a rule only if it lists alternatives in brackets. -/
theorem rewordLine_rewordLine_eq_iff (text : List Char) :
    rewordLine (rewordLine text) = rewordLine text ↔ ¬Bracketed (rewordLine text) := by
  constructor
  · intro hsame hbracketed
    obtain ⟨result, hresult⟩ :=
      Option.isSome_iff_exists.mp (alternatives?_isSome_iff.mpr hbracketed)
    have listed : "Expected one of ".toList <+: rewordLine text := by
      obtain ⟨names, got, -, -, htext⟩ := hbracketed
      have opening : "Expected one of ".toList <+: "Expected one of [".toList := by decide
      rw [htext]
      exact opening.trans (List.prefix_append _ _)
    have shorter := length_lt_of_alternatives? hresult
    rw [rewordLine_listed listed, hresult] at hsame
    have same : result = rewordLine text := hsame
    rw [same] at shorter
    exact Nat.lt_irrefl _ shorter
  · intro hfree
    have unlisted : alternatives? (rewordLine text) = none := by
      rw [← Option.not_isSome_iff_eq_none, alternatives?_isSome_iff]
      exact hfree
    rcases rewordLine_cases text with ⟨e, he, hline⟩ | ⟨result, hr, hline⟩ | ⟨result, hr, hline⟩ |
      ⟨-, hline⟩
    · apply rewordLine_of_head
      rw [hline, head?_wording]
      rintro c ⟨⟩
      decide
    · obtain ⟨names, got, -, -, -, rfl⟩ := alternatives?_eq_some hr
      rw [hline] at unlisted ⊢
      rw [rewordLine_listed (List.prefix_append _ _), unlisted]
      rfl
    · apply rewordLine_of_head
      rw [hline]
      have other : ∀ s ∈ ["Unexpected end of input",
          "Unexpected content after the end of the schema", "Invalid syntax"],
          s.toList.head?.all (· ∉ ['E', 'P', 'D', 'F']) := by decide
      simpa [Option.all_eq_true] using other result (general?_eq_some hr).1
    · rw [hline, hline]

theorem getLast?_append_of_ne_nil {start text : List Char} (h : text ≠ []) :
    (start ++ text).getLast? = text.getLast? := by
  rw [List.getLast?_append, List.getLast?_eq_some_getLast h]
  rfl

/-- The wording for what is missing ends as the text that asks for it, or in a word of our own. -/
theorem Undrawn.wording {text : List Char} (h : Undrawn text) {e : Expectation}
    (htext : text = "Expected \"".toList ++ (e.name ++ ('"' :: e.instead))) :
    Undrawn e.wording := by
  obtain ⟨what, hwhat, hwording⟩ := e.exists_wording
  obtain ⟨honeLine, -, hlast⟩ := h
  rw [htext] at honeLine hlast
  simp only [List.mem_append, List.mem_cons, not_or] at honeLine
  obtain ⟨-, hname, -, hinstead⟩ := honeLine
  refine ⟨?_, ?_, ?_⟩
  · rw [hwording]
    rcases hwhat with rfl | rfl | rfl <;> simp [hname, hinstead]
  · rw [head?_wording]
    rintro c ⟨⟩
    rfl
  · rw [hwording]
    by_cases hnil : e.instead = []
    · have ends : ∃ c, what.toList.getLast? = some c ∧ isWhiteSpace c = false := by
        rcases hwhat with rfl | rfl | rfl
        · exact ⟨'d', by simp [List.getLast?_append, List.getLast?_cons], by decide⟩
        · exact ⟨'l', by decide, by decide⟩
        · exact ⟨'\'', by simp [List.getLast?_append, List.getLast?_cons], by decide⟩
      obtain ⟨c, hc, hsolid⟩ := ends
      intro d hd
      rw [hnil, List.append_nil, hc] at hd
      cases hd
      exact hsolid
    · rw [← List.singleton_append, ← List.append_assoc, ← List.append_assoc,
        getLast?_append_of_ne_nil hnil] at hlast
      rwa [getLast?_append_of_ne_nil hnil]

/-- Rewording leaves a text without drawing and without white space after it so. -/
theorem Undrawn.rewordLine {text : List Char} (h : Undrawn text) : Undrawn (rewordLine text) := by
  rcases rewordLine_cases text with ⟨e, he, hline⟩ | ⟨result, hr, hline⟩ | ⟨result, hr, hline⟩ |
    ⟨-, hline⟩
  · rw [hline]
    exact h.wording (expectation?_eq_some he)
  · obtain ⟨names, got, -, hgot, rfl, rfl⟩ := alternatives?_eq_some hr
    rw [hline]
    obtain ⟨honeLine, -, hlast⟩ := h
    refine ⟨?_, ?_, ?_⟩
    · simpa using honeLine
    · simpa using (by decide : isMarker 'E' = false)
    · simp only [← List.append_assoc] at hlast ⊢
      rwa [getLast?_append_of_ne_nil hgot] at hlast ⊢
  · have bare : ∀ s ∈ ["Unexpected end of input",
        "Unexpected content after the end of the schema", "Invalid syntax"],
        '\n' ∉ s.toList ∧ s.toList.head?.all (isMarker · = false) ∧
          s.toList.getLast?.all (isWhiteSpace · = false) := by decide
    obtain ⟨honeLine, hfirst, hlast⟩ := bare result (general?_eq_some hr).1
    rw [hline]
    exact ⟨honeLine, by simpa [Option.all_eq_true] using hfirst,
      by simpa [Option.all_eq_true] using hlast⟩
  · rw [hline]
    exact h

/-- A part of a text before some of its end is not reworded to the whole. -/
theorem rewordLine_ne_of_start {part text : List Char} (hpart : part <+: text)
    (hlt : part.length < text.length) : Rewording.rewordLine part ≠ text := by
  rintro rfl
  rcases rewordLine_eq_or part with hsame | hhead | hshort
  · rw [hsame] at hlt
    exact Nat.lt_irrefl _ hlt
  · cases part with
    | nil => exact hhead rfl
    | cons c part =>
      obtain ⟨rest, hrest⟩ := hpart
      exact hhead (by rw [← hrest]; rfl)
  · omega

theorem Undrawn.of_start {text part : List Char} (h : Undrawn text) (hpart : part <+: text) :
    Undrawn (trim part) ∧ trim part <+: part := by
  have first : ∀ c ∈ part.head?, isMarker c = false := by
    intro c hc
    obtain ⟨rest, rfl⟩ := hpart
    apply h.first c
    rw [List.head?_append, Option.mem_def.mp hc]
    rfl
  have bare : undrawn part = trim part := by rw [undrawn, dropWhile_eq_self first]
  have oneLine : '\n' ∉ part := fun hmem => h.oneLine (hpart.subset hmem)
  rw [← bare]
  refine ⟨undrawn_undrawn oneLine, ?_⟩
  obtain ⟨space, hspace, -⟩ := exists_undrawn_append part
  rw [dropWhile_eq_self first] at hspace
  exact ⟨space, hspace.symm⟩

theorem splitPosition_isStart (text : List Char) : (splitPosition text).1 <+: text := by
  induction text with
  | nil => exact List.prefix_rfl
  | cons c text ih =>
    rw [splitPosition]
    split
    · exact List.nil_prefix
    · exact List.cons_prefix_cons.mpr ⟨rfl, ih⟩

end Rewording

open Rewording

/-- Rewording again changes nothing just when no position and no brackets were left. -/
theorem reword_reword_eq_iff (raw : String) : reword (reword raw) = reword raw ↔
    ¬EndsInPosition (reword raw).toList ∧ ¬Bracketed (reword raw).toList := by
  have trimmed : Undrawn (trim (splitPosition (deepestCause raw.toList)).1) :=
    ((undrawn_deepestCause _).of_start (splitPosition_isStart _)).1
  have bare := trimmed.rewordLine
  generalize hresult :
    rewordLine (trim (splitPosition (deepestCause raw.toList)).1) = result at bare
  have first : reword raw = String.ofList result := by rw [reword, hresult]
  have second : reword (String.ofList result) =
      String.ofList (rewordLine (trim (splitPosition result).1)) := by
    rw [reword, String.toList_ofList, bare.deepestCause_eq]
  rw [first, second, String.toList_ofList, String.ofList_inj]
  by_cases hends : EndsInPosition result
  · obtain ⟨⟨line, column⟩, hsplit⟩ := Option.isSome_iff_exists.mp (endsInPosition_iff.mp hends)
    obtain ⟨pos, hwhole, hpos⟩ := exists_of_splitPosition hsplit
    obtain ⟨c, rest, rfl, -⟩ := hpos.exists_cons
    have part := (bare.of_start (splitPosition_isStart result)).2
    have shorter : (trim (splitPosition result).1).length < result.length := by
      have whole := congrArg List.length hwhole
      have le := part.length_le
      simp only [List.length_append, List.length_cons] at whole
      omega
    have changed := rewordLine_ne_of_start (part.trans (splitPosition_isStart result)) shorter
    simp [hends, changed]
  · rw [splitPosition_of_not hends, bare.trim_eq]
    have known := rewordLine_rewordLine_eq_iff (trim (splitPosition (deepestCause raw.toList)).1)
    rw [hresult] at known
    simp only [hends, not_false_eq_true, true_and]
    exact known

namespace Diagnostic

/-- The diagnostic of a report of a message is that of the message with its words reworded again,
which makes no difference just when no position and no brackets were left in them. -/
theorem ofReport_ofMessage (file raw : String) :
    ofReport (.ofMessage file raw) = { ofMessage raw with message := reword (reword raw) } ∧
      (ofReport (.ofMessage file raw) = ofMessage raw ↔
        ¬EndsInPosition (reword raw).toList ∧ ¬Bracketed (reword raw).toList) := by
  have again : ofReport (.ofMessage file raw) =
      { ofMessage raw with message := reword (reword raw) } := rfl
  refine ⟨again, ?_⟩
  rw [← reword_reword_eq_iff, again]
  constructor
  · exact congrArg Diagnostic.message
  · intro hsame
    rw [hsame]
    rfl

/-- Brackets among the alternatives are lost the second time, and so is a position before the one
that was cut off. -/
theorem ofReport_ofMessage_differs :
    ofMessage "Expected one of [[, ]], but got x at line 2 char 5." =
        formError ⟨2, 5⟩ "Expected one of [, ], but got x" ∧
      ofReport (.ofMessage "a" "Expected one of [[, ]], but got x at line 2 char 5.") =
        formError ⟨2, 5⟩ "Expected one of , , but got x" ∧
      ofMessage "Unexpected word at line 1 char 2 at line 3 char 4" =
        formError ⟨3, 4⟩ "Unexpected word at line 1 char 2" ∧
      ofReport (.ofMessage "a" "Unexpected word at line 1 char 2 at line 3 char 4") =
        formError ⟨3, 4⟩ "Unexpected word" := by
  decide +kernel

end Diagnostic

end SchemaLang
