import SchemaLang.Proofs.Lexical.Trimming
import SchemaLang.Proofs.Wording.Position

namespace SchemaLang.Rewording

open Text Lexical

theorem lines_of_not_mem {text : List Char} (hne : text ≠ []) (h : '\n' ∉ text) :
    lines text = [text] := by
  induction text with
  | nil => exact absurd rfl hne
  | cons c rest ih =>
    have hc : c ≠ '\n' := fun he => h (by simp [he])
    have hrest : '\n' ∉ rest := fun hmem => h (List.mem_cons_of_mem _ hmem)
    rw [lines]
    · cases rest with
      | nil => rfl
      | cons d rest => rw [ih (by simp) hrest]
    · exact hc
    · rintro more - rfl
      exact hrest (List.mem_cons_self ..)

/-- A line feed ends a line, and a carriage return before it counts as white space of that line. -/
theorem lines_lineFeed {s : List Char} (h : '\n' ∉ s) (more : List Char) :
    ∃ line space, s = line ++ space ∧ (∀ c ∈ space, isWhiteSpace c) ∧
      lines (s ++ '\n' :: more) = line :: lines more := by
  induction s with
  | nil => exact ⟨[], [], rfl, by simp, by rw [List.nil_append, lines]⟩
  | cons c s ih =>
    have hc : c ≠ '\n' := fun he => h (by simp [he])
    have hs : '\n' ∉ s := fun hmem => h (List.mem_cons_of_mem _ hmem)
    by_cases hreturn : c = '\r' ∧ s = []
    · obtain ⟨rfl, rfl⟩ := hreturn
      refine ⟨[], ['\r'], rfl, List.forall_mem_singleton.mpr rfl, ?_⟩
      rw [List.cons_append, List.nil_append, lines]
    · obtain ⟨line, space, hline, hspace, hlines⟩ := ih hs
      refine ⟨c :: line, space, congrArg (c :: ·) hline, hspace, ?_⟩
      rw [List.cons_append, lines, hlines]
      · exact hc
      · intro rest hr he
        cases s with
        | nil => exact hreturn ⟨hr, rfl⟩
        | cons d s =>
          obtain ⟨rfl, -⟩ := List.cons.inj he
          exact hs (List.mem_cons_self ..)

theorem not_mem_of_mem_lines {text line : List Char} (h : line ∈ lines text) : '\n' ∉ line := by
  fun_induction lines text generalizing line with
  | case1 => cases h
  | case2 rest ih =>
    rcases List.mem_cons.mp h with rfl | h
    · exact List.not_mem_nil
    · exact ih h
  | case3 rest ih =>
    rcases List.mem_cons.mp h with rfl | h
    · exact List.not_mem_nil
    · exact ih h
  | case4 c rest hc _ hnone ih =>
    obtain rfl := List.mem_singleton.mp h
    simpa using fun he => hc he.symm
  | case5 c rest hc _ first more hlines ih =>
    rw [hlines] at ih
    rcases List.mem_cons.mp h with rfl | h
    · have own : '\n' ∉ first := ih (List.mem_cons_self ..)
      simpa [own] using fun he => hc he.symm
    · exact ih (List.mem_cons_of_mem _ h)

theorem isWhiteSpace_of_isMarker {c : Char} (h : isMarker c = false) : isWhiteSpace c = false := by
  simp only [isMarker, Bool.or_eq_false_iff] at h
  exact h.1.1.1.1

theorem isMarker_of_isWhiteSpace {c : Char} (h : isWhiteSpace c) : isMarker c := by
  simp [isMarker, h]

/-- White space before a line is drawing, so only that after it is left to be trimmed. -/
theorem undrawn_eq_rdropWhile (line : List Char) :
    undrawn line = (line.dropWhile isMarker).rdropWhile isWhiteSpace := by
  have first : ∀ c ∈ (line.dropWhile isMarker).head?, isWhiteSpace c = false :=
    fun c hc => isWhiteSpace_of_isMarker (head?_dropWhile isMarker line c hc)
  rw [undrawn, trim, dropWhile_eq_self first, List.rdropWhile]

theorem undrawn_append {space : List Char} (h : ∀ c ∈ space, isWhiteSpace c) (line : List Char) :
    undrawn (line ++ space) = undrawn line := by
  rw [undrawn, undrawn, List.dropWhile_append]
  split
  · next hnil =>
    have drawn : space.dropWhile isMarker = [] :=
      List.dropWhile_eq_nil_iff.mpr fun c hc => isMarker_of_isWhiteSpace (h c hc)
    rw [drawn, List.isEmpty_iff.mp hnil]
  · rw [trim_append h]

/-- A line is its drawing, its cause and white space. -/
theorem exists_undrawn_append (line : List Char) :
    ∃ space, line.dropWhile isMarker = undrawn line ++ space ∧ ∀ c ∈ space, isWhiteSpace c := by
  refine ⟨(line.dropWhile isMarker).rtakeWhile isWhiteSpace, ?_, ?_⟩
  · rw [undrawn_eq_rdropWhile, List.rdropWhile_append_rtakeWhile]
  · intro c
    exact List.mem_rtakeWhile_imp

/-- A text on one line with no drawing before it and no white space after it. -/
structure Undrawn (text : List Char) : Prop where
  oneLine : '\n' ∉ text
  first : ∀ c ∈ text.head?, isMarker c = false
  last : ∀ c ∈ text.getLast?, isWhiteSpace c = false

theorem undrawn_undrawn {line : List Char} (h : '\n' ∉ line) : Undrawn (undrawn line) := by
  have whole : undrawn line <+: line.dropWhile isMarker := by
    rw [undrawn_eq_rdropWhile]
    exact List.rdropWhile_prefix _ _
  refine ⟨?_, ?_, ?_⟩
  · exact fun hmem => h ((List.dropWhile_suffix _).subset (whole.subset hmem))
  · intro c hc
    obtain ⟨rest, hrest⟩ := whole
    apply head?_dropWhile isMarker line c
    rw [← hrest, List.head?_append, Option.mem_def.mp hc]
    rfl
  · rw [undrawn_eq_rdropWhile]
    exact getLast?_rdropWhile _ _

theorem Undrawn.trim_eq {text : List Char} (h : Undrawn text) : trim text = text :=
  trim_eq_self (fun c hc => isWhiteSpace_of_isMarker (h.first c hc)) h.last

theorem Undrawn.undrawn_eq {text : List Char} (h : Undrawn text) : undrawn text = text := by
  rw [undrawn, dropWhile_eq_self h.first, h.trim_eq]

/-- The causes that a text lists, from the most general one down. -/
def causes (text : List Char) : List (List Char) :=
  ((lines text).map undrawn).filter (!·.isEmpty)

theorem deepestCause_eq (text : List Char) : deepestCause text =
    (((causes text).reverse.find? (!isGeneric ·)).or (causes text).head?).getD [] := rfl

theorem causes_of_not_mem {text : List Char} (h : '\n' ∉ text) :
    causes text = [undrawn text].filter (!·.isEmpty) := by
  by_cases hne : text = []
  · subst hne
    decide
  · rw [causes, lines_of_not_mem hne h, List.map_singleton]

theorem causes_lineFeed {line : List Char} (h : '\n' ∉ line) (more : List Char) :
    causes (line ++ '\n' :: more) = [undrawn line].filter (!·.isEmpty) ++ causes more := by
  obtain ⟨body, space, rfl, hspace, hlines⟩ := lines_lineFeed h more
  rw [causes, hlines, undrawn_append hspace, List.map_cons, ← List.singleton_append,
    List.filter_append, causes]

theorem causes_intercalate {all : List (List Char)} (h : ∀ line ∈ all, '\n' ∉ line) :
    causes (['\n'].intercalate all) = (all.map undrawn).filter (!·.isEmpty) := by
  induction all with
  | nil => rfl
  | cons line all ih =>
    have hline := h line (List.mem_cons_self ..)
    have hall : ∀ l ∈ all, '\n' ∉ l := fun l hl => h l (List.mem_cons_of_mem _ hl)
    cases all with
    | nil => rw [List.intercalate_singleton, causes_of_not_mem hline, List.map_singleton]
    | cons next all =>
      rw [List.intercalate_cons_cons, List.append_assoc, List.singleton_append,
        causes_lineFeed hline, ih hall, List.map_cons (l := next :: all), ← List.filter_append,
        List.singleton_append]

theorem undrawn_deepestCause (text : List Char) : Undrawn (deepestCause text) := by
  have each : ∀ cause ∈ causes text, Undrawn cause := by
    intro cause hcause
    obtain ⟨line, hline, rfl⟩ := List.mem_map.mp (List.mem_of_mem_filter hcause)
    exact undrawn_undrawn (not_mem_of_mem_lines hline)
  rw [deepestCause_eq]
  cases hfound : ((causes text).reverse.find? (!isGeneric ·)).or (causes text).head? with
  | none => exact ⟨List.not_mem_nil, by simp, by simp⟩
  | some cause =>
    apply each
    rcases Option.or_eq_some_iff.mp hfound with hdeep | ⟨-, hhead⟩
    · exact List.mem_reverse.mp (List.mem_of_find?_eq_some hdeep)
    · exact List.mem_of_head? hhead

/-- The only line is taken, whether or not it is generic. -/
theorem deepestCause_of_not_mem {text : List Char} (h : '\n' ∉ text) :
    deepestCause text = undrawn text := by
  rw [deepestCause_eq, causes_of_not_mem h]
  cases hcause : undrawn text with
  | nil => rfl
  | cons c cause => cases hg : isGeneric (c :: cause) <;> simp [hg]

theorem Undrawn.deepestCause_eq {text : List Char} (h : Undrawn text) :
    deepestCause text = text := by
  rw [deepestCause_of_not_mem h.oneLine, h.undrawn_eq]

end SchemaLang.Rewording
