import SchemaLang.Check
import SchemaLang.Proofs.Lexical.LineBreak
import SchemaLang.Proofs.Lexical.Refusal
import SchemaLang.Proofs.Lexical.Trimming
import SchemaLang.Proofs.Wording.Unspaced

namespace SchemaLang

open Text Lexical

namespace Text

/-- A text with a carriage return before each of its line feeds. -/
def withReturns (text : List Char) : List Char :=
  text.flatMap fun c => if c = '\n' then ['\r', '\n'] else [c]

@[simp] theorem withReturns_nil : withReturns [] = [] := rfl

@[simp] theorem withReturns_lineFeed (text : List Char) :
    withReturns ('\n' :: text) = '\r' :: '\n' :: withReturns text := rfl

theorem withReturns_cons {c : Char} (h : c ≠ '\n') (text : List Char) :
    withReturns (c :: text) = c :: withReturns text := by
  simp [withReturns, h]

theorem withReturns_append (s t : List Char) :
    withReturns (s ++ t) = withReturns s ++ withReturns t :=
  List.flatMap_append

theorem withReturns_of_not_mem {text : List Char} (h : '\n' ∉ text) : withReturns text = text := by
  induction text with
  | nil => rfl
  | cons c text ih =>
    obtain ⟨hc, htext⟩ := List.ne_and_not_mem_of_not_mem_cons h
    rw [withReturns_cons hc.symm, ih htext]

end Text

namespace Lexical

theorem starts_withReturns {p : Char → Bool} {text : List Char} (hp : p '\r' = false)
    (h : starts p text = false) : starts p (withReturns text) = false := by
  cases text with
  | nil => rfl
  | cons c text =>
    by_cases hc : c = '\n'
    · rw [hc, withReturns_lineFeed]
      exact hp
    · rw [withReturns_cons hc]
      exact h

theorem Solid.not_mem {text : List Char} (h : Solid text) : '\n' ∉ text := by
  intro hmem
  cases h _ hmem

/-- Only strings go over a line feed. -/
theorem Lexed.not_mem {kind : Kind} {raw slice rest : List Char} (h : Lexed kind raw slice rest)
    (hk : kind ≠ .string) : '\n' ∉ slice := by
  cases h with
  | symbol hw _ => simpa using hw.solid.not_mem
  | label hw _ => simpa using hw.solid.not_mem
  | path hw hp _ _ => simp [hw.solid.not_mem, hp.solid.not_mem]
  | constant hw _ _ => exact hw.solid.not_mem
  | name hw _ _ => exact hw.solid.not_mem
  | integer hsign hds _ _ => simp [(solid_of_sign hsign).not_mem, hds.solid.not_mem]
  | float hsign hds hds' _ =>
    simp [(solid_of_sign hsign).not_mem, hds.solid.not_mem, hds'.solid.not_mem]
  | string _ _ => exact absurd rfl hk
  | comment hs _ => simpa using hs
  | sign hs _ _ _ => exact (apart_of_lineEnd (.inl rfl)).sign _ (mem_spellings_iff.mpr hs)

/-- A token ends before a carriage return where it ends before a line feed, comments apart. -/
theorem Lexed.withReturns {kind : Kind} {raw slice after : List Char}
    (h : Lexed kind raw slice after) (hk : kind ≠ .comment) :
    Lexed kind raw slice (withReturns after) := by
  by_cases hmem : '\n' ∈ after
  · obtain ⟨line, more, rfl, hline⟩ := List.eq_append_cons_of_mem hmem
    have ended : Lexed kind raw slice line := h.of_append (by decide) (by decide)
    rw [withReturns_append, withReturns_of_not_mem hline, withReturns_lineFeed]
    exact ended.lineEnd _ (.inr ⟨rfl, hk⟩)
  · rwa [withReturns_of_not_mem hmem]

theorem step_withReturns (blocks : Blocks) (kind : Kind) (text : List Char) :
    blocks.step kind (withReturns text).head? = blocks.step kind text.head? := by
  have ended {d : Char} (hd : d = '\n' ∨ d = '\r') :
      blocks.step kind (some d) = blocks.step kind none := @step_lineEnd [] d hd [] blocks kind
  cases text with
  | nil => rfl
  | cons c text =>
    by_cases hc : c = '\n'
    · rw [hc, withReturns_lineFeed, List.head?_cons, List.head?_cons, ended (.inr rfl),
        ended (.inl rfl)]
    · rw [withReturns_cons hc]
      rfl

/-- A flaw stays one with carriage returns after it, where no string is left open. -/
theorem Flawed.withReturns {flaw : Flaw} {c : Char} {rest : List Char} (h : Flawed flaw (c :: rest))
    (hrest : flaw = .unterminatedString → '\n' ∉ rest) :
    Flawed flaw (c :: withReturns rest) := by
  cases h with
  | quote hq hopen =>
    rw [withReturns_of_not_mem (hrest rfl)]
    exact .quote hq hopen
  | equals hstop => exact .equals (starts_withReturns (by decide) hstop)
  | bang hstop => exact .bang (starts_withReturns (by decide) hstop)
  | stray hsolid hnone => exact .stray hsolid hnone

/-- No string of a text, closed or not, goes over a line feed. -/
structure StringsOnOneLine (text : List Char) : Prop where
  closed : ∀ before raw slice after, text = before ++ (slice ++ after) →
    Scanned before (slice ++ after) → Lexed .string raw slice after → '\n' ∉ slice
  unclosed : ∀ before rest, text = before ++ rest → Scanned before rest →
    Flawed .unterminatedString rest → '\n' ∉ rest

namespace StringsOnOneLine

theorem after_space {c : Char} {text : List Char} (h : StringsOnOneLine (c :: text))
    (hc : isWhiteSpace c) : StringsOnOneLine text where
  closed := by
    rintro before raw slice after rfl hscanned hlexed
    exact h.closed (c :: before) raw slice after rfl (.space hc hscanned) hlexed
  unclosed := by
    rintro before rest rfl hscanned hflaw
    exact h.unclosed (c :: before) rest rfl (.space hc hscanned) hflaw

theorem after_token {kind : Kind} {raw slice text : List Char}
    (h : StringsOnOneLine (slice ++ text)) (hlexed : Lexed kind raw slice text) :
    StringsOnOneLine text where
  closed := by
    rintro before raw' slice' after rfl hscanned hlexed'
    exact h.closed (slice ++ before) raw' slice' after (by simp) (.token hlexed hscanned) hlexed'
  unclosed := by
    rintro before rest rfl hscanned hflaw
    exact h.unclosed (slice ++ before) rest (by simp) (.token hlexed hscanned) hflaw

theorem token_not_mem {kind : Kind} {raw slice text : List Char}
    (h : StringsOnOneLine (slice ++ text)) (hlexed : Lexed kind raw slice text) : '\n' ∉ slice := by
  by_cases hk : kind = .string
  · subst hk
    exact h.closed [] raw slice text rfl .nil hlexed
  · exact hlexed.not_mem hk

end StringsOnOneLine

/-- Whether each string that is met in a text ends, with its line or by a quote, before a line
feed. -/
def fitsLines (text : List Char) : Bool :=
  match text with
  | [] => true
  | c :: rest =>
    if isWhiteSpace c then fitsLines rest
    else
      match Lexeme.read c rest with
      | .error flaw => flaw ≠ .unterminatedString || '\n' ∉ rest
      | .ok lexeme =>
        (lexeme.kind ≠ .string || '\n' ∉ rest.take lexeme.more) && fitsLines (rest.drop lexeme.more)
termination_by text.length
decreasing_by
  · simp
  · simp only [List.length_drop, List.length_cons]
    omega

theorem not_mem_cons {c : Char} {text : List Char} (hc : isWhiteSpace c = false)
    (h : '\n' ∉ text) : '\n' ∉ c :: text := by
  intro hmem
  rcases List.mem_cons.mp hmem with rfl | hmem
  · cases hc
  · exact h hmem

theorem fitsLines_token {kind : Kind} {raw s after : List Char} {c : Char}
    (h : Lexed kind raw (c :: s) after) :
    fitsLines (c :: s ++ after) = ((kind ≠ .string || '\n' ∉ s) && fitsLines after) := by
  obtain ⟨_, _, he, hsolid⟩ := h.exists_cons
  obtain ⟨rfl, rfl⟩ := List.cons.inj he
  rw [List.cons_append, fitsLines, if_neg (Bool.eq_false_iff.mp hsolid), read_complete h]
  simp only [List.take_left, List.drop_left]

theorem fitsLines_of_scanned {before rest : List Char} (h : Scanned before rest)
    (hfits : fitsLines (before ++ rest)) : fitsLines rest := by
  induction h with
  | nil => exact hfits
  | space hc _ ih =>
    rw [List.cons_append, fitsLines, if_pos hc] at hfits
    exact ih hfits
  | token hlexed _ ih =>
    obtain ⟨c, s, rfl, -⟩ := hlexed.exists_cons
    rw [List.append_assoc, fitsLines_token hlexed, Bool.and_eq_true_iff] at hfits
    exact ih hfits.2

theorem stringsOnOneLine_iff {text : List Char} : StringsOnOneLine text ↔ fitsLines text := by
  constructor
  · intro h
    fun_induction fitsLines text with
    | case1 => rfl
    | case2 c rest hblank ih => exact ih (h.after_space hblank)
    | case3 c rest hsolid flaw hread =>
      have flawed := flawed_of_read (Bool.eq_false_iff.mpr hsolid) hread
      by_cases hopen : flaw = .unterminatedString
      · subst hopen
        have line := h.unclosed [] _ rfl .nil flawed
        simpa using (List.ne_and_not_mem_of_not_mem_cons line).2
      · simp [hopen]
    | case4 c rest hsolid lexeme hread ih =>
      obtain ⟨s, after, rfl, hmore, hlexed⟩ := read_sound hread
      have line := (List.ne_and_not_mem_of_not_mem_cons (h.token_not_mem hlexed)).2
      rw [hmore, List.drop_left] at ih
      rw [hmore, List.take_left, List.drop_left, ih (h.after_token hlexed)]
      simp [line]
  · intro h
    refine ⟨?_, ?_⟩
    · rintro before raw slice after rfl hscanned hlexed
      have fits := fitsLines_of_scanned hscanned h
      obtain ⟨c, s, rfl, hsolid⟩ := hlexed.exists_cons
      rw [fitsLines_token hlexed, Bool.and_eq_true_iff] at fits
      have line : '\n' ∉ s := by simpa using fits.1
      exact not_mem_cons hsolid line
    · rintro before rest rfl hscanned hflaw
      have fits := fitsLines_of_scanned hscanned h
      obtain ⟨c, rest, rfl, hsolid, -⟩ := hflaw.exists_cons
      rw [fitsLines, if_neg (Bool.eq_false_iff.mp hsolid), read_of_flawed hflaw] at fits
      have line : '\n' ∉ rest := by simpa using fits
      exact not_mem_cons hsolid line

instance (text : List Char) : Decidable (StringsOnOneLine text) :=
  decidable_of_iff _ stringsOnOneLine_iff.symm

theorem Lexed.of_comment {kind : Kind} {raw slice rest : List Char} (h : Lexed kind raw slice rest)
    (hk : kind = .comment) : ∃ s, slice = '#' :: s ∧ raw = trim s ∧ '\n' ∉ s ∧
      (rest = [] ∨ starts (· = '\n') rest) := by
  cases h with
  | comment hs hstop => exact ⟨_, rfl, rfl, hs, hstop⟩
  | name _ _ _ =>
    exact absurd hk (reserved_induction (p := (· ≠ .comment)) (by decide) (by decide) _)
  | sign hs _ _ _ =>
    subst hk
    cases hs
  | _ => cases hk

/-- A comment takes a carriage return before the line feed that ends it, and is trimmed of it. -/
theorem Lexed.comment_return {kind : Kind} {raw slice rest : List Char}
    (h : Lexed kind raw slice rest) (hk : kind = .comment) (more : List Char) :
    Lexed kind raw (slice ++ ['\r']) ('\n' :: more) := by
  obtain ⟨s, rfl, rfl, hs, -⟩ := h.of_comment hk
  have white : ∀ c ∈ ['\r'], isWhiteSpace c := List.forall_mem_singleton.mpr rfl
  have line : '\n' ∉ s ++ ['\r'] := by simpa using hs
  rw [hk, ← trim_append white s]
  exact .comment line (.inr rfl)

theorem advance_return (here : Location) :
    (here.advance '\r').advance '\n' = here.advance '\n' := rfl

/-- A token is found with carriage returns in what follows it. A comment takes the one at the end of
its line. -/
theorem scan_cons_withReturns {lexeme : Lexeme} {c : Char} {s after : List Char}
    (h : Lexed lexeme.kind lexeme.raw (c :: s) after) (hline : '\n' ∉ c :: s) (blocks : Blocks)
    (here : Location) :
    Token.scan blocks here (withReturns (c :: s ++ after)) =
      (Token.scan (blocks.step lexeme.kind after.head?) (here.after (c :: s))
        (withReturns after)).map (Token.ofLexeme blocks here lexeme :: ·) := by
  rw [withReturns_append, withReturns_of_not_mem hline]
  by_cases hk : lexeme.kind = .comment
  · obtain ⟨-, -, -, -, hstop⟩ := h.of_comment hk
    cases after with
    | nil => exact scan_cons h blocks here
    | cons d more =>
      obtain rfl : d = '\n' := by simpa using hstop
      have lexed : Lexed lexeme.kind lexeme.raw (c :: (s ++ ['\r'])) ('\n' :: withReturns more) :=
        h.comment_return hk _
      have split : c :: s ++ '\r' :: '\n' :: withReturns more =
          c :: (s ++ ['\r']) ++ '\n' :: withReturns more := by simp
      have place : here.after (c :: (s ++ ['\r'])) = (here.after (c :: s)).advance '\r' := by
        rw [← List.cons_append, Location.after_append]
        rfl
      have blank : isWhiteSpace '\r' = true := by decide
      rw [withReturns_lineFeed, split, scan_cons lexed, place, scan_blank blank]
      rfl
  · rw [scan_cons (h.withReturns hk), step_withReturns]

/-- Carriage returns before line feeds change nothing in what a scan finds. -/
theorem scan_withReturns {blocks : Blocks} {here : Location} {text : List Char}
    (h : StringsOnOneLine text) :
    Token.scan blocks here (withReturns text) = Token.scan blocks here text := by
  induction hn : text.length using Nat.strongRecOn generalizing blocks here text with
  | ind n ih =>
    cases text with
    | nil => rfl
    | cons c rest =>
      by_cases hblank : isWhiteSpace c = true
      · have inner : Token.scan blocks (here.advance c) (withReturns rest) =
            Token.scan blocks (here.advance c) rest :=
          ih rest.length (by simp at hn; omega) (h.after_space hblank) rfl
        by_cases hc : c = '\n'
        · subst hc
          rw [withReturns_lineFeed, scan_blank (by decide), scan_blank hblank, advance_return,
            inner, scan_blank hblank]
        · rw [withReturns_cons hc, scan_blank hblank, inner, scan_blank hblank]
      · cases hread : Lexeme.read c rest with
        | error flaw =>
          have solid : isWhiteSpace c = false := Bool.eq_false_iff.mpr hblank
          have flawed := flawed_of_read solid hread
          have hc : c ≠ '\n' := by
            rintro rfl
            cases solid
          have line : flaw = .unterminatedString → '\n' ∉ rest := by
            rintro rfl hmem
            exact h.unclosed [] _ rfl .nil flawed (List.mem_cons_of_mem _ hmem)
          have same := read_of_flawed (flawed.withReturns line)
          rw [withReturns_cons hc, Token.scan, Token.scan, if_neg hblank, if_neg hblank, hread,
            same]
        | ok lexeme =>
          obtain ⟨s, after, rfl, -, hlexed⟩ := read_sound hread
          have line : '\n' ∉ c :: s := h.token_not_mem hlexed
          have shorter : after.length < n := by simp at hn; omega
          rw [← List.cons_append, scan_cons_withReturns hlexed line,
            ih _ shorter (h.after_token hlexed) rfl, ← scan_cons hlexed]

end Lexical

/-- Carriage returns before the line feeds of a text change neither its tokens nor the flaw that
stops the scan, and no view of it, if none of its strings goes over a line feed. -/
theorem Source.withReturns_same (text : String) (h : StringsOnOneLine text.toList) :
    let returned := String.ofList (withReturns text.toList)
    Token.ofText returned = Token.ofText text ∧ ∀ name,
      schema ⟨name, returned⟩ = schema ⟨name, text⟩ ∧
      isValid ⟨name, returned⟩ = isValid ⟨name, text⟩ ∧
      diagnostics ⟨name, returned⟩ = diagnostics ⟨name, text⟩ := by
  intro returned
  have scanned : Token.ofText returned = Token.ofText text := by
    rw [Token.ofText, String.toList_ofList]
    exact scan_withReturns h
  have read (name : String) : schema ⟨name, returned⟩ = schema ⟨name, text⟩ := by
    rw [schema, schema, tokens, tokens, scanned]
  refine ⟨scanned, fun name => ⟨read name, ?_, ?_⟩⟩
  · rw [isValid, isValid, read]
  · rw [diagnostics, diagnostics, read]

/-- A comment with a quote, and a label, a string and a flaw at ends of lines. -/
theorem Source.withReturns_same_over_lines :
    let text := "# it's\nschema do\n  string :s, domain:\n  ['a #'] # b\n=\n"
    let returned := "# it's\r\nschema do\r\n  string :s, domain:\r\n  ['a #'] # b\r\n=\r\n"
    StringsOnOneLine text.toList ∧ Token.ofText returned = Token.ofText text ∧ ∀ name,
      schema ⟨name, returned⟩ = schema ⟨name, text⟩ ∧
      isValid ⟨name, returned⟩ = isValid ⟨name, text⟩ ∧
      diagnostics ⟨name, returned⟩ = diagnostics ⟨name, text⟩ := by
  have spelt : String.ofList (withReturns
      "# it's\nschema do\n  string :s, domain:\n  ['a #'] # b\n=\n".toList) =
      "# it's\r\nschema do\r\n  string :s, domain:\r\n  ['a #'] # b\r\n=\r\n" := by decide
  have fits : StringsOnOneLine
      "# it's\nschema do\n  string :s, domain:\n  ['a #'] # b\n=\n".toList := by decide +kernel
  have same := Source.withReturns_same _ fits
  rw [spelt] at same
  exact ⟨fits, same⟩

end SchemaLang
