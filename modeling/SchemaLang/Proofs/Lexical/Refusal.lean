import SchemaLang.Proofs.Writing.Layout

namespace SchemaLang.Lexical

open Text

/-- A text falls into tokens and white space, when some characters follow it. -/
inductive Scanned : List Char → List Char → Prop
  | nil {rest : List Char} : Scanned [] rest
  | space {c : Char} {text rest : List Char} :
    isWhiteSpace c → Scanned text rest → Scanned (c :: text) rest
  | token {kind : Kind} {raw slice text rest : List Char} :
    Lexed kind raw slice (text ++ rest) → Scanned text rest → Scanned (slice ++ text) rest

/-- No token starts at the front of a text, and why. A quote may be closed only by a quote of its
sort that is not escaped. -/
inductive Flawed : Flaw → List Char → Prop
  | quote {quote : Char} {rest : List Char} : quote = '"' ∨ quote = '\'' →
    (∀ s text after, Body quote s text → rest ≠ s ++ quote :: after) →
    Flawed .unterminatedString (quote :: rest)
  | equals {rest : List Char} : starts (fun c => c = '=' || c = '>') rest = false →
    Flawed .strayEquals ('=' :: rest)
  | bang {rest : List Char} : starts (· = '=') rest = false → Flawed .strayBang ('!' :: rest)
  | stray {c : Char} {rest : List Char} : isWhiteSpace c = false →
    (∀ kind raw s after, ¬Lexed kind raw (c :: s) after) → Flawed (.strayCharacter c) (c :: rest)

/-- A character that starts no token is read nowhere. -/
theorem read_ne_ok {c : Char} (h : ∀ kind raw s after, ¬Lexed kind raw (c :: s) after)
    (rest : List Char) (lexeme : Lexeme) : Lexeme.read c rest ≠ .ok lexeme := by
  intro hread
  obtain ⟨s, after, _, _, hlexed⟩ := read_sound hread
  exact h _ _ s after hlexed

/-- Where a sign other than `=` and `!` is refused, no sign starts with it. -/
theorem head?_ne_of_find {c : Char} {rest : List Char} (hequals : c ≠ '=') (hbang : c ≠ '!')
    (h : Lexeme.spellings.find? (fun s => s.1.isPrefixOf (c :: rest)) = none) :
    ∀ entry ∈ Lexeme.spellings, entry.1.head? ≠ some c := by
  have alone : ∀ entry ∈ Lexeme.spellings, entry.1.head? = some '=' ∨ entry.1.head? = some '!' ∨
      ∃ other ∈ Lexeme.spellings, other.1 = entry.1.head?.toList := by decide
  intro entry hentry hhead
  have first := alone entry hentry
  rw [hhead] at first
  rcases first with he | he | ⟨other, hother, hsign⟩
  · exact hequals (Option.some.inj he)
  · exact hbang (Option.some.inj he)
  · have hidden := List.find?_eq_none.mp h other hother
    rw [hsign] at hidden
    simp at hidden

/-- A character that starts neither a sign nor anything else starts no token. -/
theorem not_lexed_of_apart {c : Char} (hhash : c ≠ '#') (hquote : ¬(c = '"' ∨ c = '\''))
    (hdigit : c.isDigit = false) (hword : isWordStart c = false)
    (hsigns : ∀ entry ∈ Lexeme.spellings, entry.1.head? ≠ some c) (kind : Kind)
    (raw s after : List Char) : ¬Lexed kind raw (c :: s) after := by
  have sign {d : Char} (hd : ∃ kind, ([d], kind) ∈ Lexeme.spellings) : c ≠ d := by
    obtain ⟨kind, hmem⟩ := hd
    intro he
    exact hsigns _ hmem (by rw [he]; rfl)
  have word {w more : List Char} (hw : Word w) : c :: s ≠ w ++ more := by
    obtain ⟨hd, _⟩ := hw
    intro he
    rw [(List.cons.inj he).1, hd] at hword
    cases hword
  have number {ds more : List Char} {sgn : List Char} (hsgn : sgn = [] ∨ sgn = ['-'])
      (hds : Digits ds) : c :: s ≠ sgn ++ ds ++ more := by
    obtain ⟨d, ds, rfl, hd⟩ := hds.exists_cons
    intro he
    rcases hsgn with rfl | rfl
    · rw [(List.cons.inj he).1, hd] at hdigit
      cases hdigit
    · exact sign ⟨.operator .subtract, by decide⟩ (List.cons.inj he).1
  intro h
  generalize hslice : c :: s = slice at h
  cases h with
  | symbol _ _ => exact sign ⟨.mark .colon, by decide⟩ (List.cons.inj hslice).1
  | label hw _ => exact word hw hslice
  | path hw _ _ _ => exact word hw hslice
  | constant hw _ _ => exact word hw (hslice.trans (List.append_nil _).symm)
  | name hw _ _ => exact word hw (hslice.trans (List.append_nil _).symm)
  | integer hsgn hds _ _ => exact number hsgn hds (hslice.trans (List.append_nil _).symm)
  | float hsgn hds _ _ => exact number hsgn hds hslice
  | string hq _ => exact hquote ((List.cons.inj hslice).1 ▸ hq)
  | comment _ _ => exact hhash (List.cons.inj hslice).1
  | sign hs _ _ _ =>
    rw [← hslice] at hs
    exact hsigns _ (mem_spellings_iff.mpr hs) rfl

theorem flawed_of_read {c : Char} {rest : List Char} {flaw : Flaw} (hc : isWhiteSpace c = false)
    (h : Lexeme.read c rest = .error flaw) : Flawed flaw (c :: rest) := by
  rw [Lexeme.read] at h
  split at h
  · cases h
  next hhash =>
  split at h
  · next hq =>
    have quote : c = '"' ∨ c = '\'' := by simpa using hq
    have escape : c ≠ '\\' := by rcases quote with rfl | rfl <;> decide
    rw [Lexeme.quotedString] at h
    split at h
    · cases h
    · next hbody =>
      cases h
      refine .quote quote fun s text after hs he => ?_
      rw [he, stringBody_complete escape hs] at hbody
      cases hbody
  next hq =>
  have quote : ¬(c = '"' ∨ c = '\'') := by simpa using hq
  split at h
  · cases h
  next hn =>
  have digit : c.isDigit = false := (Bool.or_eq_false_iff.mp (Bool.eq_false_iff.mpr hn)).1
  split at h
  · cases h
  next hw =>
  split at h
  · cases h
  rw [Lexeme.punctuation] at h
  split at h
  · cases h
  next hfind =>
  have hidden (sign : List Char) (kind : Kind) (hmem : (sign, kind) ∈ Lexeme.spellings) :
      ¬sign.isPrefixOf (c :: rest) = true := List.find?_eq_none.mp hfind _ hmem
  by_cases hequals : c = '='
  · rw [if_pos hequals] at h
    cases h
    rw [hequals] at hidden ⊢
    refine .equals ?_
    cases rest with
    | nil => rfl
    | cons d rest =>
      have eq := hidden ['=', '='] (.operator .eq) (by decide)
      have arrow := hidden ['=', '>'] (.mark .arrow) (by decide)
      simp [List.isPrefixOf] at eq arrow
      simp [Ne.symm eq, Ne.symm arrow]
  · rw [if_neg hequals] at h
    by_cases hbang : c = '!'
    · rw [if_pos hbang] at h
      cases h
      rw [hbang] at hidden ⊢
      refine .bang ?_
      cases rest with
      | nil => rfl
      | cons d rest =>
        have ne := hidden ['!', '='] (.operator .ne) (by decide)
        simp [List.isPrefixOf] at ne
        simp [Ne.symm ne]
    · rw [if_neg hbang] at h
      cases h
      refine .stray hc (not_lexed_of_apart hhash quote digit (Bool.eq_false_iff.mpr hw) ?_)
      exact head?_ne_of_find hequals hbang hfind

theorem read_of_flawed {c : Char} {rest : List Char} {flaw : Flaw}
    (h : Flawed flaw (c :: rest)) : Lexeme.read c rest = .error flaw := by
  generalize htext : c :: rest = text at h
  cases h with
  | @quote quote rest hq hopen =>
    obtain ⟨rfl, rfl⟩ := List.cons.inj htext
    have hash : c ≠ '#' := by rcases hq with rfl | rfl <;> decide
    have quoted : (c = '"' || c = '\'') = true := by simpa using hq
    rw [Lexeme.read, if_neg hash, if_pos quoted, Lexeme.quotedString]
    cases hbody : Lexeme.stringBody c rest with
    | none => rfl
    | some found =>
      obtain ⟨s, after, hs, _, hbody⟩ := stringBody_sound hbody
      exact absurd hs (hopen s _ after hbody)
  | equals hstop =>
    obtain ⟨rfl, rfl⟩ := List.cons.inj htext
    have word : isWordStart '=' = false := by decide
    cases rest with
    | nil => decide
    | cons d rest =>
      simp at hstop
      simp [Lexeme.read, word, Lexeme.symbol?, Lexeme.punctuation, Lexeme.spellings,
        List.isPrefixOf, Ne.symm hstop.1, Ne.symm hstop.2]
  | bang hstop =>
    obtain ⟨rfl, rfl⟩ := List.cons.inj htext
    have word : isWordStart '!' = false := by decide
    cases rest with
    | nil => decide
    | cons d rest =>
      simp at hstop
      simp [Lexeme.read, word, Lexeme.symbol?, Lexeme.punctuation, Lexeme.spellings,
        List.isPrefixOf, Ne.symm hstop]
  | stray hsolid hnone =>
    obtain ⟨rfl, rfl⟩ := List.cons.inj htext
    cases hread : Lexeme.read c rest with
    | ok lexeme => exact absurd hread (read_ne_ok hnone rest lexeme)
    | error flaw =>
      -- what is refused for another cause can start a token
      cases flawed_of_read hsolid hread with
      | quote hq _ =>
        rcases hq with rfl | rfl
        · exact absurd rfl (read_ne_ok hnone ['"'] ⟨.string, [], 1⟩)
        · exact absurd rfl (read_ne_ok hnone ['\''] ⟨.string, [], 1⟩)
      | equals _ => exact absurd rfl (read_ne_ok hnone ['='] ⟨.operator .eq, ['=', '='], 1⟩)
      | bang _ => exact absurd rfl (read_ne_ok hnone ['='] ⟨.operator .ne, ['!', '='], 1⟩)
      | stray _ _ => rfl

theorem Flawed.exists_cons {flaw : Flaw} {text : List Char} (h : Flawed flaw text) :
    ∃ c rest, text = c :: rest ∧ isWhiteSpace c = false ∧ c ≠ ':' ∧ isWordStart c = false := by
  cases h with
  | quote hq _ =>
    rcases hq with rfl | rfl
    · exact ⟨_, _, rfl, by decide, by decide, by decide⟩
    · exact ⟨_, _, rfl, by decide, by decide, by decide⟩
  | equals _ => exact ⟨_, _, rfl, by decide, by decide, by decide⟩
  | bang _ => exact ⟨_, _, rfl, by decide, by decide, by decide⟩
  | stray hsolid hnone =>
    refine ⟨_, _, rfl, hsolid, fun he => ?_, Bool.eq_false_iff.mpr fun hw => ?_⟩
    · rw [he] at hnone
      exact read_ne_ok hnone ['='] ⟨.mark .colon, [':'], 0⟩ rfl
    · exact read_ne_ok hnone [] _ (read_of_isWordStart hw [])

section Shortened

variable {text more : List Char}

theorem starts_of_append {p : Char → Bool} (h : starts p (text ++ more) = false) :
    starts p text = false := by
  cases text with
  | nil => rfl
  | cons c text => exact h

theorem digitsGoOn_of_append (h : digitsGoOn (text ++ more) = false) : digitsGoOn text = false := by
  cases text with
  | nil => rfl
  | cons c text =>
    by_cases hc : c = '_'
    · rw [hc] at h ⊢
      have next : starts Char.isDigit (text ++ more) = false := h
      exact starts_of_append next
    · simpa [digitsGoOn, hc] using h

theorem pointGoesOn_of_append (h : pointGoesOn (text ++ more) = false) :
    pointGoesOn text = false := by
  cases text with
  | nil => rfl
  | cons c text =>
    by_cases hc : c = '.'
    · rw [hc] at h ⊢
      have next : starts Char.isDigit (text ++ more) = false := h
      exact starts_of_append next
    · simp [pointGoesOn, hc]

theorem pathGoesOn_of_append (h : pathGoesOn (text ++ more) = false) : pathGoesOn text = false := by
  unfold pathGoesOn
  split
  · next rest =>
    have next : starts isWordStart (rest ++ more) = false := h
    exact starts_of_append next
  · rfl

theorem afterLabel_of_append (h : afterLabel (text ++ more)) : afterLabel text := by
  simp only [afterLabel, Bool.not_eq_true'] at h ⊢
  exact starts_of_append h

/-- A token ends where the text ends if it ended before a character that goes on with no name. -/
theorem Lexed.of_append {kind : Kind} {raw slice : List Char} {c : Char} (hcolon : c ≠ ':')
    (hword : isWordStart c = false) (h : Lexed kind raw slice (text ++ c :: more)) :
    Lexed kind raw slice text := by
  have name (ends : NameEnds (text ++ c :: more)) : NameEnds text := by
    refine ⟨starts_of_append ends.word, pathGoesOn_of_append ends.path, fun rest hrest => ?_⟩
    have label := ends.label (rest ++ c :: more) (by rw [hrest]; rfl)
    cases rest with
    | nil => simp [afterLabel, hcolon, hword] at label
    | cons d rest => exact label
  cases h with
  | symbol hw hstop => exact .symbol hw (starts_of_append hstop)
  | label hw hlabel => exact .label hw (afterLabel_of_append hlabel)
  | path hw hp hstop hgo => exact .path hw hp (starts_of_append hstop) (pathGoesOn_of_append hgo)
  | constant hw hup ends => exact .constant hw hup (name ends)
  | name hw hup ends => exact .name hw hup (name ends)
  | integer hsign hds hstop hpoint =>
    exact .integer hsign hds (digitsGoOn_of_append hstop) (pointGoesOn_of_append hpoint)
  | float hsign hds hds' hstop => exact .float hsign hds hds' (digitsGoOn_of_append hstop)
  | string hq hs => exact .string hq hs
  | comment hs hstop =>
    refine .comment hs ?_
    cases text with
    | nil => exact .inl rfl
    | cons d text => exact .inr (by simpa using hstop)
  | sign hs hlongest hc hm =>
    refine .sign hs (fun kind' s' hs' hfront => hlongest kind' s' hs' ?_) ?_ ?_
    · rw [← List.append_assoc]
      exact hfront.trans (List.prefix_append _ _)
    · exact fun he => starts_of_append (hc he)
    · exact fun he => starts_of_append (hm he)

/-- What falls into tokens before a flaw does so when the text ends there. -/
theorem Scanned.of_flawed {flaw : Flaw} (hflaw : Flawed flaw more) (h : Scanned text more) :
    Scanned text [] := by
  induction h with
  | nil => exact .nil
  | space hc _ ih => exact .space hc (ih hflaw)
  | token hlexed _ ih =>
    obtain ⟨c, rest, rfl, _, hcolon, hword⟩ := hflaw.exists_cons
    have ended := hlexed.of_append hcolon hword
    exact .token (by simpa using ended) (ih hflaw)

end Shortened

/-- A text that falls into tokens is scanned to its end. -/
theorem Scanned.scan_ok {text : List Char} (h : Scanned text []) (blocks : Blocks)
    (here : Location) : ∃ tokens, Token.scan blocks here text = .ok tokens := by
  generalize hrest : [] = rest at h
  induction h generalizing blocks here with
  | nil => exact ⟨_, by rw [Token.scan]⟩
  | space hc _ ih =>
    obtain ⟨tokens, hscan⟩ := ih blocks (here.advance _) hrest
    refine ⟨tokens, ?_⟩
    rw [Token.scan, if_pos hc]
    exact hscan
  | token hlexed _ ih =>
    rw [← hrest, List.append_nil] at hlexed
    obtain ⟨t, blocks', here', _, _, hscan⟩ := scan_lexed hlexed blocks here
    obtain ⟨tokens, htokens⟩ := ih blocks' here' hrest
    exact ⟨t :: tokens, hscan tokens htokens⟩

/-- A scan stops where a flaw follows what falls into tokens. -/
theorem Scanned.scan_error {text rest : List Char} {flaw : Flaw} (h : Scanned text rest)
    (hflaw : Flawed flaw rest) (blocks : Blocks) (here : Location) :
    Token.scan blocks here (text ++ rest) = .error ⟨here.after text, flaw⟩ := by
  induction h generalizing blocks here with
  | @nil rest =>
    obtain ⟨c, more, rfl, hsolid, _⟩ := hflaw.exists_cons
    rw [List.nil_append, Token.scan, if_neg (Bool.eq_false_iff.mp hsolid), read_of_flawed hflaw]
    rfl
  | space hc _ ih =>
    rw [List.cons_append, Token.scan, if_pos hc]
    exact ih hflaw blocks _
  | @token kind raw slice text rest hlexed _ ih =>
    obtain ⟨c, s, rfl, hsolid⟩ := hlexed.exists_cons
    have read := read_complete hlexed
    have next := ih hflaw (blocks.step kind (text ++ rest).head?) (here.after (c :: s))
    rw [List.append_assoc, List.cons_append, Token.scan, if_neg (Bool.eq_false_iff.mp hsolid), read]
    simp only [List.drop_left, List.take_left, next, Location.after_append]

/-- A scan stops only where a flaw follows what falls into tokens. -/
theorem scanned_of_error {blocks : Blocks} {here : Location} {text : List Char} {e : ScanError}
    (h : Token.scan blocks here text = .error e) :
    ∃ before rest, text = before ++ rest ∧ Scanned before rest ∧ Flawed e.flaw rest ∧
      e.location = here.after before := by
  fun_induction Token.scan blocks here text with
  | case1 => cases h
  | case2 blocks here c rest hblank ih =>
    obtain ⟨before, after, rfl, hscanned, hflaw, hplace⟩ := ih h
    exact ⟨c :: before, after, rfl, .space hblank hscanned, hflaw, hplace⟩
  | case3 blocks here c rest hsolid flaw hread =>
    cases h
    have flawed := flawed_of_read (Bool.eq_false_iff.mpr hsolid) hread
    exact ⟨[], c :: rest, rfl, .nil, flawed, rfl⟩
  | case4 blocks here c rest hsolid lexeme hread after blocks' e' hscan ih =>
    cases h
    obtain ⟨s, more, rfl, hmore, hlexed⟩ := read_sound hread
    rw [show after = more by simp only [after, hmore, List.drop_left]] at ih hscan
    rw [hmore, List.take_left] at ih hscan
    obtain ⟨before, rest, rfl, hscanned, hflaw, hplace⟩ := ih hscan
    refine ⟨c :: s ++ before, rest, by simp, .token hlexed hscanned, hflaw, ?_⟩
    rw [hplace, Location.after_append]
  | case5 => cases h

end SchemaLang.Lexical
