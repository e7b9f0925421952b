import SchemaLang.Proofs.Lexical.Spelling

namespace SchemaLang.Lexical

open Text

section Words

variable {p : Char → Bool}

theorem starts_dropWhile (p : Char → Bool) (text : List Char) :
    starts p (text.dropWhile p) = false := by
  induction text with
  | nil => rfl
  | cons c text ih =>
    by_cases h : p c = true
    · rw [List.dropWhile_cons_of_pos h]
      exact ih
    · rw [List.dropWhile_cons_of_neg h, starts_cons]
      exact Bool.eq_false_iff.mpr h

theorem takeWhile_of_starts {cs rest : List Char} (hcs : ∀ c ∈ cs, p c)
    (hrest : starts p rest = false) : (cs ++ rest).takeWhile p = cs := by
  rw [List.takeWhile_append_of_pos hcs]
  cases rest with
  | nil => simp
  | cons c rest =>
    have stop : ¬p c = true := by simpa using hrest
    rw [List.takeWhile_cons_of_neg stop, List.append_nil]

theorem dropWhile_of_starts {cs rest : List Char} (hcs : ∀ c ∈ cs, p c)
    (hrest : starts p rest = false) : (cs ++ rest).dropWhile p = rest := by
  rw [List.dropWhile_append_of_pos hcs]
  cases rest with
  | nil => rfl
  | cons c rest =>
    have stop : ¬p c = true := by simpa using hrest
    rw [List.dropWhile_cons_of_neg stop]

theorem mem_takeWhile {c : Char} {text : List Char} (h : c ∈ text.takeWhile p) : p c = true :=
  List.all_eq_true.mp List.all_takeWhile c h

/-- The run of word characters after the start of a word makes it a word. -/
theorem word_takeWhile {c : Char} (h : isWordStart c) (text : List Char) :
    Word (c :: text.takeWhile isWordPart) :=
  .mk h fun _ hx => mem_takeWhile hx

end Words

theorem pathTail_of_not {text : List Char} (h : pathGoesOn text = false) :
    Lexeme.pathTail text = [] := by
  unfold Lexeme.pathTail
  split
  · next c rest =>
    have stop : ¬isWordStart c = true := by simpa [pathGoesOn] using h
    rw [if_neg stop]
  · rfl

theorem pathTail_of_start {c : Char} (h : isWordStart c) (rest : List Char) :
    Lexeme.pathTail (':' :: ':' :: c :: rest) =
      ':' :: ':' :: c :: rest.takeWhile isWordPart ++
        Lexeme.pathTail (rest.dropWhile isWordPart) := by
  rw [Lexeme.pathTail, if_pos h]

/-- A path goes on for as long as it can. -/
theorem pathTail_spec (text : List Char) :
    ∃ rest, text = Lexeme.pathTail text ++ rest ∧ pathGoesOn rest = false ∧
      (Lexeme.pathTail text = [] ∨ ∃ p, Lexeme.pathTail text = ':' :: ':' :: p ∧ Path p ∧
        starts isWordPart rest = false) := by
  induction hn : text.length using Nat.strongRecOn generalizing text with
  | ind n ih =>
    by_cases h : pathGoesOn text = true
    · obtain ⟨c, more, rfl, hc⟩ : ∃ c more, text = ':' :: ':' :: c :: more ∧ isWordStart c := by
        unfold pathGoesOn at h
        split at h
        · next rest =>
          cases rest with
          | nil => simp at h
          | cons c more => exact ⟨c, more, rfl, by simpa using h⟩
        · cases h
      have shorter := (List.dropWhile_suffix isWordPart (l := more)).length_le
      have hlen : (more.dropWhile isWordPart).length < n := by simp at hn; omega
      obtain ⟨rest, hrest, hgo, htail⟩ := ih _ hlen (more.dropWhile isWordPart) rfl
      have word := word_takeWhile hc more
      rw [pathTail_of_start hc]
      refine ⟨rest, ?_, hgo, Or.inr ?_⟩
      · have whole := List.takeWhile_append_dropWhile (p := isWordPart) (l := more)
        simp only [List.cons_append, List.append_assoc, ← hrest, whole]
      · rcases htail with hnil | ⟨p, hp, hpath, hstop⟩
        · rw [hnil] at hrest ⊢
          refine ⟨_, by simp, .word word, ?_⟩
          rw [List.nil_append] at hrest
          rw [← hrest]
          exact starts_dropWhile isWordPart more
        · exact ⟨_, by simp [hp], .cons word hpath, hstop⟩
    · have stop : pathGoesOn text = false := Bool.eq_false_iff.mpr h
      refine ⟨text, ?_, stop, Or.inl (pathTail_of_not stop)⟩
      rw [pathTail_of_not stop, List.nil_append]

theorem pathTail_of_path {p rest : List Char} (hp : Path p) (hstop : starts isWordPart rest = false)
    (hgo : pathGoesOn rest = false) :
    Lexeme.pathTail (':' :: ':' :: p ++ rest) = ':' :: ':' :: p := by
  have colon : isWordPart ':' = false := by decide
  induction hp with
  | word hw =>
    obtain @⟨c, cs, hc, hcs⟩ := hw
    simp only [List.cons_append]
    rw [pathTail_of_start hc, takeWhile_of_starts hcs hstop, dropWhile_of_starts hcs hstop,
      pathTail_of_not hgo, List.append_nil]
  | @cons w p hw _ ih =>
    obtain @⟨c, cs, hc, hcs⟩ := hw
    have next : starts isWordPart (':' :: ':' :: p ++ rest) = false := colon
    have split : ':' :: ':' :: (c :: cs ++ ':' :: ':' :: p) ++ rest =
        ':' :: ':' :: c :: (cs ++ (':' :: ':' :: p ++ rest)) := by simp
    rw [split, pathTail_of_start hc, takeWhile_of_starts hcs next, dropWhile_of_starts hcs next, ih]
    simp

theorem digitRun_of_not {text : List Char} (h : digitsGoOn text = false) :
    Lexeme.digitRun text = [] := by
  have underscore : '_'.isDigit = false := by decide
  unfold Lexeme.digitRun
  split
  · rfl
  · next d rest =>
    have stop : ¬d.isDigit = true := by simpa [digitsGoOn] using h
    rw [if_neg stop]
  · next c rest hne =>
    have stop : ¬c.isDigit = true := by
      by_cases hc : c = '_'
      · rw [hc, underscore]
        exact Bool.false_ne_true
      · simpa [digitsGoOn, hc] using h
    rw [if_neg stop]

theorem digitRun_of_digit {d : Char} (h : d.isDigit) (rest : List Char) :
    Lexeme.digitRun (d :: rest) = d :: Lexeme.digitRun rest := by
  have other : d ≠ '_' := by
    intro he
    rw [he] at h
    cases h
  rw [Lexeme.digitRun]
  · rw [if_pos h]
  · intro _ _ he
    exact absurd he other

theorem digitRun_of_underscore {d : Char} (h : d.isDigit) (rest : List Char) :
    Lexeme.digitRun ('_' :: d :: rest) = '_' :: Lexeme.digitRun (d :: rest) := by
  rw [Lexeme.digitRun, if_pos h]

/-- A run of digits goes on for as long as it can. -/
theorem digitRun_spec {d : Char} (hd : d.isDigit) (text : List Char) :
    ∃ rest, d :: text = Lexeme.digitRun (d :: text) ++ rest ∧
      Digits (Lexeme.digitRun (d :: text)) ∧ digitsGoOn rest = false := by
  induction hn : text.length using Nat.strongRecOn generalizing d text with
  | ind n ih =>
    rw [digitRun_of_digit hd]
    by_cases h : digitsGoOn text = true
    · by_cases hu : ∃ c rest, text = '_' :: c :: rest ∧ c.isDigit
      · obtain ⟨c, rest, rfl, hc⟩ := hu
        obtain ⟨after, hafter, hds, hstop⟩ := ih rest.length (by simp at hn; omega) hc rest rfl
        refine ⟨after, ?_, ?_, hstop⟩
        · rw [digitRun_of_underscore hc, List.cons_append, List.cons_append, ← hafter]
        · rw [digitRun_of_underscore hc]
          exact .underscore hd hds
      · obtain ⟨c, rest, rfl, hc⟩ : ∃ c rest, text = c :: rest ∧ c.isDigit := by
          unfold digitsGoOn at h
          split at h
          · next rest =>
            cases rest with
            | nil => simp at h
            | cons c rest => exact absurd ⟨c, rest, rfl, by simpa using h⟩ hu
          · cases text with
            | nil => simp at h
            | cons c rest => exact ⟨c, rest, rfl, by simpa using h⟩
        obtain ⟨after, hafter, hds, hstop⟩ := ih rest.length (by simp at hn; omega) hc rest rfl
        refine ⟨after, ?_, .cons hd hds, hstop⟩
        rw [List.cons_append, ← hafter]
    · have stop : digitsGoOn text = false := Bool.eq_false_iff.mpr h
      rw [digitRun_of_not stop]
      exact ⟨text, rfl, .last hd, stop⟩

theorem digitRun_of_digits {ds rest : List Char} (hds : Digits ds)
    (hstop : digitsGoOn rest = false) :
    Lexeme.digitRun (ds ++ rest) = ds := by
  induction hds with
  | last hd => rw [List.cons_append, digitRun_of_digit hd, List.nil_append, digitRun_of_not hstop]
  | cons hd _ ih => rw [List.cons_append, digitRun_of_digit hd, ih]
  | @underscore d ds hd hds ih =>
    obtain ⟨c, cs, rfl, hc⟩ := hds.exists_cons
    rw [List.cons_append, List.cons_append, digitRun_of_digit hd, List.cons_append,
      digitRun_of_underscore hc, ← List.cons_append, ih]

theorem stringBody_sound {quote : Char} {text body : List Char} {n : Nat}
    (h : Lexeme.stringBody quote text = some (body, n)) :
    ∃ s rest, text = s ++ quote :: rest ∧ n = s.length + 1 ∧ Body quote s body := by
  fun_induction Lexeme.stringBody quote text generalizing body n with
  | case1 => cases h
  | case2 rest =>
    cases h
    exact ⟨[], rest, rfl, rfl, .nil⟩
  | case3 => cases h
  | case4 e rest _ ih =>
    obtain ⟨⟨body', n'⟩, hr, he⟩ := Option.map_eq_some_iff.mp h
    cases he
    obtain ⟨s, after, rfl, rfl, hs⟩ := ih hr
    exact ⟨'\\' :: e :: s, after, rfl, rfl, .escape (escape_iff.mpr rfl) hs⟩
  | case5 c rest hq he ih =>
    obtain ⟨⟨body', n'⟩, hr, heq⟩ := Option.map_eq_some_iff.mp h
    cases heq
    obtain ⟨s, after, rfl, rfl, hs⟩ := ih hr
    exact ⟨c :: s, after, rfl, rfl, .plain hq he hs⟩

theorem stringBody_complete {quote : Char} {s body : List Char} (hquote : quote ≠ '\\')
    (hs : Body quote s body) (rest : List Char) :
    Lexeme.stringBody quote (s ++ quote :: rest) = some (body, s.length + 1) := by
  induction hs with
  | nil =>
    rw [List.nil_append]
    unfold Lexeme.stringBody
    simp
  | @plain c s body hq he _ ih =>
    rw [List.cons_append]
    unfold Lexeme.stringBody
    simp [hq, he, ih]
  | escape hc _ ih =>
    rw [List.cons_append, List.cons_append]
    unfold Lexeme.stringBody
    simp [hquote.symm, ih, escape_iff.mp hc]

/-- A number without its sign: digits, or digits on both sides of a point. -/
inductive Unsigned : Kind → List Char → List Char → Prop
  | integer {ds rest : List Char} : Digits ds → digitsGoOn rest = false →
    pointGoesOn rest = false → Unsigned .integer ds rest
  | float {ds ds' rest : List Char} : Digits ds → Digits ds' → digitsGoOn rest = false →
    Unsigned .float (ds ++ '.' :: ds') rest

theorem Unsigned.exists_cons {kind : Kind} {s rest : List Char} (h : Unsigned kind s rest) :
    ∃ d ds, s = d :: ds ∧ d.isDigit := by
  cases h with
  | integer hds _ _ => exact hds.exists_cons
  | float hds _ _ =>
    obtain ⟨d, ds, rfl, hd⟩ := hds.exists_cons
    exact ⟨d, _, rfl, hd⟩

theorem Unsigned.lexed {kind : Kind} {s rest sign : List Char} (h : Unsigned kind s rest)
    (hsign : sign = [] ∨ sign = ['-']) : Lexed kind (sign ++ s) (sign ++ s) rest := by
  cases h with
  | integer hds hstop hpoint => exact .integer hsign hds hstop hpoint
  | float hds hds' hstop =>
    have lexed := Lexed.float hsign hds hds' hstop
    simpa only [List.append_assoc] using lexed

theorem unsignedNumber_sound {d : Char} (hd : d.isDigit) (text : List Char) :
    ∃ rest, d :: text = (Lexeme.unsignedNumber (d :: text)).2 ++ rest ∧
      Unsigned (Lexeme.unsignedNumber (d :: text)).1 (Lexeme.unsignedNumber (d :: text)).2
        rest := by
  obtain ⟨rest, htext, hds, hstop⟩ := digitRun_spec hd text
  have drop : (d :: text).drop (Lexeme.digitRun (d :: text)).length = rest :=
    (congrArg (List.drop _) htext).trans List.drop_left
  rw [Lexeme.unsignedNumber]
  simp only [drop]
  split
  · next more =>
    by_cases hm : Lexeme.startsWithDigit more = true
    · obtain ⟨c, more, rfl, hc⟩ : ∃ c cs, more = c :: cs ∧ c.isDigit := by
        cases more with
        | nil => cases hm
        | cons c cs => exact ⟨c, cs, rfl, by simpa [Lexeme.startsWithDigit] using hm⟩
      obtain ⟨after, hafter, hds', hstop'⟩ := digitRun_spec hc more
      rw [if_pos hm]
      refine ⟨after, ?_, .float hds hds' hstop'⟩
      rw [List.append_assoc, List.cons_append, ← hafter]
      exact htext
    · have point : pointGoesOn ('.' :: more) = false := Bool.eq_false_iff.mpr hm
      rw [if_neg hm]
      exact ⟨'.' :: more, htext, .integer hds hstop point⟩
  · next hne =>
    have point : pointGoesOn rest = false := by
      unfold pointGoesOn
      split
      · next more => exact absurd rfl (hne more)
      · rfl
    exact ⟨rest, htext, .integer hds hstop point⟩

theorem unsignedNumber_complete {kind : Kind} {s rest : List Char} (h : Unsigned kind s rest) :
    Lexeme.unsignedNumber (s ++ rest) = (kind, s) := by
  cases h with
  | integer hds hstop hpoint =>
    rw [Lexeme.unsignedNumber, digitRun_of_digits hds hstop]
    simp only [List.drop_left]
    split
    · next more =>
      have stop : ¬Lexeme.startsWithDigit more = true := Bool.eq_false_iff.mp hpoint
      rw [if_neg stop]
    · rfl
  | @float ds ds' rest hds hds' hstop =>
    have point : digitsGoOn ('.' :: (ds' ++ rest)) = false := by
      simp [digitsGoOn]
    have digit : Lexeme.startsWithDigit (ds' ++ rest) = true := by
      obtain ⟨d, more, rfl, hd⟩ := hds'.exists_cons
      simpa [Lexeme.startsWithDigit] using hd
    rw [List.append_assoc, List.cons_append, Lexeme.unsignedNumber, digitRun_of_digits hds point]
    simp only [List.drop_left, if_pos digit, digitRun_of_digits hds' hstop]

theorem endsLabel_iff {text : List Char} :
    Lexeme.endsLabel text = true ↔ ∃ rest, text = ':' :: rest ∧ afterLabel rest := by
  unfold Lexeme.endsLabel
  split
  · exact ⟨fun _ => ⟨[], rfl, rfl⟩, fun _ => rfl⟩
  · next c rest =>
    simp [afterLabel]
  · next h₁ h₂ =>
    refine ⟨fun h => (by cases h), ?_⟩
    intro ⟨rest, ht, _⟩
    cases rest with
    | nil => exact absurd ht h₁
    | cons c rest => exact absurd ht (h₂ c rest)

theorem word_sound {c : Char} (hc : isWordStart c) (rest : List Char) :
    ∃ s after, rest = s ++ after ∧ (Lexeme.word c rest).more = s.length ∧
      Lexed (Lexeme.word c rest).kind (Lexeme.word c rest).raw (c :: s) after := by
  have whole := List.takeWhile_append_dropWhile (p := isWordPart) (l := rest)
  have word := word_takeWhile hc rest
  have stop := starts_dropWhile isWordPart rest
  obtain ⟨after, hafter, hgo, htail⟩ := pathTail_spec (rest.dropWhile isWordPart)
  rw [Lexeme.word]
  rcases htail with hnil | ⟨p, hp, hpath, hstop⟩
  · rw [hnil, List.nil_append] at hafter
    simp only [hnil, List.isEmpty_nil, Bool.not_true, Bool.false_eq_true, if_false]
    by_cases hl : Lexeme.endsLabel (rest.dropWhile isWordPart) = true
    · obtain ⟨more, hmore, hlabel⟩ := endsLabel_iff.mp hl
      rw [if_pos hl]
      refine ⟨rest.takeWhile isWordPart ++ [':'], more, ?_, by simp, .label word hlabel⟩
      conv => lhs; rw [← whole, hmore]
      simp
    · have ends : NameEnds (rest.dropWhile isWordPart) := by
        refine ⟨stop, hafter ▸ hgo, fun more hmore => ?_⟩
        refine Bool.eq_false_iff.mpr fun hlabel => hl ?_
        exact endsLabel_iff.mpr ⟨more, hmore, hlabel⟩
      rw [if_neg hl]
      refine ⟨rest.takeWhile isWordPart, rest.dropWhile isWordPart, whole.symm, ?_⟩
      split
      · next hup => exact ⟨rfl, .constant word hup ends⟩
      · next hup => exact ⟨rfl, .name word (Bool.eq_false_iff.mpr hup) ends⟩
  · simp only [hp, List.isEmpty_cons, Bool.not_false, if_true]
    refine ⟨rest.takeWhile isWordPart ++ ':' :: ':' :: p, after, ?_, ?_, ?_⟩
    · conv => lhs; rw [← whole, hafter, hp]
      simp
    · simp [Lexeme.verbatim]
    · exact .path word hpath hstop hgo

theorem word_of_nameEnds {c : Char} {cs rest : List Char} (hcs : ∀ x ∈ cs, isWordPart x)
    (h : NameEnds rest) : Lexeme.word c (cs ++ rest) =
      Lexeme.verbatim (if isUppercase c then .constant
        else (Kind.ofReserved? (String.ofList (c :: cs))).getD .identifier) (c :: cs) := by
  have label : ¬Lexeme.endsLabel rest = true := by
    intro hl
    obtain ⟨more, hmore, hlabel⟩ := endsLabel_iff.mp hl
    exact Bool.false_ne_true ((h.label more hmore).symm.trans hlabel)
  rw [Lexeme.word, takeWhile_of_starts hcs h.word, dropWhile_of_starts hcs h.word,
    pathTail_of_not h.path]
  simp only [List.isEmpty_nil, Bool.not_true, Bool.false_eq_true, if_false, if_neg label]
  split <;> rfl

theorem word_of_label {c : Char} {cs rest : List Char} (hcs : ∀ x ∈ cs, isWordPart x)
    (h : afterLabel rest) :
    Lexeme.word c (cs ++ ':' :: rest) = ⟨.label, c :: cs, (cs ++ [':']).length⟩ := by
  have colon : starts isWordPart (':' :: rest) = false := by
    rw [starts_cons]
    decide
  have path : pathGoesOn (':' :: rest) = false := by
    cases rest with
    | nil => rfl
    | cons d rest =>
      have other : d ≠ ':' := by
        intro he
        simp [afterLabel, he] at h
      simp [pathGoesOn, other]
  have label : Lexeme.endsLabel (':' :: rest) = true := endsLabel_iff.mpr ⟨rest, rfl, h⟩
  rw [Lexeme.word, takeWhile_of_starts hcs colon, dropWhile_of_starts hcs colon,
    pathTail_of_not path]
  simp only [List.isEmpty_nil, Bool.not_true, Bool.false_eq_true, if_false, if_pos label]
  simp

theorem word_of_path {c : Char} {cs p rest : List Char} (hcs : ∀ x ∈ cs, isWordPart x)
    (hp : Path p) (hstop : starts isWordPart rest = false) (hgo : pathGoesOn rest = false) :
    Lexeme.word c (cs ++ (':' :: ':' :: p ++ rest)) =
      Lexeme.verbatim .constant (c :: cs ++ ':' :: ':' :: p) := by
  have colon : starts isWordPart (':' :: ':' :: p ++ rest) = false := by
    rw [List.cons_append, starts_cons]
    decide
  rw [Lexeme.word, takeWhile_of_starts hcs colon, dropWhile_of_starts hcs colon,
    pathTail_of_path hp hstop hgo]
  simp

/-- The table of operators and marks holds just the signs that spell them. -/
theorem mem_spellings_iff {kind : Kind} {s : List Char} :
    (s, kind) ∈ Lexeme.spellings ↔ s ∈ signs kind := by
  have spelt : ∀ entry ∈ Lexeme.spellings, entry.1 ∈ signs entry.2 := by decide
  have operators : ∀ op ∈ Operator.all, ∀ s ∈ signs (.operator op),
      (s, .operator op) ∈ Lexeme.spellings := by decide
  have marks : ∀ m ∈ Mark.all, ∀ s ∈ signs (.mark m), (s, .mark m) ∈ Lexeme.spellings := by decide
  refine ⟨fun h => spelt _ h, fun h => ?_⟩
  cases kind with
  | operator op => exact operators op (by cases op <;> decide) s h
  | mark m => exact marks m (by cases m <;> decide) s h
  | _ => cases h

/-- Whether a character starts nothing but a sign. -/
def startsSign (c : Char) : Bool :=
  c ≠ '#' && c ≠ '"' && c ≠ '\'' && !c.isDigit && !isWordStart c && !isWhiteSpace c

theorem starts_of_sign {kind : Kind} {s : List Char} (h : s ∈ signs kind) :
    starts startsSign s = true := by
  have all : ∀ entry ∈ Lexeme.spellings, starts startsSign entry.1 = true := by decide
  exact all _ (mem_spellings_iff.mpr h)

/-- No entry of the table is hidden by one before it that spells the start of it. -/
theorem spellings_pairwise :
    Lexeme.spellings.Pairwise fun a b => a.1.isPrefixOf b.1 = false := by
  decide

/-- The sign that is found is the longest that stands there. -/
theorem find_spellings_iff {text s : List Char} {kind : Kind} :
    (Lexeme.spellings.find? fun entry => entry.1.isPrefixOf text) = some (s, kind) ↔
      s ∈ signs kind ∧ s <+: text ∧
        ∀ kind', ∀ s' ∈ signs kind', s' <+: text → s'.length ≤ s.length := by
  have pairwise := spellings_pairwise
  constructor
  · intro h
    obtain ⟨hs, before, after, htable, hbefore⟩ := List.find?_eq_some_iff_append.mp h
    have mem : (s, kind) ∈ Lexeme.spellings := by
      rw [htable]
      simp
    refine ⟨mem_spellings_iff.mp mem, List.isPrefixOf_iff_prefix.mp hs, ?_⟩
    intro kind' s' hs' hfront
    have mem' := mem_spellings_iff.mpr hs'
    rw [htable] at mem' pairwise
    apply Nat.not_lt.mp
    intro hlt
    have longer : s <+: s' :=
      List.prefix_of_prefix_length_le (List.isPrefixOf_iff_prefix.mp hs) hfront (Nat.le_of_lt hlt)
    rcases List.mem_append.mp mem' with hmem | hmem
    · have hidden := hbefore _ hmem
      simp [List.isPrefixOf_iff_prefix.mpr hfront] at hidden
    · rcases List.mem_cons.mp hmem with heq | hmem
      · cases heq
        omega
      · have later := (List.pairwise_cons.mp (List.pairwise_append.mp pairwise).2.1).1 _ hmem
        exact Bool.false_ne_true (later.symm.trans (List.isPrefixOf_iff_prefix.mpr longer))
  · intro ⟨hs, hfront, hlongest⟩
    obtain ⟨before, after, htable⟩ := List.append_of_mem (mem_spellings_iff.mpr hs)
    refine List.find?_eq_some_iff_append.mpr
      ⟨List.isPrefixOf_iff_prefix.mpr hfront, before, after, htable, ?_⟩
    intro entry hentry
    rw [Bool.not_eq_true', Bool.eq_false_iff]
    intro hfound
    have mem : (entry.1, entry.2) ∈ Lexeme.spellings := by
      rw [htable]
      exact List.mem_append_left _ hentry
    have shorter := hlongest _ _ (mem_spellings_iff.mp mem) (List.isPrefixOf_iff_prefix.mp hfound)
    have start :=
      List.prefix_of_prefix_length_le (List.isPrefixOf_iff_prefix.mp hfound) hfront shorter
    rw [htable] at pairwise
    have later := (List.pairwise_append.mp pairwise).2.2 _ hentry (s, kind) (by simp)
    exact Bool.false_ne_true (later.symm.trans (List.isPrefixOf_iff_prefix.mpr start))

theorem number_sound {c : Char} {rest : List Char}
    (h : c.isDigit || (c = '-' && Lexeme.startsWithDigit rest)) :
    ∃ s after, rest = s ++ after ∧ (Lexeme.number c rest).more = s.length ∧
      Lexed (Lexeme.number c rest).kind (Lexeme.number c rest).raw (c :: s) after := by
  have minus : '-'.isDigit = false := by decide
  rw [Lexeme.number]
  by_cases hm : c = '-'
  · obtain ⟨d, text, rfl, hd⟩ : ∃ d text, rest = d :: text ∧ d.isDigit := by
      cases rest with
      | nil => simp [hm, minus, Lexeme.startsWithDigit] at h
      | cons d text => exact ⟨d, text, rfl, by simpa [hm, minus, Lexeme.startsWithDigit] using h⟩
    obtain ⟨after, hafter, hnumber⟩ := unsignedNumber_sound hd text
    rw [if_pos hm]
    refine ⟨_, after, hafter, ?_, ?_⟩
    · simp [Lexeme.verbatim]
    · have lexed := hnumber.lexed (Or.inr rfl)
      rw [hm]
      exact lexed
  · have hd : c.isDigit = true := by simpa [hm] using h
    obtain ⟨after, hafter, hnumber⟩ := unsignedNumber_sound hd rest
    rw [if_neg hm]
    obtain ⟨s, hs⟩ : ∃ s, (Lexeme.unsignedNumber (c :: rest)).2 = c :: s := by
      cases hraw : (Lexeme.unsignedNumber (c :: rest)).2 with
      | nil =>
        rw [hraw] at hnumber
        obtain ⟨d, ds, he, _⟩ := hnumber.exists_cons
        cases he
      | cons d s =>
        rw [hraw, List.cons_append] at hafter
        exact ⟨s, by rw [(List.cons.inj hafter).1]⟩
    have lexed := hnumber.lexed (Or.inl rfl)
    rw [hs, List.nil_append] at lexed
    refine ⟨s, after, ?_, ?_, ?_⟩
    · rw [hs, List.cons_append] at hafter
      exact (List.cons.inj hafter).2
    · simp [Lexeme.verbatim, hs]
    · simpa only [Lexeme.verbatim, hs] using lexed

theorem punctuation_sound {c : Char} {rest : List Char} {lexeme : Lexeme}
    (hsymbol : c = ':' → starts isWordStart rest = false)
    (hminus : c = '-' → starts Char.isDigit rest = false)
    (h : Lexeme.punctuation c rest = .ok lexeme) :
    ∃ s after, rest = s ++ after ∧ lexeme.more = s.length ∧
      Lexed lexeme.kind lexeme.raw (c :: s) after := by
  rw [Lexeme.punctuation] at h
  split at h
  · next raw kind hfind =>
    cases h
    obtain ⟨hs, hfront, hlongest⟩ := find_spellings_iff.mp hfind
    obtain ⟨after, hafter⟩ := hfront
    cases raw with
    | nil => cases starts_of_sign hs
    | cons d s =>
      rw [← hafter] at hlongest
      rw [List.cons_append] at hafter
      obtain ⟨rfl, rfl⟩ := List.cons.inj hafter
      refine ⟨s, after, rfl, by simp [Lexeme.verbatim], .sign hs hlongest ?_ ?_⟩
      · intro he
        cases he
        exact hsymbol rfl
      · intro he
        cases he
        exact hminus rfl
  · cases h

theorem symbol_sound {c : Char} {rest : List Char} {lexeme : Lexeme}
    (h : Lexeme.symbol? c rest = some lexeme) :
    ∃ s after, rest = s ++ after ∧ lexeme.more = s.length ∧
      Lexed lexeme.kind lexeme.raw (c :: s) after := by
  rw [Lexeme.symbol?] at h
  split at h
  · next hs =>
    cases h
    obtain ⟨hc, hstart⟩ := Bool.and_eq_true_iff.mp hs
    have colon : c = ':' := by simpa using hc
    have word : Word (rest.takeWhile isWordPart) := by
      cases rest with
      | nil => simp at hstart
      | cons d more =>
        have hd : isWordStart d = true := by simpa using hstart
        rw [List.takeWhile_cons_of_pos (isWordPart_of_isWordStart hd)]
        exact word_takeWhile hd more
    have whole := List.takeWhile_append_dropWhile (p := isWordPart) (l := rest)
    refine ⟨_, _, whole.symm, rfl, ?_⟩
    rw [colon]
    exact .symbol word (starts_dropWhile isWordPart rest)
  · cases h

/-- What is read at a place is spelt there and does not go on. -/
theorem read_sound {c : Char} {rest : List Char} {lexeme : Lexeme}
    (h : Lexeme.read c rest = .ok lexeme) :
    ∃ s after, rest = s ++ after ∧ lexeme.more = s.length ∧
      Lexed lexeme.kind lexeme.raw (c :: s) after := by
  rw [Lexeme.read] at h
  split at h
  · next hc =>
    cases h
    have whole := List.takeWhile_append_dropWhile (p := (· ≠ '\n')) (l := rest)
    refine ⟨_, _, whole.symm, rfl, ?_⟩
    rw [hc]
    refine .comment (fun hmem => by simpa using mem_takeWhile hmem) ?_
    have stop := starts_dropWhile (· ≠ '\n') rest
    cases hafter : rest.dropWhile (· ≠ '\n') with
    | nil => exact Or.inl rfl
    | cons d after =>
      rw [hafter] at stop
      exact Or.inr (by simpa using stop)
  · next hc =>
    split at h
    · next hq =>
      rw [Lexeme.quotedString] at h
      split at h
      · next body n hbody =>
        cases h
        obtain ⟨s, after, rfl, rfl, hs⟩ := stringBody_sound hbody
        refine ⟨s ++ [c], after, by simp, by simp, ?_⟩
        exact .string (by simpa using hq) hs
      · cases h
    · split at h
      · next hn =>
        cases h
        exact number_sound hn
      · next hn =>
        split at h
        · next hw =>
          cases h
          exact word_sound hw rest
        · next hw =>
          have minus (hm : c = '-') : starts Char.isDigit rest = false := by
            simpa [hm, starts, Lexeme.startsWithDigit] using hn
          cases hsymbol : Lexeme.symbol? c rest with
          | some lexeme' =>
            rw [hsymbol] at h
            cases h
            exact symbol_sound hsymbol
          | none =>
            rw [hsymbol] at h
            refine punctuation_sound (fun hcolon => ?_) minus h
            simpa [Lexeme.symbol?, hcolon, starts] using hsymbol

theorem isWordStart_of_isDigit {c : Char} (h : c.isDigit) : isWordStart c = false := by
  have apart : ∀ n ∈ List.range' 48 10, covers alphabeticSpans n = false := by decide
  simp only [Char.isDigit, Bool.and_eq_true, decide_eq_true_eq, ge_iff_le] at h
  have low : 48 ≤ c.toNat := UInt32.le_iff_toNat_le.mp h.1
  have high : c.toNat ≤ 57 := UInt32.le_iff_toNat_le.mp h.2
  have letter : isAlphabetic c = false := apart _ (List.mem_range'_1.mpr (by omega))
  have other : c ≠ '_' := by
    intro he
    rw [he] at high
    exact absurd high (by decide)
  simp [isWordStart, letter, other]

/-- What starts a word starts nothing else. -/
theorem apart_of_isWordStart {c : Char} (h : isWordStart c) :
    c ≠ '#' ∧ c ≠ '"' ∧ c ≠ '\'' ∧ c ≠ '-' ∧ c ≠ ':' ∧ c.isDigit = false := by
  have signs : ['#', '"', '\'', '-', ':'].all (!isWordStart ·) = true := by decide
  have other {d : Char} (hd : d ∈ ['#', '"', '\'', '-', ':']) : c ≠ d := by
    have no : isWordStart d = false := by simpa using List.all_eq_true.mp signs d hd
    intro he
    rw [he, no] at h
    cases h
  refine ⟨other (by simp), other (by simp), other (by simp), other (by simp), other (by simp), ?_⟩
  apply Bool.eq_false_iff.mpr
  intro hd
  rw [isWordStart_of_isDigit hd] at h
  cases h

theorem read_of_isWordStart {c : Char} (h : isWordStart c) (rest : List Char) :
    Lexeme.read c rest = .ok (Lexeme.word c rest) := by
  obtain ⟨hash, double, single, minus, _, digit⟩ := apart_of_isWordStart h
  simp [Lexeme.read, hash, double, single, minus, digit, h]

theorem read_of_number {c : Char} {rest : List Char}
    (h : c.isDigit || (c = '-' && Lexeme.startsWithDigit rest)) :
    Lexeme.read c rest = .ok (Lexeme.number c rest) := by
  have apart : c ≠ '#' ∧ c ≠ '"' ∧ c ≠ '\'' := by
    refine ⟨?_, ?_, ?_⟩ <;> intro he <;> simp [he] at h
  rw [Lexeme.read, if_neg apart.1]
  simp only [apart.2.1, apart.2.2, decide_false, Bool.or_self, Bool.false_eq_true, if_false,
    if_pos h]

theorem read_of_symbol {w rest : List Char} (hw : Word w) (h : starts isWordPart rest = false) :
    Lexeme.read ':' (w ++ rest) = .ok ⟨.symbol, w, w.length⟩ := by
  have colon : isWordStart ':' = false := by decide
  obtain @⟨d, cs, hd, hcs⟩ := hw
  have part : ∀ x ∈ d :: cs, isWordPart x = true := by
    intro x hx
    rcases List.mem_cons.mp hx with rfl | hx
    · exact isWordPart_of_isWordStart hd
    · exact hcs x hx
  have run := takeWhile_of_starts part h
  have symbol : Lexeme.symbol? ':' (d :: cs ++ rest) =
      some ⟨.symbol, d :: cs, (d :: cs).length⟩ := by
    rw [Lexeme.symbol?, run]
    simp [hd]
  simp only [Lexeme.read, symbol, colon]
  simp

theorem read_of_sign {kind : Kind} {c : Char} {s rest : List Char} (hs : c :: s ∈ signs kind)
    (hlongest : ∀ kind', ∀ s' ∈ signs kind', s' <+: c :: s ++ rest → s'.length ≤ (c :: s).length)
    (hcolon : c :: s = [':'] → starts isWordStart rest = false)
    (hminus : c :: s = ['-'] → starts Char.isDigit rest = false) :
    Lexeme.read c (s ++ rest) = .ok ⟨kind, c :: s, s.length⟩ := by
  have alone : ∀ entry ∈ Lexeme.spellings, (entry.1.head? = some ':' → entry.1 = [':']) ∧
      (entry.1.head? = some '-' → entry.1 = ['-']) := by decide
  obtain ⟨aloneColon, aloneMinus⟩ := alone _ (mem_spellings_iff.mpr hs)
  have start : startsSign c = true := by simpa using starts_of_sign hs
  simp only [startsSign, Bool.and_eq_true, Bool.not_eq_true', decide_eq_true_eq, ne_eq] at start
  obtain ⟨⟨⟨⟨⟨hash, double⟩, single⟩, digit⟩, word⟩, _⟩ := start
  have number : (c.isDigit || (c = '-' && Lexeme.startsWithDigit (s ++ rest))) = false := by
    by_cases hm : c = '-'
    · have whole := aloneMinus (by rw [hm]; rfl)
      have stop := hminus whole
      rw [(List.cons.inj whole).2]
      simpa [digit, Lexeme.startsWithDigit, starts] using fun _ => stop
    · simp [digit, hm]
  have symbol : Lexeme.symbol? c (s ++ rest) = none := by
    by_cases hc : c = ':'
    · have whole := aloneColon (by rw [hc]; rfl)
      have stop := hcolon whole
      rw [(List.cons.inj whole).2]
      simpa [Lexeme.symbol?, hc, starts] using stop
    · simp [Lexeme.symbol?, hc]
  have found := find_spellings_iff.mpr ⟨hs, List.prefix_append _ rest, hlongest⟩
  rw [List.cons_append] at found
  simp only [Lexeme.read, hash, double, single, number, word, symbol, Lexeme.punctuation, found]
  simp [Lexeme.verbatim]

theorem read_of_unsigned {kind : Kind} {sign s rest slice : List Char} {c : Char}
    (h : Unsigned kind s rest) (hsign : sign = [] ∨ sign = ['-'])
    (hslice : c :: slice = sign ++ s) :
    Lexeme.read c (slice ++ rest) = .ok ⟨kind, c :: slice, slice.length⟩ := by
  obtain ⟨d, ds, rfl, hd⟩ := h.exists_cons
  have value : Lexeme.unsignedNumber (d :: (ds ++ rest)) = (kind, d :: ds) :=
    unsignedNumber_complete h
  rcases hsign with rfl | rfl
  · obtain ⟨rfl, rfl⟩ := List.cons.inj hslice
    have minus : c ≠ '-' := by
      intro he
      rw [he] at hd
      cases hd
    rw [read_of_number (by rw [hd]; rfl), Lexeme.number, if_neg minus]
    simp [value, Lexeme.verbatim]
  · obtain ⟨rfl, rfl⟩ := List.cons.inj hslice
    rw [read_of_number (by simp [Lexeme.startsWithDigit, hd]), Lexeme.number, if_pos rfl]
    simp [value, Lexeme.verbatim]

/-- What is spelt at a place and does not go on is what is read there. -/
theorem read_complete {kind : Kind} {raw s after : List Char} {c : Char}
    (h : Lexed kind raw (c :: s) after) :
    Lexeme.read c (s ++ after) = .ok ⟨kind, raw, s.length⟩ := by
  generalize hslice : c :: s = slice at h
  cases h with
  | symbol hw hstop =>
    cases hslice
    exact read_of_symbol hw hstop
  | label hw hlabel =>
    obtain @⟨d, cs, hd, hcs⟩ := hw
    obtain ⟨rfl, rfl⟩ : c = d ∧ s = cs ++ [':'] := by simpa using hslice
    rw [read_of_isWordStart hd, List.append_assoc]
    exact congrArg Except.ok (word_of_label hcs hlabel)
  | @path w p rest hw hp hstop hgo =>
    obtain @⟨d, cs, hd, hcs⟩ := hw
    obtain ⟨rfl, rfl⟩ : c = d ∧ s = cs ++ ':' :: ':' :: p := by simpa using hslice
    rw [read_of_isWordStart hd, List.append_assoc, word_of_path hcs hp hstop hgo]
    rfl
  | constant hw hup hends =>
    cases hslice
    obtain ⟨hc, hcs⟩ := hw
    rw [read_of_isWordStart hc, word_of_nameEnds hcs hends, if_pos hup]
    rfl
  | name hw hup hends =>
    cases hslice
    obtain ⟨hc, hcs⟩ := hw
    rw [read_of_isWordStart hc, word_of_nameEnds hcs hends, hup]
    rfl
  | integer hsign hds hstop hpoint =>
    rw [← hslice]
    exact read_of_unsigned (.integer hds hstop hpoint) hsign hslice
  | float hsign hds hds' hstop =>
    rw [← hslice]
    exact read_of_unsigned (.float hds hds' hstop) hsign (by simpa using hslice)
  | @string quote body text rest hq hs =>
    obtain ⟨rfl, rfl⟩ : c = quote ∧ s = body ++ [quote] := by simpa using hslice
    have escape : c ≠ '\\' := by rcases hq with rfl | rfl <;> decide
    have hash : c ≠ '#' := by rcases hq with rfl | rfl <;> decide
    have quoted : (c = '"' || c = '\'') = true := by simpa using hq
    rw [Lexeme.read, if_neg hash, if_pos quoted, Lexeme.quotedString, List.append_assoc,
      List.singleton_append, stringBody_complete escape hs]
    simp
  | comment hs hstop =>
    cases hslice
    have line : ∀ x ∈ s, (x ≠ '\n' : Bool) = true := by
      intro x hx
      have other : x ≠ '\n' := fun he => hs (he ▸ hx)
      simpa using other
    have stop : starts (· ≠ '\n') after = false := by
      rcases hstop with rfl | hstop
      · rfl
      · cases after with
        | nil => rfl
        | cons d after => simpa using hstop
    rw [Lexeme.read, if_pos rfl, Lexeme.comment, takeWhile_of_starts line stop]
  | sign hs hlongest hcolon hminus =>
    cases hslice
    exact read_of_sign hs hlongest hcolon hminus

/-- What holds of identifiers and of all reserved words holds of every name that is no constant. -/
theorem reserved_induction {p : Kind → Prop} (identifier : p .identifier)
    (reserved : ∀ entry ∈ Kind.reserved, p entry.2) (name : String) :
    p ((Kind.ofReserved? name).getD .identifier) := by
  cases hlook : Kind.ofReserved? name with
  | none => exact identifier
  | some kind =>
    obtain ⟨before, after, htable, _⟩ := List.lookup_eq_some_iff.mp hlook
    have mem : (name, kind) ∈ Kind.reserved := by
      rw [htable]
      exact List.mem_append_right _ (List.mem_cons_self ..)
    exact reserved _ mem

end SchemaLang.Lexical
