import SchemaLang.Proofs.Writing.Piece

namespace SchemaLang

open Text Lexical

namespace Lexical

theorem word_iff {w : List Char} :
    Word w ↔ starts isWordStart w = true ∧ w.tail.all isWordPart = true := by
  constructor
  · intro h
    obtain ⟨hc, hcs⟩ := h
    exact ⟨by simpa using hc, List.all_eq_true.mpr hcs⟩
  · intro ⟨hc, hcs⟩
    cases w with
    | nil => cases hc
    | cons c cs => exact .mk (by simpa using hc) (List.all_eq_true.mp hcs)

theorem Word.part {w : List Char} (h : Word w) (c : Char) (hc : c ∈ w) : isWordPart c = true := by
  obtain ⟨hstart, hcs⟩ := h
  rcases List.mem_cons.mp hc with rfl | hc
  · exact isWordPart_of_isWordStart hstart
  · exact hcs c hc

instance (w : List Char) : Decidable (Word w) := decidable_of_iff _ word_iff.symm

/-- No white space starts a word. -/
theorem isWhiteSpace_of_isWordStart {c : Char} (h : isWordStart c) : isWhiteSpace c = false := by
  have apart : ∀ s ∈ whiteSpaceSpans, ∀ n ∈ List.range' s.1 (s.2 - s.1 + 1),
      covers alphabeticSpans n = false := by decide +kernel
  apply Bool.eq_false_iff.mpr
  intro hblank
  have letter : isAlphabetic c = false := covers_eq_false_of_apart apart hblank
  have underscore : c = '_' := by simpa [isWordStart, letter] using h
  rw [underscore] at hblank
  revert hblank
  decide

theorem isWhiteSpace_of_isDigit {c : Char} (h : c.isDigit) : isWhiteSpace c = false := by
  have apart : ∀ n ∈ List.range' 48 10, covers whiteSpaceSpans n = false := by decide
  simp only [Char.isDigit, Bool.and_eq_true, decide_eq_true_eq, ge_iff_le] at h
  have low : 48 ≤ c.toNat := UInt32.le_iff_toNat_le.mp h.1
  have high : c.toNat ≤ 57 := UInt32.le_iff_toNat_le.mp h.2
  exact apart _ (List.mem_range'_1.mpr (by omega))

/-- What may follow a piece at once, whatever the piece. -/
def delimiters : List Char := [' ', ',', ')', ']', '\x7d']

/-- Whether a piece of any sort ends before the text. -/
inductive Cut : List Char → Prop
  | nil : Cut []
  | cons {c : Char} {rest : List Char} : c ∈ delimiters → Cut (c :: rest)

theorem nameEnds_cons {c : Char} (hc : c ∈ '.' :: '(' :: delimiters) (rest : List Char) :
    NameEnds (c :: rest) := by
  have table : ('.' :: '(' :: delimiters).all (fun d => !isWordPart d && d ≠ ':') = true := by
    decide
  obtain ⟨part, colon⟩ : isWordPart c = false ∧ c ≠ ':' := by
    simpa using List.all_eq_true.mp table c hc
  refine ⟨by simpa using part, ?_, fun more h => absurd (List.cons.inj h).1 colon⟩
  rw [pathGoesOn]
  intro rest' h
  exact colon (List.cons.inj h).1

theorem Cut.nameEnds {rest : List Char} (h : Cut rest) : NameEnds rest := by
  cases h with
  | nil => exact ⟨rfl, rfl, by simp⟩
  | cons hc => exact nameEnds_cons (by simp [hc]) _

theorem Cut.afterLabel {rest : List Char} (h : Cut rest) : Lexical.afterLabel rest = true := by
  have table : delimiters.all (fun d => !isWordStart d && d ≠ ':') = true := by decide
  cases h with
  | nil => rfl
  | @cons c rest hc =>
    obtain ⟨start, colon⟩ : isWordStart c = false ∧ c ≠ ':' := by
      simpa using List.all_eq_true.mp table c hc
    simp [Lexical.afterLabel, start, colon]

theorem Cut.numberEnds {rest : List Char} (h : Cut rest) :
    digitsGoOn rest = false ∧ pointGoesOn rest = false ∧ starts Char.isDigit rest = false := by
  have table : delimiters.all (fun d => !d.isDigit && d ≠ '_' && d ≠ '.') = true := by decide
  cases h with
  | nil => exact ⟨rfl, rfl, rfl⟩
  | @cons c rest hc =>
    obtain ⟨⟨digit, underscore⟩, point⟩ : (c.isDigit = false ∧ c ≠ '_') ∧ c ≠ '.' := by
      simpa using List.all_eq_true.mp table c hc
    refine ⟨?_, ?_, by simpa using digit⟩
    · rw [digitsGoOn]
      · simpa using digit
      · intro rest' he
        exact underscore (List.cons.inj he).1
    · rw [pointGoesOn]
      intro rest' he
      exact point (List.cons.inj he).1

/-- Whether a sign and a character start a longer sign. -/
def signGoesOn (s : List Char) (c : Char) : Bool :=
  Lexeme.spellings.any fun entry => (s ++ [c]).isPrefixOf entry.1

/-- A sign that does not go on is the longest that stands there. -/
theorem longest_of_signEnds {s rest : List Char} (h : starts (signGoesOn s) rest = false)
    (kind : Kind) (s' : List Char) (hs' : s' ∈ signs kind) (hfront : s' <+: s ++ rest) :
    s'.length ≤ s.length := by
  apply Nat.not_lt.mp
  intro hlt
  have start : s <+: s' :=
    List.prefix_of_prefix_length_le (List.prefix_append s rest) hfront (Nat.le_of_lt hlt)
  obtain ⟨more, rfl⟩ := start
  cases more with
  | nil => simp at hlt
  | cons c more =>
    obtain ⟨after, hafter⟩ := (List.prefix_append_right_inj s).mp hfront
    have goes : signGoesOn s c = true := by
      refine List.any_eq_true.mpr ⟨_, mem_spellings_iff.mpr hs', ?_⟩
      exact List.isPrefixOf_iff_prefix.mpr ⟨more, by simp⟩
    rw [← hafter] at h
    simp [goes] at h

theorem Cut.signEnds {kind : Kind} {s rest : List Char} (hs : s ∈ signs kind) (h : Cut rest) :
    starts (signGoesOn s) rest = false := by
  have table : ∀ entry ∈ Lexeme.spellings,
      delimiters.all (!signGoesOn entry.1 ·) = true := by decide
  cases h with
  | nil => rfl
  | @cons c rest hc =>
    have ends := List.all_eq_true.mp (table _ (mem_spellings_iff.mpr hs)) c hc
    simpa using ends

theorem digits_of_all {ds : List Char} (hne : ds ≠ []) (h : ∀ d ∈ ds, d.isDigit) : Digits ds := by
  induction ds with
  | nil => exact absurd rfl hne
  | cons d ds ih =>
    have hd := h d (by simp)
    cases ds with
    | nil => exact .last hd
    | cons d' ds => exact .cons hd (ih (by simp) fun x hx => h x (by simp [hx]))

theorem body_escaped (s : List Char) : Body '"' (s.flatMap Piece.escaped) s := by
  induction s with
  | nil => exact .nil
  | cons c s ih =>
    rw [List.flatMap_cons, Piece.escaped]
    split
    · next h =>
      have same : Escape c [c] := by
        rcases h with rfl | rfl
        · exact .doubleQuote
        · exact .backslash
      exact .escape same ih
    · next h =>
      exact .plain (fun he => h (.inl he)) (fun he => h (.inr he)) ih

end Lexical

namespace Piece

theorem digits_toDigits (n : Nat) : Digits (Nat.toDigits 10 n) :=
  digits_of_all Nat.toDigits_ne_nil fun _ hd =>
    Nat.isDigit_of_mem_toDigits (by decide) (by decide) hd

theorem lexed_word {name : String} (hw : Word name.toList) {rest : List Char}
    (h : NameEnds rest) : Lexed (wordKind name) name.toList name.toList rest := by
  have nonempty : name.toList ≠ [] := by
    intro he
    rw [he] at hw
    cases hw
  obtain ⟨c, cs, hname⟩ := List.exists_cons_of_ne_nil nonempty
  have same : name = String.ofList (c :: cs) := by rw [← hname, String.ofList_toList]
  rw [hname] at hw
  rw [wordKind, hname, starts_cons]
  by_cases hup : isUppercase c
  · rw [if_pos hup]
    exact .constant hw hup h
  · rw [if_neg hup, same]
    exact .name hw (Bool.eq_false_iff.mpr hup) h

theorem word_keyword (w : Keyword) :
    Word w.spelling.toList ∧ wordKind w.spelling = .keyword w := by
  cases w <;> decide

theorem word_type (w : TypeWord) : Word w.spelling.toList ∧ wordKind w.spelling = .type w := by
  cases w with
  | primitive type => cases type <;> decide
  | array => decide
  | hash => decide
  | element => decide
  | index => decide

theorem word_boolean (b : Bool) :
    Word (Piece.boolean b).raw.toList ∧ wordKind (Piece.boolean b).raw = .boolean := by
  cases b <;> decide

/-- The pieces that are spelt as words. -/
def IsWord : Piece → Prop
  | .keyword _ | .type _ | .boolean _ | .word _ => True
  | _ => False

theorem IsWord.lexed {p : Piece} (hword : p.IsWord) (hp : p.Valid) {rest : List Char}
    (h : NameEnds rest) : Lexed p.kind p.raw.toList p.text rest := by
  cases p with
  | keyword w =>
    obtain ⟨hw, hk⟩ := word_keyword w
    have lexed := lexed_word hw h
    rwa [hk] at lexed
  | type w =>
    obtain ⟨hw, hk⟩ := word_type w
    have lexed := lexed_word hw h
    rwa [hk] at lexed
  | boolean b =>
    obtain ⟨hw, hk⟩ := word_boolean b
    have lexed := lexed_word hw h
    rwa [hk] at lexed
  | word name => exact lexed_word hp h
  | _ => cases hword

theorem mem_signs_operator {op : Operator} (h : (Piece.operator op).Valid) :
    op.spelling.toList ∈ signs (.operator op) := by
  obtain ⟨hand, hor⟩ := h
  cases op <;> first | decide | contradiction

/-- Signs end before what they do not go on into. -/
theorem lexed_sign {kind : Kind} {s rest : List Char} (hs : s ∈ signs kind) (hcolon : s ≠ [':'])
    (h : starts (signGoesOn s) rest = false)
    (hminus : s = ['-'] → starts Char.isDigit rest = false) :
    Lexed kind s s rest :=
  .sign hs (longest_of_signEnds h) (fun he => absurd he hcolon) hminus

theorem operator_spelling_ne_colon (op : Operator) : op.spelling.toList ≠ [':'] := by
  cases op <;> decide

theorem mark_spelling_ne {m : Mark} (h : (Piece.mark m).Valid) :
    m.spelling.toList ≠ [':'] ∧ m.spelling.toList ≠ ['-'] := by
  have other : m ≠ .colon := h
  cases m <;> first | decide | contradiction

theorem lexed_constant {s rest : List Char} (hs : Constant s) (h : NameEnds rest) :
    Lexed .constant s s rest := by
  cases hs with
  | word hw hup => exact .constant hw hup h
  | path hw hp => exact .path hw hp h.word h.path

theorem lexed_decimal {s rest : List Char} (hs : Lexical.Decimal s) (h : digitsGoOn rest = false) :
    Lexed .float s s rest := by
  obtain ⟨hsign, hds, hds'⟩ := hs
  exact .float hsign hds hds' h

/-- Each piece ends before a space, a comma or a closing mark. -/
theorem lexed_of_cut {p : Piece} (hp : p.Valid) {rest : List Char} (h : Cut rest) :
    Lexed p.kind p.raw.toList p.text rest := by
  obtain ⟨digits, point, digit⟩ := h.numberEnds
  cases p with
  | keyword w => exact IsWord.lexed (p := .keyword w) trivial hp h.nameEnds
  | type w => exact IsWord.lexed (p := .type w) trivial hp h.nameEnds
  | boolean b => exact IsWord.lexed (p := .boolean b) trivial hp h.nameEnds
  | word name => exact IsWord.lexed (p := .word name) trivial hp h.nameEnds
  | constant path => exact lexed_constant hp h.nameEnds
  | symbol name => exact .symbol hp h.nameEnds.word
  | label name => exact .label hp h.afterLabel
  | integer n =>
    change Lexed .integer (String.ofList (numeral n)).toList (String.ofList (numeral n)).toList rest
    rw [String.toList_ofList, numeral]
    refine .integer ?_ (digits_toDigits _) digits point
    split <;> simp
  | float numeral => exact lexed_decimal hp digits
  | string value => exact .string (.inl rfl) (body_escaped _)
  | operator op =>
    have hs := mem_signs_operator hp
    exact lexed_sign hs (operator_spelling_ne_colon op) (h.signEnds hs) fun _ => digit
  | mark m =>
    have hs : m.spelling.toList ∈ signs (.mark m) := List.mem_singleton.mpr rfl
    obtain ⟨colon, minus⟩ := mark_spelling_ne hp
    exact lexed_sign hs colon (h.signEnds hs) fun he => absurd he minus

/-- When two pieces are written together. -/
theorem joined_cases {p q : Piece} (h : p.joined q) :
    q.closes ∨ p.opens ∨ (p.leads ∧ (q = .mark .dot ∨ q = .mark .leftParen)) ∨
      (∃ name, p = .mark .dot ∧ q = .word name) ∨
      ∃ path, p = .operator .subtract ∧ q = .constant path := by
  simp only [joined, Bool.or_eq_true] at h
  rcases h with (h | h) | h
  · exact .inl h
  · exact .inr (.inl h)
  · refine .inr (.inr ?_)
    split at h
    · exact .inl ⟨h, .inl rfl⟩
    · exact .inl ⟨h, .inr rfl⟩
    · exact .inr (.inl ⟨_, rfl, rfl⟩)
    · exact .inr (.inr ⟨_, rfl, rfl⟩)
    · cases h

theorem cut_of_closes {q : Piece} (h : q.closes) (rest : List Char) : Cut (q.text ++ rest) := by
  unfold closes at h
  split at h
  · exact .cons (by decide)
  · exact .cons (by decide)
  · exact .cons (by decide)
  · exact .cons (by decide)
  · cases h

/-- No sign goes on after an opening mark. -/
theorem lexed_of_opens {p : Piece} (h : p.opens) (rest : List Char) :
    Lexed p.kind p.raw.toList p.text rest := by
  have alone {s : List Char} (hs : s ∈ [['('], ['['], ['\x7b']]) :
      starts (signGoesOn s) rest = false := by
    cases rest with
    | nil => rfl
    | cons c rest =>
      rw [starts_cons]
      simp only [List.mem_cons, List.not_mem_nil, or_false] at hs
      rcases hs with rfl | rfl | rfl <;> simp [signGoesOn, Lexeme.spellings, List.isPrefixOf]
  unfold opens at h
  split at h
  · exact lexed_sign (by decide) (by decide) (alone (by decide)) fun he => absurd he (by decide)
  · exact lexed_sign (by decide) (by decide) (alone (by decide)) fun he => absurd he (by decide)
  · exact lexed_sign (by decide) (by decide) (alone (by decide)) fun he => absurd he (by decide)
  · cases h

theorem IsWord.of_leads {p : Piece} (h : p.leads) : p.IsWord := by
  unfold leads at h
  split at h
  · trivial
  · trivial
  · trivial
  · trivial
  · cases h

theorem starts_word {w : List Char} (hw : Word w) (rest : List Char) :
    ∃ c tail, w ++ rest = c :: tail ∧ isWordStart c := by
  obtain ⟨hc, _⟩ := hw
  exact ⟨_, _, rfl, hc⟩

theorem starts_constant {s : List Char} (hs : Constant s) (rest : List Char) :
    ∃ c tail, s ++ rest = c :: tail ∧ isWordStart c := by
  cases hs with
  | word hw _ => exact starts_word hw rest
  | path hw _ =>
    rw [List.append_assoc]
    exact starts_word hw _

/-- A point and a minus end before a word. -/
theorem lexed_before_word {kind : Kind} {s : List Char} {c : Char} (hs : s ∈ signs kind)
    (hsign : s = ['.'] ∨ s = ['-']) (hc : isWordStart c) (rest : List Char) :
    Lexed kind s s (c :: rest) := by
  have point : isWordStart '.' = false := by decide
  have other : c ≠ '.' := by
    intro he
    rw [he, point] at hc
    cases hc
  have digit : c.isDigit = false := (apart_of_isWordStart hc).2.2.2.2.2
  have alone : signGoesOn s c = false := by
    rcases hsign with rfl | rfl
    · simpa [signGoesOn, Lexeme.spellings, List.isPrefixOf] using other
    · simp [signGoesOn, Lexeme.spellings, List.isPrefixOf]
  refine lexed_sign hs ?_ (by simpa using alone) fun _ => by simpa using digit
  rcases hsign with rfl | rfl <;> decide

/-- Each piece ends before the one after it. -/
theorem lexed_before {p q : Piece} (hp : p.Valid) (hq : q.Valid) (rest : List Char) :
    Lexed p.kind p.raw.toList p.text (gap p q ++ (q.text ++ rest)) := by
  by_cases hjoined : p.joined q
  · rw [gap, if_pos hjoined, List.nil_append]
    rcases joined_cases hjoined with h | h | ⟨h, rfl | rfl⟩ | ⟨name, rfl, rfl⟩ | ⟨path, rfl, rfl⟩
    · exact lexed_of_cut hp (cut_of_closes h rest)
    · exact lexed_of_opens h _
    · exact (IsWord.of_leads h).lexed hp (nameEnds_cons (by decide) _)
    · exact (IsWord.of_leads h).lexed hp (nameEnds_cons (by decide) _)
    · obtain ⟨c, tail, htext, hc⟩ := starts_word hq rest
      change Lexed _ _ _ (name.toList ++ rest)
      rw [htext]
      exact lexed_before_word (by decide) (.inl rfl) hc tail
    · obtain ⟨c, tail, htext, hc⟩ := starts_constant hq rest
      change Lexed _ _ _ (path.toList ++ rest)
      rw [htext]
      exact lexed_before_word (by decide) (.inr rfl) hc tail
  · rw [gap, if_neg hjoined]
    exact lexed_of_cut hp (.cons (by decide))

end Piece

namespace Lexical

/-- No token starts with white space. -/
theorem Lexed.exists_cons {kind : Kind} {raw slice rest : List Char}
    (h : Lexed kind raw slice rest) : ∃ c s, slice = c :: s ∧ isWhiteSpace c = false := by
  have word {w : List Char} (hw : Word w) (more : List Char) :
      ∃ c s, w ++ more = c :: s ∧ isWhiteSpace c = false := by
    obtain ⟨hc, _⟩ := hw
    exact ⟨_, _, rfl, isWhiteSpace_of_isWordStart hc⟩
  have number {sign ds : List Char} (hsign : sign = [] ∨ sign = ['-']) (hds : Digits ds)
      (more : List Char) : ∃ c s, sign ++ ds ++ more = c :: s ∧ isWhiteSpace c = false := by
    obtain ⟨d, ds', rfl, hd⟩ := hds.exists_cons
    rcases hsign with rfl | rfl
    · exact ⟨_, _, rfl, isWhiteSpace_of_isDigit hd⟩
    · exact ⟨_, _, rfl, by decide⟩
  cases h with
  | symbol _ _ => exact ⟨_, _, rfl, by decide⟩
  | label hw _ => exact word hw _
  | path hw _ _ _ => exact word hw _
  | constant hw _ _ => simpa using word hw []
  | name hw _ _ => simpa using word hw []
  | integer hsign hds _ _ => simpa using number hsign hds []
  | float hsign hds _ _ => exact number hsign hds _
  | string hq _ => rcases hq with rfl | rfl <;> exact ⟨_, _, rfl, by decide⟩
  | comment _ _ => exact ⟨_, _, rfl, by decide⟩
  | sign hs _ _ _ =>
    have start := starts_of_sign hs
    cases raw with
    | nil => cases start
    | cons c s =>
      simp only [starts_cons, startsSign, Bool.and_eq_true, Bool.not_eq_true'] at start
      exact ⟨c, s, rfl, start.2⟩

theorem scan_space (blocks : Blocks) (here : Location) (text : List Char) :
    Token.scan blocks here (' ' :: text) = Token.scan blocks (here.advance ' ') text := by
  have blank : isWhiteSpace ' ' = true := by decide
  rw [Token.scan, if_pos blank]

/-- A token that is spelt at the front of a text is the first one that is scanned. -/
theorem scan_lexed {kind : Kind} {raw slice after : List Char} (h : Lexed kind raw slice after)
    (blocks : Blocks) (here : Location) :
    ∃ t blocks' here', t.kind = kind ∧ t.raw = String.ofList raw ∧
      ∀ ts, Token.scan blocks' here' after = .ok ts →
        Token.scan blocks here (slice ++ after) = .ok (t :: ts) := by
  obtain ⟨c, s, rfl, hc⟩ := h.exists_cons
  have read := read_complete h
  refine ⟨Token.ofLexeme blocks here ⟨kind, raw, s.length⟩, blocks.step kind after.head?,
    here.after (c :: s), rfl, rfl, fun ts hts => ?_⟩
  rw [List.cons_append, Token.scan, if_neg (Bool.eq_false_iff.mp hc), read]
  simp only [List.drop_left, List.take_left, hts]

end Lexical

/-- A token of the piece's kind and text. -/
def Piece.Spells (t : Token) (p : Piece) : Prop := t.kind = p.kind ∧ t.raw = p.raw

namespace Piece

/-- The pieces of a text are what is scanned in it. -/
theorem scan_layout {ps : List Piece} (h : ∀ p ∈ ps, p.Valid) (blocks : Blocks)
    (here : Location) :
    ∃ ts stop, Token.scan blocks here (layout ps) = .ok (ts ++ [stop]) ∧ stop.kind = .eof ∧
      List.Forall₂ Spells ts ps := by
  induction ps generalizing blocks here with
  | nil => exact ⟨[], Token.endOfInput here, by rw [layout, Token.scan]; rfl, rfl, .nil⟩
  | cons p ps ih =>
    have hp := h p (by simp)
    have hps : ∀ q ∈ ps, q.Valid := fun q hq => h q (by simp [hq])
    cases ps with
    | nil =>
      obtain ⟨t, blocks', here', hkind, hraw, hscan⟩ :=
        scan_lexed (lexed_of_cut hp .nil) blocks here
      rw [String.ofList_toList] at hraw
      refine ⟨[t], Token.endOfInput here', ?_, rfl, .cons ⟨hkind, hraw⟩ .nil⟩
      exact hscan [Token.endOfInput here'] (by rw [Token.scan])
    | cons q ps =>
      have lexed := lexed_before hp (hps q (by simp))
      obtain ⟨more, htext⟩ : ∃ more, layout (q :: ps) = q.text ++ more := ⟨_, rfl⟩
      obtain ⟨t, blocks', here', hkind, hraw, hscan⟩ := scan_lexed (lexed more) blocks here
      rw [String.ofList_toList] at hraw
      rw [← htext] at hscan
      change ∃ ts stop, Token.scan blocks here (p.text ++ (gap p q ++ layout (q :: ps))) = _ ∧ _
      by_cases hjoined : p.joined q
      · rw [gap, if_pos hjoined, List.nil_append] at hscan ⊢
        obtain ⟨ts, stop, hts, hstop, hall⟩ := ih hps blocks' here'
        exact ⟨t :: ts, stop, hscan _ hts, hstop, .cons ⟨hkind, hraw⟩ hall⟩
      · rw [gap, if_neg hjoined, List.singleton_append] at hscan ⊢
        obtain ⟨ts, stop, hts, hstop, hall⟩ := ih hps blocks' (here'.advance ' ')
        rw [← scan_space] at hts
        exact ⟨t :: ts, stop, hscan _ hts, hstop, .cons ⟨hkind, hraw⟩ hall⟩

end Piece

end SchemaLang
