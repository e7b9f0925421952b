import SchemaLang.Proofs.Contexts

namespace SchemaLang

open Text Lexical

namespace Lexical

section BeforeLineEnd

variable {text : List Char} {d : Char} (hd : d = '\n' ∨ d = '\r') (more : List Char)

theorem starts_lineEnd {p : Char → Bool} (hp : p d = false) (h : starts p text = false) :
    starts p (text ++ d :: more) = false := by
  cases text with
  | nil => exact hp
  | cons c text => exact h

/-- A character that ends a line goes on no token but a comment. -/
structure Apart (d : Char) : Prop where
  digit : d.isDigit = false
  part : isWordPart d = false
  letter : isWordStart d = false
  sign : ∀ entry ∈ Lexeme.spellings, d ∉ entry.1
  underscore : d ≠ '_'
  point : d ≠ '.'
  colon : d ≠ ':'

include hd

theorem apart_of_lineEnd : Apart d := by
  rcases hd with rfl | rfl
  · exact ⟨by decide, by decide, by decide, by decide, by decide, by decide, by decide⟩
  · exact ⟨by decide, by decide, by decide, by decide, by decide, by decide, by decide⟩

theorem digitsGoOn_lineEnd (h : digitsGoOn text = false) :
    digitsGoOn (text ++ d :: more) = false := by
  have apart := apart_of_lineEnd hd
  cases text with
  | nil => simp [digitsGoOn, apart.underscore, apart.digit]
  | cons c text =>
    by_cases hc : c = '_'
    · rw [hc] at h ⊢
      have next : starts Char.isDigit text = false := h
      exact starts_lineEnd more apart.digit next
    · simpa [digitsGoOn, hc] using h

theorem pointGoesOn_lineEnd (h : pointGoesOn text = false) :
    pointGoesOn (text ++ d :: more) = false := by
  have apart := apart_of_lineEnd hd
  cases text with
  | nil => simp [pointGoesOn, apart.point]
  | cons c text =>
    by_cases hc : c = '.'
    · rw [hc] at h ⊢
      have next : starts Char.isDigit text = false := h
      exact starts_lineEnd more apart.digit next
    · simp [pointGoesOn, hc]

theorem pathGoesOn_lineEnd (h : pathGoesOn text = false) :
    pathGoesOn (text ++ d :: more) = false := by
  have apart := apart_of_lineEnd hd
  match text with
  | [] => simp [pathGoesOn, apart.colon]
  | [c] => simp [pathGoesOn, apart.colon]
  | c :: e :: rest =>
    by_cases hc : c = ':' ∧ e = ':'
    · obtain ⟨rfl, rfl⟩ := hc
      have next : starts isWordStart rest = false := h
      exact starts_lineEnd more apart.letter next
    · have other : ∀ after, c :: e :: (rest ++ d :: more) ≠ ':' :: ':' :: after := by
        intro after he
        exact hc ⟨(List.cons.inj he).1, (List.cons.inj (List.cons.inj he).2).1⟩
      exact pathGoesOn.eq_2 _ other

theorem afterLabel_lineEnd (h : afterLabel text) : afterLabel (text ++ d :: more) := by
  have apart := apart_of_lineEnd hd
  simp only [afterLabel, Bool.not_eq_true'] at h ⊢
  exact starts_lineEnd more (by simp [apart.colon, apart.letter]) h

theorem NameEnds.lineEnd (h : NameEnds text) : NameEnds (text ++ d :: more) := by
  have apart := apart_of_lineEnd hd
  refine ⟨starts_lineEnd more apart.part h.word, pathGoesOn_lineEnd hd more h.path, ?_⟩
  intro rest hrest
  cases text with
  | nil => exact absurd (List.cons.inj hrest).1 apart.colon
  | cons c text =>
    obtain ⟨rfl, rfl⟩ := List.cons.inj hrest
    have label := h.label text rfl
    cases text with
    | nil => cases label
    | cons e text => exact label

/-- Signs are spelt on one line. -/
theorem sign_of_lineEnd {kind : Kind} {s : List Char} (hs : s ∈ signs kind)
    (h : s <+: text ++ d :: more) : s <+: text := by
  rcases Nat.le_total s.length text.length with hle | hle
  · exact List.prefix_of_prefix_length_le h (List.prefix_append text _) hle
  · obtain ⟨past, rfl⟩ :=
      List.prefix_of_prefix_length_le (List.prefix_append text (d :: more)) h hle
    cases past with
    | nil => simp
    | cons c past =>
      obtain ⟨after, hafter⟩ := (List.prefix_append_right_inj text).mp h
      have feed : c = d := (List.cons.inj hafter).1
      have apart := (apart_of_lineEnd hd).sign _ (mem_spellings_iff.mpr hs)
      exact absurd (by simp [feed]) apart

/-- A line end after a text is no dot after its tokens. -/
theorem step_lineEnd (blocks : Blocks) (kind : Kind) :
    blocks.step kind (text ++ d :: more).head? = blocks.step kind text.head? := by
  cases text with
  | nil =>
    have apart := apart_of_lineEnd hd
    unfold Blocks.step
    split <;> simp [apart.point]
  | cons c text => rfl

omit hd

/-- A token that ends before a text ends there with a line feed after the text too, and with a
carriage return if it is no comment. -/
theorem Lexed.lineEnd {kind : Kind} {raw slice : List Char} (h : Lexed kind raw slice text)
    (hd : d = '\n' ∨ d = '\r' ∧ kind ≠ .comment) : Lexed kind raw slice (text ++ d :: more) := by
  have ends : d = '\n' ∨ d = '\r' := hd.imp_right And.left
  have apart := apart_of_lineEnd ends
  cases h with
  | symbol hw hstop => exact .symbol hw (starts_lineEnd more apart.part hstop)
  | label hw hlabel => exact .label hw (afterLabel_lineEnd ends more hlabel)
  | path hw hp hstop hgo =>
    exact .path hw hp (starts_lineEnd more apart.part hstop) (pathGoesOn_lineEnd ends more hgo)
  | constant hw hup hname => exact .constant hw hup (hname.lineEnd ends more)
  | name hw hup hname => exact .name hw hup (hname.lineEnd ends more)
  | integer hsign hds hstop hpoint =>
    exact .integer hsign hds (digitsGoOn_lineEnd ends more hstop)
      (pointGoesOn_lineEnd ends more hpoint)
  | float hsign hds hds' hstop => exact .float hsign hds hds' (digitsGoOn_lineEnd ends more hstop)
  | string hq hs => exact .string hq hs
  | comment hs hstop =>
    obtain rfl : d = '\n' := hd.resolve_right fun h => h.2 rfl
    refine .comment hs (.inr ?_)
    cases text with
    | nil => rfl
    | cons c text => exact hstop.resolve_left (List.cons_ne_nil _ _)
  | sign hs hlongest hcolon hminus =>
    refine .sign hs (fun kind' s' hs' hfront => hlongest kind' s' hs' ?_) ?_ ?_
    · rw [← List.append_assoc] at hfront
      exact sign_of_lineEnd ends more hs' hfront
    · exact fun he => starts_lineEnd more apart.letter (hcolon he)
    · exact fun he => starts_lineEnd more apart.digit (hminus he)

end BeforeLineEnd

theorem scan_blank {c : Char} (h : isWhiteSpace c) (blocks : Blocks) (here : Location)
    (text : List Char) :
    Token.scan blocks here (c :: text) = Token.scan blocks (here.advance c) text := by
  rw [Token.scan, if_pos h]

/-- A scan finds the token that is read at the front of a text, and goes on after it. -/
theorem scan_read {c : Char} {rest : List Char} {lexeme : Lexeme} (hsolid : ¬isWhiteSpace c)
    (hread : Lexeme.read c rest = .ok lexeme) (blocks : Blocks) (here : Location) :
    Token.scan blocks here (c :: rest) =
      (Token.scan (blocks.step lexeme.kind (rest.drop lexeme.more).head?)
        (here.after (c :: rest.take lexeme.more)) (rest.drop lexeme.more)).map
        (Token.ofLexeme blocks here lexeme :: ·) := by
  rw [Token.scan, if_neg hsolid, hread]
  dsimp only
  split
  · next e hscan => rw [hscan, Except.map]
  · next ts hscan => rw [hscan, Except.map]

theorem scan_cons {lexeme : Lexeme} {c : Char} {s after : List Char}
    (h : Lexed lexeme.kind lexeme.raw (c :: s) after) (blocks : Blocks) (here : Location) :
    Token.scan blocks here (c :: s ++ after) =
      (Token.scan (blocks.step lexeme.kind after.head?) (here.after (c :: s)) after).map
        (Token.ofLexeme blocks here lexeme :: ·) := by
  obtain ⟨_, _, he, hsolid⟩ := h.exists_cons
  obtain ⟨rfl, rfl⟩ := List.cons.inj he
  have scanned := scan_read (Bool.eq_false_iff.mp hsolid) (read_complete h) blocks here
  rwa [List.drop_left, List.take_left] at scanned

/-- What a scan finds in a text it finds with a line feed after the text, and then it goes on after
the line feed. -/
theorem Scans.lineFeed {blocks : Blocks} {here : Location} {text : List Char} {ts : List Token}
    (h : Scans blocks here text ts) (more : List Char) :
    ∃ front blocks', ts = front ++ [Token.endOfInput (here.after text)] ∧
      Token.scan blocks here (text ++ '\n' :: more) =
        (Token.scan blocks' ((here.after text).advance '\n') more).map (front ++ ·) := by
  induction h with
  | @stop blocks here =>
    refine ⟨[], blocks, rfl, ?_⟩
    rw [List.nil_append, scan_blank (by decide), Location.after_nil]
    cases Token.scan blocks (here.advance '\n') more <;> rfl
  | @space blocks here c text ts hblank _ ih =>
    obtain ⟨front, blocks', hts, hscan⟩ := ih
    exact ⟨front, blocks', hts, (scan_blank hblank blocks here _).trans hscan⟩
  | @token blocks here lexeme c s after ts hlexed _ ih =>
    obtain ⟨front, blocks', rfl, hscan⟩ := ih
    refine ⟨Token.ofLexeme blocks here lexeme :: front, blocks', ?_, ?_⟩
    · rw [Location.after_append, List.cons_append]
    · rw [List.append_assoc, scan_cons (hlexed.lineEnd more (.inl rfl)), step_lineEnd (.inl rfl),
        hscan, Location.after_append]
      cases Token.scan blocks' (((here.after (c :: s)).after after).advance '\n') more <;> rfl

end Lexical

/-- The place some lines further down. -/
def Location.below (here : Location) (n : Nat) : Location := ⟨here.line + n, here.column⟩

namespace Location

theorem below_advance (here : Location) (n : Nat) (c : Char) :
    (here.below n).advance c = (here.advance c).below n := by
  unfold advance below
  split
  · simp only [Nat.add_right_comm]
  · rfl

theorem below_after (here : Location) (n : Nat) (text : List Char) :
    (here.below n).after text = (here.after text).below n := by
  induction text generalizing here with
  | nil => rfl
  | cons c text ih => rw [after_cons, after_cons, below_advance, ih]

/-- The place after a text and a line feed is the start, as many lines further down as that has
line feeds. -/
theorem start_below (text : List Char) :
    (start.after text).advance '\n' = start.below (1 + text.count '\n') := by
  have counted : start.after text = place text := after_place [] text
  rw [counted, ← place_concat]
  simp only [place, below, start, List.count_append, List.reverse_append]
  simp [Nat.add_comm]

end Location

/-- Of one kind and one text, the second token some lines further down. -/
structure Token.Below (n : Nat) (t u : Token) : Prop where
  kind : u.kind = t.kind
  raw : u.raw = t.raw
  location : u.location = t.location.below n

/-- Two scans that find the same, or stop for the same flaw, the second some lines further down. -/
inductive ScanBelow (n : Nat) : Except ScanError (List Token) → Except ScanError (List Token) → Prop
  | ok {ts us : List Token} : List.Forall₂ (Token.Below n) ts us → ScanBelow n (.ok ts) (.ok us)
  | error {here : Location} {flaw : Flaw} :
    ScanBelow n (.error ⟨here, flaw⟩) (.error ⟨here.below n, flaw⟩)

theorem ScanBelow.cons {n : Nat} {t u : Token} {found below : Except ScanError (List Token)}
    (h : t.Below n u) (hmore : ScanBelow n found below) :
    ScanBelow n (found.map (t :: ·)) (below.map (u :: ·)) := by
  cases hmore with
  | ok hall => exact .ok (.cons h hall)
  | error => exact .error

/-- A text is scanned alike on every line and inside all blocks, contexts apart. -/
theorem scan_below (n : Nat) (blocks blocks' : Blocks) (here : Location) (text : List Char) :
    ScanBelow n (Token.scan blocks here text) (Token.scan blocks' (here.below n) text) := by
  fun_induction Token.scan blocks here text generalizing blocks' with
  | case1 blocks here =>
    rw [Token.scan]
    exact .ok (.cons ⟨rfl, rfl, rfl⟩ .nil)
  | case2 blocks here c rest hblank ih =>
    rw [scan_blank hblank, Location.below_advance]
    exact ih blocks'
  | case3 blocks here c rest hsolid flaw hread =>
    rw [Token.scan, if_neg hsolid, hread]
    exact .error
  | case4 blocks here c rest hsolid lexeme hread after inner e hscan ih =>
    have next := (ih (blocks'.step lexeme.kind after.head?)).cons
      (t := Token.ofLexeme blocks here lexeme)
      (u := Token.ofLexeme blocks' (here.below n) lexeme) ⟨rfl, rfl, rfl⟩
    rw [scan_read hsolid hread, Location.below_after]
    rwa [hscan] at next
  | case5 blocks here c rest hsolid lexeme hread after inner ts hscan ih =>
    have next := (ih (blocks'.step lexeme.kind after.head?)).cons
      (t := Token.ofLexeme blocks here lexeme)
      (u := Token.ofLexeme blocks' (here.below n) lexeme) ⟨rfl, rfl, rfl⟩
    rw [scan_read hsolid hread, Location.below_after]
    rwa [hscan] at next

/-- Scanning is compositional across a line break. Where a text is scanned, a line feed and another
text after it change none of its tokens, and the other text gives what it gives alone, its tokens
or its flaw, as many lines further down as it now stands. -/
theorem ofText_lineBreak {a b : String} {ta : List Token} {stop : Token}
    (h : Token.ofText a = .ok (ta ++ [stop])) :
    (∀ tb, Token.ofText b = .ok tb →
      ∃ low, Token.ofText (a ++ "\n" ++ b) = .ok (ta ++ low) ∧
        List.Forall₂ (Token.Below (1 + a.toList.count '\n')) tb low) ∧
    ∀ e, Token.ofText b = .error e →
      Token.ofText (a ++ "\n" ++ b) =
        .error ⟨e.location.below (1 + a.toList.count '\n'), e.flaw⟩ := by
  obtain ⟨front, blocks, hfront, hscan⟩ := (scans_of_scan h).lineFeed b.toList
  obtain ⟨rfl, -⟩ := List.append_inj' hfront rfl
  rw [Location.start_below] at hscan
  have text : (a ++ "\n" ++ b).toList = a.toList ++ '\n' :: b.toList := by simp
  have whole := congrArg (Token.scan .outside .start) text
  have low := scan_below (1 + a.toList.count '\n') .outside blocks .start b.toList
  constructor
  · intro tb hb
    rw [← Token.ofText, hb] at low
    generalize Token.scan blocks _ b.toList = found at low hscan
    cases low with
    | ok hall => exact ⟨_, whole.trans hscan, hall⟩
  · intro e hb
    rw [← Token.ofText, hb] at low
    generalize Token.scan blocks _ b.toList = found at low hscan
    cases low with
    | error => exact whole.trans hscan

/-- A point that ends a line and one that starts the next make no range, and a flaw after a line
feed of its own is two lines further down. -/
theorem ofText_lineBreak_between_points :
    Token.ofText "a:\n1." = .ok ([⟨.label, "a", ⟨1, 1⟩, none⟩, ⟨.integer, "1", ⟨2, 1⟩, none⟩,
      ⟨.mark .dot, ".", ⟨2, 2⟩, none⟩] ++ [⟨.eof, "", ⟨2, 3⟩, none⟩]) ∧
    (∃ low, Token.ofText ("a:\n1." ++ "\n" ++ ".5") = .ok ([⟨.label, "a", ⟨1, 1⟩, none⟩,
        ⟨.integer, "1", ⟨2, 1⟩, none⟩, ⟨.mark .dot, ".", ⟨2, 2⟩, none⟩] ++ low) ∧
      List.Forall₂ (Token.Below 2) [⟨.mark .dot, ".", ⟨1, 1⟩, none⟩,
        ⟨.integer, "5", ⟨1, 2⟩, none⟩, ⟨.eof, "", ⟨1, 3⟩, none⟩] low) ∧
    Token.ofText ("a:\n1." ++ "\n" ++ "\n 'b") = .error ⟨⟨4, 2⟩, .unterminatedString⟩ := by
  have scanned : Token.ofText "a:\n1." = .ok ([⟨.label, "a", ⟨1, 1⟩, none⟩,
      ⟨.integer, "1", ⟨2, 1⟩, none⟩, ⟨.mark .dot, ".", ⟨2, 2⟩, none⟩] ++
      [⟨.eof, "", ⟨2, 3⟩, none⟩]) := by decide +kernel
  have point : Token.ofText ".5" = .ok [⟨.mark .dot, ".", ⟨1, 1⟩, none⟩,
      ⟨.integer, "5", ⟨1, 2⟩, none⟩, ⟨.eof, "", ⟨1, 3⟩, none⟩] := by decide +kernel
  have unclosed : Token.ofText "\n 'b" = .error ⟨⟨2, 2⟩, .unterminatedString⟩ := by decide +kernel
  have feeds : "a:\n1.".toList.count '\n' = 1 := by decide
  have goesOn := (ofText_lineBreak scanned).1 _ point
  have stops := (ofText_lineBreak scanned).2 _ unclosed
  rw [feeds] at goesOn stops
  exact ⟨scanned, goesOn, stops⟩

end SchemaLang
