import Mathlib.Data.List.Forall2
import SchemaLang.Proofs.Lexical.Read
import SchemaLang.Token.Scan

namespace SchemaLang.Lexical

open Text

/-- The place after a text, by counting: line feeds give the line, and the characters after the
last of them the column. -/
def place (before : List Char) : Location where
  line := 1 + before.count '\n'
  column := 1 + (before.reverse.takeWhile (· ≠ '\n')).length

theorem place_concat (before : List Char) (c : Char) :
    place (before ++ [c]) = (place before).advance c := by
  by_cases h : c = '\n'
  · simp [place, Location.advance, h, Nat.add_assoc]
  · have other : c ≠ '\n' := h
    simp [place, Location.advance, h, Nat.add_comm]

/-- Walking through a text counts its lines and columns. -/
theorem after_place (before text : List Char) :
    (place before).after text = place (before ++ text) := by
  induction text generalizing before with
  | nil => simp
  | cons c text ih =>
    rw [Location.after_cons, ← place_concat, ih, List.append_assoc]
    rfl

/-- A run of characters in a text, by the number of those before it and of those up to its end. -/
structure Span where
  start : Nat
  stop : Nat

namespace Span

def slice (span : Span) (text : List Char) : List Char :=
  (text.drop span.start).take (span.stop - span.start)

def Holds (span : Span) (i : Nat) : Prop := span.start ≤ i ∧ i < span.stop

end Span

/-- A token lies on a span of a text: it stands where counting says, it is spelt there and does not
go on. The token for the end lies on the empty span at the end. -/
inductive Placed (text : List Char) : Token → Span → Prop
  | token {t : Token} {span : Span} : t.kind ≠ .eof → span.start < span.stop →
    span.stop ≤ text.length → t.location = place (text.take span.start) →
    Lexed t.kind t.raw.toList (span.slice text) (text.drop span.stop) → Placed text t span
  | stop {t : Token} : t.kind = .eof → t.raw = "" → t.location = place text →
    Placed text t ⟨text.length, text.length⟩

/-- Tokens tile a text from a place on: they lie on spans of it, one after the other, only white
space lies outside those, and the last token and no other is the one for the end. -/
structure Tiling (text : List Char) (first : Nat) (tokens : List Token) (spans : List Span) :
    Prop where
  placed : List.Forall₂ (Placed text) tokens spans
  ordered : spans.Pairwise fun a b => a.stop ≤ b.start
  inside : ∀ span ∈ spans, first ≤ span.start
  blank : ∀ i c, first ≤ i → text[i]? = some c → (∀ span ∈ spans, ¬span.Holds i) → isWhiteSpace c
  ended : ∃ init last, tokens = init ++ [last] ∧ last.kind = .eof ∧ ∀ t ∈ init, t.kind ≠ .eof

namespace Tiling

variable {text : List Char} {tokens : List Token} {spans : List Span}

theorem stop (text : List Char) :
    Tiling text text.length [Token.endOfInput (place text)] [⟨text.length, text.length⟩] where
  placed := .cons (.stop rfl rfl rfl) .nil
  ordered := List.pairwise_singleton _ _
  inside := by simp
  blank i c hi hc := by
    have none := List.getElem?_eq_none hi
    rw [none] at hc
    cases hc
  ended := ⟨[], _, rfl, rfl, by simp⟩

theorem skip {n : Nat} {c : Char} (hc : text[n]? = some c) (hblank : isWhiteSpace c)
    (h : Tiling text (n + 1) tokens spans) : Tiling text n tokens spans where
  placed := h.placed
  ordered := h.ordered
  inside span hs := Nat.le_of_succ_le (h.inside span hs)
  blank i d hi hd hout := by
    rcases Nat.eq_or_lt_of_le hi with rfl | hlt
    · cases hc.symm.trans hd
      exact hblank
    · exact h.blank i d hlt hd hout
  ended := h.ended

theorem cons {n m : Nat} {t : Token} (hkind : t.kind ≠ .eof) (hlt : n < m)
    (ht : Placed text t ⟨n, m⟩)
    (h : Tiling text m tokens spans) : Tiling text n (t :: tokens) (⟨n, m⟩ :: spans) where
  placed := .cons ht h.placed
  ordered := List.pairwise_cons.mpr ⟨fun span hs => h.inside span hs, h.ordered⟩
  inside := by
    intro span hs
    rcases List.mem_cons.mp hs with rfl | hs
    · exact Nat.le_refl n
    · exact Nat.le_trans (Nat.le_of_lt hlt) (h.inside span hs)
  blank i c hi hc hout := by
    have past : m ≤ i := by
      apply Nat.not_lt.mp
      intro him
      exact hout ⟨n, m⟩ (List.mem_cons_self ..) ⟨hi, him⟩
    exact h.blank i c past hc fun span hs => hout span (List.mem_cons_of_mem _ hs)
  ended := by
    obtain ⟨init, last, rfl, hlast, hinit⟩ := h.ended
    refine ⟨t :: init, last, rfl, hlast, ?_⟩
    intro u hu
    rcases List.mem_cons.mp hu with rfl | hu
    · exact hkind
    · exact hinit u hu

end Tiling

/-- Only the end of a text gives the token for the end. -/
theorem Lexed.kind_ne_eof {kind : Kind} {raw s rest : List Char} (h : Lexed kind raw s rest) :
    kind ≠ .eof := by
  cases h with
  | name _ _ _ => exact reserved_induction (p := (· ≠ .eof)) (by decide) (by decide) _
  | @sign kind s rest hs _ _ _ =>
    intro he
    rw [he] at hs
    cases hs
  | _ => simp

/-- A lexeme that is spelt between two parts of a text lies on the span between them. -/
theorem placed_of_lexed {before s after : List Char} {lexeme : Lexeme} {c : Char} (blocks : Blocks)
    (h : Lexed lexeme.kind lexeme.raw (c :: s) after) :
    Placed (before ++ c :: s ++ after) (Token.ofLexeme blocks (place before) lexeme)
      ⟨before.length, (before ++ c :: s).length⟩ := by
  have slice : Span.slice ⟨before.length, (before ++ c :: s).length⟩ (before ++ c :: s ++ after) =
      c :: s := by
    rw [Span.slice, List.append_assoc, List.drop_left, List.length_append, Nat.add_sub_cancel_left,
      List.take_left]
  refine .token h.kind_ne_eof (by simp) (by simp) ?_ ?_
  · rw [List.append_assoc, List.take_left]
    rfl
  · rw [slice, List.drop_left]
    simpa [Token.ofLexeme] using h

/-- What one scan finds tiles the text, when the scan starts at the place that counting gives. -/
theorem scan_tiles {blocks : Blocks} {before rest : List Char} {tokens : List Token}
    (h : Token.scan blocks (place before) rest = .ok tokens) :
    ∃ spans, Tiling (before ++ rest) before.length tokens spans := by
  induction hn : rest.length using Nat.strongRecOn generalizing blocks before rest tokens with
  | ind n ih =>
    cases rest with
    | nil =>
      rw [Token.scan] at h
      cases h
      refine ⟨[⟨before.length, before.length⟩], ?_⟩
      rw [List.append_nil]
      exact Tiling.stop before
    | cons c rest =>
      rw [Token.scan] at h
      split at h
      · next hblank =>
        rw [← place_concat] at h
        obtain ⟨spans, htiles⟩ := ih rest.length (by simp at hn; omega) h rfl
        refine ⟨spans, Tiling.skip (by simp) hblank ?_⟩
        simpa using htiles
      · split at h
        · cases h
        · next lexeme hread =>
          obtain ⟨s, after, rfl, hmore, hlexed⟩ := read_sound hread
          rw [hmore, List.drop_left, List.take_left, after_place] at h
          dsimp only at h
          split at h
          · cases h
          · next more hscan =>
            cases h
            obtain ⟨spans, htiles⟩ := ih after.length (by simp at hn; omega) hscan rfl
            have text : before ++ c :: (s ++ after) = before ++ c :: s ++ after := by simp
            rw [text]
            refine ⟨_, Tiling.cons hlexed.kind_ne_eof ?_ ?_ htiles⟩
            · simp
            · exact placed_of_lexed blocks hlexed

/-- The tokens of a text tile it. -/
theorem ofText_tiles {text : String} {tokens : List Token} (h : Token.ofText text = .ok tokens) :
    ∃ spans, Tiling text.toList 0 tokens spans := by
  have tiles : ∃ spans, Tiling ([] ++ text.toList) [].length tokens spans := scan_tiles h
  simpa using tiles

/-- A text with every way to spell a token in it, a known and an unknown escape among them. -/
def everySpelling : String :=
  "on Rates::Vat, due: 'a\\n\\q\\'' \"\\t\\r\\\\\\\"\n\" # tax \n" ++
    "float :x Big 1_000 -2.5 true and not_é\n" ++
    " +-*/%**==!=><>=<=&|&&||()[]\x7b\x7d,...=>..: ."

def everySpellingTokens : List Token := [
  ⟨.keyword .on, "on", ⟨1, 1⟩, none⟩, ⟨.constant, "Rates::Vat", ⟨1, 4⟩, none⟩,
  ⟨.mark .comma, ",", ⟨1, 14⟩, none⟩, ⟨.label, "due", ⟨1, 16⟩, none⟩,
  ⟨.string, "a\n\\q'", ⟨1, 21⟩, none⟩, ⟨.string, "\t\r\\\"\n", ⟨1, 31⟩, none⟩,
  ⟨.comment, "tax", ⟨2, 3⟩, none⟩, ⟨.type (.primitive .float), "float", ⟨3, 1⟩, none⟩,
  ⟨.symbol, "x", ⟨3, 7⟩, none⟩, ⟨.constant, "Big", ⟨3, 10⟩, none⟩,
  ⟨.integer, "1_000", ⟨3, 14⟩, none⟩, ⟨.float, "-2.5", ⟨3, 20⟩, none⟩,
  ⟨.boolean, "true", ⟨3, 25⟩, none⟩, ⟨.operator .and, "and", ⟨3, 30⟩, none⟩,
  ⟨.identifier, "not_é", ⟨3, 34⟩, none⟩, ⟨.operator .add, "+", ⟨4, 2⟩, none⟩,
  ⟨.operator .subtract, "-", ⟨4, 3⟩, none⟩, ⟨.operator .multiply, "*", ⟨4, 4⟩, none⟩,
  ⟨.operator .divide, "/", ⟨4, 5⟩, none⟩, ⟨.operator .modulo, "%", ⟨4, 6⟩, none⟩,
  ⟨.operator .exponent, "**", ⟨4, 7⟩, none⟩, ⟨.operator .eq, "==", ⟨4, 9⟩, none⟩,
  ⟨.operator .ne, "!=", ⟨4, 11⟩, none⟩, ⟨.operator .gt, ">", ⟨4, 13⟩, none⟩,
  ⟨.operator .lt, "<", ⟨4, 14⟩, none⟩, ⟨.operator .ge, ">=", ⟨4, 15⟩, none⟩,
  ⟨.operator .le, "<=", ⟨4, 17⟩, none⟩, ⟨.operator .and, "&", ⟨4, 19⟩, none⟩,
  ⟨.operator .or, "|", ⟨4, 20⟩, none⟩, ⟨.operator .and, "&&", ⟨4, 21⟩, none⟩,
  ⟨.operator .or, "||", ⟨4, 23⟩, none⟩, ⟨.mark .leftParen, "(", ⟨4, 25⟩, none⟩,
  ⟨.mark .rightParen, ")", ⟨4, 26⟩, none⟩, ⟨.mark .leftBracket, "[", ⟨4, 27⟩, none⟩,
  ⟨.mark .rightBracket, "]", ⟨4, 28⟩, none⟩, ⟨.mark .leftBrace, "\x7b", ⟨4, 29⟩, none⟩,
  ⟨.mark .rightBrace, "\x7d", ⟨4, 30⟩, none⟩, ⟨.mark .comma, ",", ⟨4, 31⟩, none⟩,
  ⟨.mark .dotDotDot, "...", ⟨4, 32⟩, none⟩, ⟨.mark .arrow, "=>", ⟨4, 35⟩, none⟩,
  ⟨.mark .dotDot, "..", ⟨4, 37⟩, none⟩, ⟨.mark .colon, ":", ⟨4, 39⟩, none⟩,
  ⟨.mark .dot, ".", ⟨4, 41⟩, none⟩, ⟨.eof, "", ⟨4, 42⟩, none⟩]

theorem everySpelling_tiled : Token.ofText everySpelling = .ok everySpellingTokens ∧
    ∃ spans, Tiling everySpelling.toList 0 everySpellingTokens spans := by
  have scanned : Token.ofText everySpelling = .ok everySpellingTokens := by decide +kernel
  exact ⟨scanned, ofText_tiles scanned⟩

end SchemaLang.Lexical
