import SchemaLang.Proofs.Agreement.Basic
import SchemaLang.Proofs.Lexical.LineBreak
import SchemaLang.Proofs.Lexical.Trimming

namespace SchemaLang

open Text Lexical

/-- How a token of a kind and a text is written: with its colon, its quotes or its hash sign, where
it has one. -/
def Kind.written (kind : Kind) (raw : String) : String :=
  match kind with
  | .symbol => ":" ++ raw
  | .label => raw ++ ":"
  | .string => "\"" ++ String.ofList (raw.toList.flatMap Piece.escaped) ++ "\""
  | .comment => "# " ++ raw
  | _ => raw

def Token.written (token : Token) : String := token.kind.written token.raw

/-- Tokens one below the other, the one for the end left out. -/
def Token.listing (tokens : List Token) : String :=
  "\n".intercalate ((tokens.filter (·.kind ≠ .eof)).map written)

namespace Lexical

/-- A kind that is written as its text stands. -/
def Verbatim (kind : Kind) : Prop :=
  kind ≠ .symbol ∧ kind ≠ .label ∧ kind ≠ .string ∧ kind ≠ .comment

instance (kind : Kind) : Decidable (Verbatim kind) := inferInstanceAs (Decidable (_ ∧ _))

theorem written_of_verbatim {kind : Kind} (h : Verbatim kind) (raw : String) :
    kind.written raw = raw := by
  obtain ⟨symbol, label, string, comment⟩ := h
  unfold Kind.written
  split
  · exact absurd rfl symbol
  · exact absurd rfl label
  · exact absurd rfl string
  · exact absurd rfl comment
  · rfl

theorem verbatim_of_sign {kind : Kind} {s : List Char} (h : s ∈ signs kind) : Verbatim kind := by
  have table : ∀ entry ∈ Lexeme.spellings, Verbatim entry.2 := by decide
  exact table _ (mem_spellings_iff.mpr h)

/-- A token that stands in some text is also spelt as it is written, when nothing follows. -/
theorem Lexed.written {kind : Kind} {raw slice rest : List Char} (h : Lexed kind raw slice rest) :
    Lexed kind raw (kind.written (String.ofList raw)).toList [] := by
  have ends : NameEnds [] := ⟨rfl, rfl, by simp⟩
  have verbatim {kind : Kind} {raw : List Char} (hkind : Verbatim kind)
      (hlexed : Lexed kind raw raw []) :
      Lexed kind raw (kind.written (String.ofList raw)).toList [] := by
    rwa [written_of_verbatim hkind, String.toList_ofList]
  cases h with
  | symbol hw _ => simpa [Kind.written] using Lexed.symbol hw rfl
  | label hw _ => simpa [Kind.written] using Lexed.label hw rfl
  | path hw hp _ _ => exact verbatim (by decide) (.path hw hp rfl rfl)
  | constant hw hup _ => exact verbatim (by decide) (.constant hw hup ends)
  | name hw hup _ =>
    exact verbatim (reserved_induction (by decide) (by decide) _) (.name hw hup ends)
  | integer hsign hds _ _ => exact verbatim (by decide) (.integer hsign hds rfl rfl)
  | float hsign hds hds' _ => exact verbatim (by decide) (.float hsign hds hds' rfl)
  | string _ _ => simpa [Kind.written] using Lexed.string (.inl rfl) (body_escaped raw)
  | @comment s _ hs _ =>
    have line : '\n' ∉ ' ' :: trim s := by simpa using fun hmem => hs (mem_of_mem_trim hmem)
    have lexed := Lexed.comment line (.inl rfl : [] = [] ∨ _)
    rw [trim_space, trim_trim] at lexed
    simpa [Kind.written] using lexed
  | sign hs _ _ _ =>
    have longest : ∀ kind', ∀ s' ∈ signs kind', s' <+: raw ++ [] → s'.length ≤ raw.length := by
      intro kind' s' _ hfront
      rw [List.append_nil] at hfront
      exact hfront.length_le
    exact verbatim (verbatim_of_sign hs) (.sign hs longest (fun _ => rfl) fun _ => rfl)

/-- A scan finds tokens that are spelt in the text, and then its end. -/
theorem Scans.lexed {blocks : Blocks} {here : Location} {text : List Char} {ts : List Token}
    (h : Scans blocks here text ts) :
    ∃ front stop, ts = front ++ [stop] ∧ stop.kind = .eof ∧ stop.raw = "" ∧
      ∀ t ∈ front, ∃ slice rest, Lexed t.kind t.raw.toList slice rest := by
  induction h with
  | stop => exact ⟨[], _, rfl, rfl, rfl, by simp⟩
  | space _ _ ih => exact ih
  | token hlexed _ ih =>
    obtain ⟨front, stop, rfl, hkind, hraw, hfront⟩ := ih
    refine ⟨_ :: front, stop, rfl, hkind, hraw, List.forall_mem_cons.mpr ⟨?_, hfront⟩⟩
    exact ⟨_, _, by simpa [Token.ofLexeme] using hlexed⟩

/-- Tokens that are written one below the other are what is scanned. -/
theorem scan_lines {ts : List Token} (h : ∀ t ∈ ts, Lexed t.kind t.raw.toList t.written.toList [])
    (blocks : Blocks) (here : Location) :
    ∃ us here', Token.scan blocks here (['\n'].intercalate (ts.map (·.written.toList))) =
        .ok (us ++ [Token.endOfInput here']) ∧ List.Forall₂ Token.Alike ts us := by
  induction ts generalizing blocks here with
  | nil =>
    refine ⟨[], here, ?_, .nil⟩
    rw [List.map_nil, List.intercalate_nil, Token.scan, List.nil_append]
  | cons t ts ih =>
    have ht := h t (List.mem_cons_self ..)
    have hts := fun u hu => h u (List.mem_cons_of_mem t hu)
    cases ts with
    | nil =>
      obtain ⟨u, blocks', here', hkind, hraw, hscan⟩ := scan_lexed ht blocks here
      rw [String.ofList_toList] at hraw
      have ended := hscan [Token.endOfInput here'] (by rw [Token.scan])
      rw [List.append_nil] at ended
      rw [List.map_singleton, List.intercalate_singleton]
      exact ⟨[u], here', ended, .cons ⟨hkind.symm, hraw.symm⟩ .nil⟩
    | cons t' ts =>
      obtain ⟨u, blocks', here', hkind, hraw, hscan⟩ :=
        scan_lexed (ht.lineEnd _ (.inl rfl)) blocks here
      rw [String.ofList_toList] at hraw
      obtain ⟨us, place, hus, hall⟩ := ih hts blocks' (here'.advance '\n')
      refine ⟨u :: us, place, ?_, .cons ⟨hkind.symm, hraw.symm⟩ hall⟩
      rw [← scan_blank (by decide)] at hus
      rw [List.map_cons, List.map_cons, List.intercalate_cons_cons, List.append_assoc]
      exact hscan _ hus

/-- A line feed after a text adds no token. -/
theorem scan_lineFeed {text : List Char} {us : List Token} {stop : Token}
    (h : Token.scan .outside .start text = .ok (us ++ [stop])) :
    ∃ here, Token.scan .outside .start (text ++ ['\n']) = .ok (us ++ [Token.endOfInput here]) := by
  obtain ⟨front, blocks, hfront, hscan⟩ := (scans_of_scan h).lineFeed []
  obtain ⟨rfl, -⟩ := List.append_inj' hfront rfl
  rw [Token.scan] at hscan
  exact ⟨_, hscan⟩

end Lexical

/-- Tokens that come from a text are scanned again from their listing, with or without a line feed
after its last line: they have the same kinds and texts, in the same order, and then the end. -/
theorem ofText_listing {text : String} {ts : List Token} (h : Token.ofText text = .ok ts)
    {last : String} (hlast : last = "" ∨ last = "\n") :
    ∃ us stop, Token.ofText (Token.listing ts ++ last) = .ok (us ++ [stop]) ∧
      stop.kind = .eof ∧ List.Forall₂ Token.Alike ts (us ++ [stop]) := by
  obtain ⟨front, stop, rfl, hkind, hraw, hfront⟩ := (scans_of_scan h).lexed
  have kept : (front ++ [stop]).filter (·.kind ≠ .eof) = front := by
    have solid : ∀ t ∈ front, t.kind ≠ .eof := fun t ht =>
      have ⟨_, _, hlexed⟩ := hfront t ht
      hlexed.kind_ne_eof
    rw [List.filter_append, List.filter_eq_self.mpr (by simpa using solid)]
    simp [hkind]
  have written : ∀ t ∈ front, Lexed t.kind t.raw.toList t.written.toList [] := by
    intro t ht
    obtain ⟨slice, rest, hlexed⟩ := hfront t ht
    simpa [Token.written] using hlexed.written
  obtain ⟨us, place, hscan, hall⟩ := scan_lines written .outside .start
  have lines : (Token.listing (front ++ [stop])).toList =
      ['\n'].intercalate (front.map (·.written.toList)) := by
    rw [Token.listing, kept, String.toList_intercalate, List.map_map]
    rfl
  have alike (here : Location) : stop.Alike (Token.endOfInput here) := ⟨hkind, hraw⟩
  have scanned : ∃ here,
      Token.ofText (Token.listing (front ++ [stop]) ++ last) =
        .ok (us ++ [Token.endOfInput here]) := by
    rw [Token.ofText, String.toList_append, lines]
    rcases hlast with rfl | rfl
    · rw [String.toList_empty, List.append_nil]
      exact ⟨place, hscan⟩
    · exact scan_lineFeed hscan
  obtain ⟨here, hlisting⟩ := scanned
  exact ⟨us, Token.endOfInput here, hlisting, rfl,
    List.rel_append hall (.cons (alike here) .nil)⟩

/-- Tokens of many sorts, with no more between them than they need. -/
def Token.crowded : List Token := [
  ⟨.label, "end", ⟨1, 1⟩, none⟩, ⟨.constant, "a::b", ⟨1, 6⟩, none⟩,
  ⟨.integer, "1_0", ⟨1, 11⟩, none⟩, ⟨.string, "x\\q\"\n", ⟨1, 15⟩, none⟩,
  ⟨.operator .and, "&&", ⟨2, 3⟩, none⟩, ⟨.float, "-2.5", ⟨2, 5⟩, none⟩,
  ⟨.comment, "note", ⟨2, 9⟩, none⟩, ⟨.symbol, "on", ⟨3, 1⟩, none⟩, ⟨.eof, "", ⟨3, 4⟩, none⟩]

theorem ofText_listing_crowded :
    Token.ofText "end: a::b 1_0 'x\\q\"\n' &&-2.5#  note \n:on" = .ok Token.crowded ∧
    Token.listing Token.crowded =
      "end:\na::b\n1_0\n\"x\\\\q\\\"\n\"\n&&\n-2.5\n# note\n:on" ∧
    ∃ us stop, Token.ofText (Token.listing Token.crowded ++ "\n") = .ok (us ++ [stop]) ∧
      stop.kind = .eof ∧ List.Forall₂ Token.Alike Token.crowded (us ++ [stop]) := by
  have scanned : Token.ofText "end: a::b 1_0 'x\\q\"\n' &&-2.5#  note \n:on" =
      .ok Token.crowded := by decide +kernel
  exact ⟨scanned, by decide +kernel, ofText_listing scanned (.inr rfl)⟩

end SchemaLang
