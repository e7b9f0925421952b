import Mathlib.Data.List.Chain
import SchemaLang.Proofs.RefusedPlace

namespace SchemaLang

open Text Lexical

/-- The marks that start with a dot. -/
def Kind.dots : List Kind := [.mark .dot, .mark .dotDot, .mark .dotDotDot]

namespace Lexical

/-- The marks that start with a dot, and no other tokens, are spelt with a dot first. -/
theorem Lexed.dot_iff {kind : Kind} {raw s rest : List Char} {c : Char}
    (h : Lexed kind raw (c :: s) rest) : c = '.' ↔ kind ∈ Kind.dots := by
  have apart {kind : Kind} {d : Char} (hd : d ≠ '.') (hkind : kind ∉ Kind.dots) :
      d = '.' ↔ kind ∈ Kind.dots := ⟨fun he => absurd he hd, fun hk => absurd hk hkind⟩
  have word {w more : List Char} (hw : Word w) (he : c :: s = w ++ more) : c ≠ '.' := by
    obtain ⟨hd, _⟩ := hw
    rw [(List.cons.inj he).1]
    intro hdot
    rw [hdot] at hd
    exact absurd hd (by decide)
  have number {sign ds more : List Char} (hsign : sign = [] ∨ sign = ['-']) (hds : Digits ds)
      (he : c :: s = sign ++ ds ++ more) : c ≠ '.' := by
    obtain ⟨d, ds, rfl, hd⟩ := hds.exists_cons
    rcases hsign with rfl | rfl
    · rw [(List.cons.inj he).1]
      intro hdot
      rw [hdot] at hd
      exact absurd hd (by decide)
    · rw [(List.cons.inj he).1]
      decide
  have spelt : ∀ entry ∈ Lexeme.spellings,
      (entry.1.head? = some '.' ↔ entry.2 ∈ Kind.dots) := by decide
  generalize hslice : c :: s = slice at h
  cases h with
  | symbol _ _ => exact apart (by rw [(List.cons.inj hslice).1]; decide) (by decide)
  | label hw _ => exact apart (word hw hslice) (by decide)
  | path hw _ _ _ => exact apart (word hw hslice) (by decide)
  | constant hw _ _ => exact apart (word hw (hslice.trans (List.append_nil _).symm)) (by decide)
  | name hw _ _ =>
    refine apart (word hw (hslice.trans (List.append_nil _).symm)) ?_
    exact reserved_induction (p := (· ∉ Kind.dots)) (by decide) (by decide) _
  | integer hsign hds _ _ =>
    exact apart (number hsign hds (hslice.trans (List.append_nil _).symm)) (by decide)
  | float hsign hds _ _ => exact apart (number hsign hds hslice) (by decide)
  | string hq _ =>
    rw [(List.cons.inj hslice).1]
    rcases hq with rfl | rfl <;> exact apart (by decide) (by decide)
  | comment _ _ => exact apart (by rw [(List.cons.inj hslice).1]; decide) (by decide)
  | sign hs _ _ _ =>
    rw [← hslice] at hs
    have first := spelt _ (mem_spellings_iff.mpr hs)
    rwa [List.head?_cons, Option.some.injEq] at first

/-- The word `input` is taken as it is written. -/
theorem Lexed.raw_of_input {raw slice rest : List Char}
    (h : Lexed (.keyword .input) raw slice rest) : raw = slice := by
  generalize hkind : Kind.keyword .input = kind at h
  cases h with
  | name _ _ _ => rfl
  | sign _ _ _ _ => rfl
  | _ => cases hkind

/-- What a scan finds in a text that starts at a place inside some blocks. -/
inductive Scans : Blocks → Location → List Char → List Token → Prop
  | stop {blocks : Blocks} {here : Location} : Scans blocks here [] [Token.endOfInput here]
  | space {blocks : Blocks} {here : Location} {c : Char} {text : List Char} {ts : List Token} :
    isWhiteSpace c → Scans blocks (here.advance c) text ts → Scans blocks here (c :: text) ts
  | token {blocks : Blocks} {here : Location} {lexeme : Lexeme} {c : Char} {s after : List Char}
    {ts : List Token} : Lexed lexeme.kind lexeme.raw (c :: s) after →
    Scans (blocks.step lexeme.kind after.head?) (here.after (c :: s)) after ts →
    Scans blocks here (c :: s ++ after) (Token.ofLexeme blocks here lexeme :: ts)

theorem scans_of_scan {blocks : Blocks} {here : Location} {text : List Char} {ts : List Token}
    (h : Token.scan blocks here text = .ok ts) : Scans blocks here text ts := by
  induction hn : text.length using Nat.strongRecOn generalizing blocks here text ts with
  | ind n ih =>
    cases text with
    | nil =>
      rw [Token.scan] at h
      cases h
      exact .stop
    | cons c rest =>
      rw [Token.scan] at h
      split at h
      · next hblank => exact .space hblank (ih rest.length (by simp at hn; omega) h rfl)
      · split at h
        · cases h
        · next lexeme hread =>
          obtain ⟨s, after, rfl, hmore, hlexed⟩ := read_sound hread
          rw [hmore, List.drop_left, List.take_left] at h
          dsimp only at h
          split at h
          · cases h
          · next more hscan =>
            cases h
            exact .token hlexed (ih after.length (by simp at hn; omega) hscan rfl)

theorem code_of_comment {t : Token} {ts : List Token} (h : t.kind = .comment) :
    code (t :: ts) = code ts := by simp [code, h]

theorem code_of_ne {t : Token} {ts : List Token} (h : t.kind ≠ .comment) :
    code (t :: ts) = t :: code ts := by simp [code, h]

/-- The first token that is no comment starts after a gap. -/
theorem Scans.exists_gap {blocks : Blocks} {here : Location} {text : List Char} {ts : List Token}
    (h : Scans blocks here text ts) :
    ∀ u ∈ (code ts).head?, ∃ gap rest, text = gap ++ rest ∧ u.location = here.after gap ∧
      (u.kind ∈ Kind.dots → rest.head? = some '.') := by
  induction h with
  | stop =>
    intro u hu
    cases hu
    exact ⟨[], [], rfl, rfl, fun hk => absurd hk (by simp [Token.endOfInput, Kind.dots])⟩
  | @space _ _ c _ _ _ _ ih =>
    intro u hu
    obtain ⟨gap, rest, rfl, hplace, hdot⟩ := ih u hu
    exact ⟨c :: gap, rest, rfl, hplace, hdot⟩
  | @token blocks here lexeme c s after ts hlexed _ ih =>
    intro u hu
    by_cases hcomment : lexeme.kind = .comment
    · rw [code_of_comment hcomment] at hu
      obtain ⟨gap, rest, rfl, hplace, hdot⟩ := ih u hu
      refine ⟨c :: s ++ gap, rest, by simp, ?_, hdot⟩
      rw [Location.after_append, hplace]
    · rw [code_of_ne hcomment] at hu
      cases hu
      refine ⟨[], c :: s ++ after, rfl, rfl, fun hk => ?_⟩
      rw [hlexed.dot_iff.mpr hk]
      rfl

end Lexical

/-- Going on, a place is on a later line, or further on by as much. -/
theorem Location.after_cases (here : Location) (s : List Char) :
    here.line < (here.after s).line ∨
      (here.after s).line = here.line ∧ (here.after s).column = here.column + s.length := by
  induction s generalizing here with
  | nil => exact .inr ⟨rfl, rfl⟩
  | cons c s ih =>
    rw [after_cons]
    have more := ih (here.advance c)
    by_cases hc : c = '\n'
    · simp only [advance, if_pos hc] at more ⊢
      omega
    · simp only [advance, if_neg hc, List.length_cons] at more ⊢
      omega

theorem Location.eq_nil_of_after {here : Location} {s : List Char} (h : here.after s = here) :
    s = [] := by
  have cases := here.after_cases s
  rw [h] at cases
  exact List.length_eq_zero_iff.mp (by omega)

namespace Token

/-- Whether the token after one is a mark that touches it and starts with a dot. -/
def dotted (t : Token) (next : Option Token) : Bool :=
  next.any fun u => u.kind ∈ Kind.dots ∧ u.location = t.location.after t.raw.toList

/-- What the next token must be for a scan to follow the blocks of the grammar: after a dot, no
word of a block, and after `input` no dot but one that touches it. -/
def Direct (t u : Token) : Prop :=
  (t.kind = .mark .dot → u.kind ∉ Kind.blockWords) ∧
    (t.kind = .keyword .input → u.kind = .mark .dot → u.location = t.location.after t.raw.toList)

instance (t u : Token) : Decidable (t.Direct u) := inferInstanceAs (Decidable (_ ∧ _))

end Token

namespace Blocks

/-- The blocks after a token, when `next` is the one that follows. -/
def pass (blocks : Blocks) (t : Token) (next : Option Token) : Blocks :=
  blocks.step t.kind (if t.dotted next then some '.' else none)

theorem step_congr {kind : Kind} (h : kind ≠ .keyword .input) {blocks : Blocks}
    (next next' : Option Char) : blocks.step kind next = blocks.step kind next' := by
  unfold step
  split <;> first | contradiction | rfl

variable {t : Token} {blocks : Blocks} {next : Option Token}

theorem pass_of_path (h : t.kind = .keyword .input) (hdot : t.dotted next) :
    blocks.pass t next = blocks := by rw [pass, h, step, if_pos hdot, if_pos rfl]

theorem pass_of_input (h : t.kind = .keyword .input) (hdot : t.dotted next = false) :
    blocks.pass t next = ⟨blocks.opened, some .input⟩ := by
  rw [pass, h, step, hdot]
  rfl

end Blocks

/-- All identifiers among some tokens are told a block. -/
def Told (context : Option Context) (p : List Token) : Prop :=
  ∀ t ∈ p, t.kind = .identifier → t.context = context

section Told

variable {context : Option Context} {t : Token} {p q : List Token}

theorem told_cons :
    Told context (t :: p) ↔ (t.kind = .identifier → t.context = context) ∧ Told context p :=
  List.forall_mem_cons

theorem told_append : Told context (p ++ q) ↔ Told context p ∧ Told context q :=
  List.forall_mem_append

theorem told_cons_of_ne (h : t.kind ≠ .identifier) : Told context (t :: p) ↔ Told context p := by
  rw [told_cons]
  exact and_iff_right fun hk => absurd hk h

theorem told_of_noIdentifier (h : ∀ t ∈ p, t.kind ≠ .identifier) : Told context p :=
  fun t ht hk => absurd hk (h t ht)

end Told

/-- Identifiers among some tokens are told the innermost of the blocks around them, where those are
followed from token to token. -/
inductive Annotated : Blocks → List Token → Prop
  | nil {blocks : Blocks} : Annotated blocks []
  | cons {blocks : Blocks} {t : Token} {ts : List Token} :
    (t.kind = .identifier → t.context = blocks.opened.head?) →
    Annotated (blocks.pass t ts.head?) ts → Annotated blocks (t :: ts)

namespace Annotated

variable {blocks : Blocks} {opened : List Context} {pending : Option Context} {t : Token}
  {ts : List Token}

theorem tail (h : Annotated blocks (t :: ts)) : Annotated (blocks.pass t ts.head?) ts := by
  cases h with
  | cons _ h => exact h

theorem after_calm (ht : t.Calm) (h : Annotated blocks (t :: ts)) : Annotated blocks ts := by
  have other := ht.noWord
  simp only [Kind.blockWords, List.mem_cons, List.not_mem_nil, or_false, not_or] at other
  have same : blocks.pass t ts.head? = blocks := by
    unfold Blocks.pass Blocks.step
    split <;> simp_all
  exact same ▸ h.tail

theorem after_schema (ht : t.kind = .keyword .schema) (h : Annotated ⟨opened, pending⟩ (t :: ts)) :
    Annotated ⟨opened, some .schema⟩ ts := by
  have next := h.tail
  rwa [Blocks.pass, ht, Blocks.step] at next

theorem after_do (ht : t.kind = .keyword .doWord) (h : Annotated ⟨opened, pending⟩ (t :: ts)) :
    Annotated ⟨pending.getD .block :: opened, none⟩ ts := by
  have next := h.tail
  rwa [Blocks.pass, ht, Blocks.step] at next

theorem after_end {context : Context} (ht : t.kind = .keyword .endWord)
    (h : Annotated ⟨context :: opened, pending⟩ (t :: ts)) : Annotated ⟨opened, pending⟩ ts := by
  have next := h.tail
  rwa [Blocks.pass, ht, Blocks.step] at next

theorem after_input (ht : t.kind = .keyword .input) (hdot : t.dotted ts.head? = false)
    (h : Annotated ⟨opened, pending⟩ (t :: ts)) : Annotated ⟨opened, some .input⟩ ts := by
  have next := h.tail
  rwa [Blocks.pass_of_input ht hdot] at next

theorem after_path (ht : t.kind = .keyword .input) (hdot : t.dotted ts.head?)
    (h : Annotated blocks (t :: ts)) : Annotated blocks ts := by
  have next := h.tail
  rwa [Blocks.pass_of_path ht hdot] at next

end Annotated

/-- A dot follows a token in the text just when the next token touches it and starts with one. -/
theorem Lexical.Scans.dotted_iff {blocks : Blocks} {here : Location} {text : List Char}
    {ts : List Token} (h : Scans blocks here text ts) {t : Token}
    (ht : t.location.after t.raw.toList = here) :
    t.dotted (code ts).head? ↔ text.head? = some '.' := by
  constructor
  · intro hdot
    obtain ⟨u, hu, hmark⟩ := Option.any_eq_true _ _ |>.mp hdot
    obtain ⟨hkind, hplace⟩ := of_decide_eq_true hmark
    obtain ⟨gap, rest, rfl, hgap, hrest⟩ := h.exists_gap u hu
    have none : gap = [] := Location.eq_nil_of_after (hgap.symm.trans (hplace.trans ht))
    rw [none]
    exact hrest hkind
  · intro hfirst
    cases h with
    | stop => cases hfirst
    | space hblank _ =>
      cases hfirst
      exact absurd hblank (by decide)
    | @token _ _ lexeme _ _ _ _ hlexed _ =>
      cases hfirst
      have hkind := hlexed.dot_iff.mp rfl
      have kept : lexeme.kind ≠ .comment := by
        intro he
        rw [he] at hkind
        exact absurd hkind (by decide)
      rw [code_of_ne kept]
      exact decide_eq_true ⟨hkind, ht.symm⟩

/-- A scan tells identifiers their blocks, comments apart. -/
theorem Lexical.Scans.annotated {blocks : Blocks} {here : Location} {text : List Char}
    {ts : List Token} (h : Scans blocks here text ts) : Annotated blocks (code ts) := by
  induction h with
  | stop => exact .cons (fun hk => by cases hk) .nil
  | space _ _ ih => exact ih
  | @token blocks here lexeme c s after ts hlexed hscans ih =>
    by_cases hcomment : lexeme.kind = .comment
    · rw [code_of_comment hcomment]
      rwa [hcomment] at ih
    · rw [code_of_ne hcomment]
      refine .cons (fun hk => if_pos hk) ?_
      suffices same : blocks.pass (Token.ofLexeme blocks here lexeme) (code ts).head? =
          blocks.step lexeme.kind after.head? by
        rw [same]
        exact ih
      by_cases hinput : lexeme.kind = .keyword .input
      · have touching : (Token.ofLexeme blocks here lexeme).location.after
            (Token.ofLexeme blocks here lexeme).raw.toList = here.after (c :: s) := by
          rw [hinput] at hlexed
          simp only [Token.ofLexeme, String.toList_ofList, hlexed.raw_of_input]
        have dotted := hscans.dotted_iff touching
        by_cases hdot : after.head? = some '.'
        · rw [Blocks.pass_of_path hinput (dotted.mpr hdot), hinput, Blocks.step, if_pos hdot]
        · have apart := Bool.eq_false_iff.mpr fun h => hdot (dotted.mp h)
          rw [Blocks.pass_of_input hinput apart, hinput, Blocks.step, if_neg hdot]
      · exact Blocks.step_congr hinput _ _

namespace Grammar

variable {blocks : Blocks} {p rest : List Token}

theorem annotated_of_calm (hp : ∀ t ∈ p, t.Calm) (h : Annotated blocks (p ++ rest)) :
    Told blocks.opened.head? p ∧ Annotated blocks rest := by
  induction p with
  | nil => exact ⟨by simp [Told], h⟩
  | cons t p ih =>
    have next : Annotated blocks (p ++ rest) := h.after_calm (hp t (by simp))
    obtain ⟨more, hrest⟩ := ih (fun u hu => hp u (by simp [hu])) next
    cases h with
    | cons hcontext _ => exact ⟨told_cons.mpr ⟨hcontext, more⟩, hrest⟩

/-- The fields of a path that is written as it should be are calm tokens. -/
theorem Fields.calm {names : List String} (hp : Fields p names)
    (hdirect : (p ++ rest).IsChain Token.Direct) : ∀ t ∈ p, t.Calm := by
  induction hp with
  | nil => simp
  | @cons dot t p names hdot hword _ ih =>
    obtain ⟨hnext, hmore⟩ := List.isChain_cons_cons.mp hdirect
    have field : t.Calm := ⟨Token.plain_of_isWord hword, hnext.1 hdot⟩
    have more := ih hmore.of_cons
    simpa [field] using ⟨.of_kind hdot (by decide), more⟩

/-- Calm tokens and paths leave the blocks as they are. -/
theorem Tame.annotated (hp : Tame p) (h : Annotated blocks (p ++ rest))
    (hdirect : (p ++ rest).IsChain Token.Direct) :
    Told blocks.opened.head? p ∧ Annotated blocks rest := by
  induction hp with
  | nil => exact ⟨by simp [Told], h⟩
  | @calm t p ht _ ih =>
    obtain ⟨first, hmore⟩ := annotated_of_calm (p := [t]) (by simpa using ht) h
    obtain ⟨more, hrest⟩ := ih hmore hdirect.of_cons
    exact ⟨told_append.mpr ⟨first, more⟩, hrest⟩
  | @path t p q name names ht hfields _ ih =>
    rw [List.append_assoc] at h hdirect
    have path : Annotated blocks (p ++ (q ++ rest)) := by
      cases hfields with
      | @cons dot field p _ hdot _ _ =>
        have touching := (List.isChain_cons_cons.mp hdirect).1.2 ht hdot
        have dotted : t.dotted (some dot) := by simp [Token.dotted, hdot, touching, Kind.dots]
        simp only [List.cons_append] at h ⊢
        exact h.after_path ht dotted
    obtain ⟨fields, hmore⟩ := annotated_of_calm (hfields.calm hdirect.of_cons) path
    obtain ⟨more, hrest⟩ := ih hmore hdirect.of_cons.right_of_append
    rw [told_append, told_cons_of_ne (by simp [ht])]
    exact ⟨⟨fields, more⟩, hrest⟩

/-- Blocks inside others are left again. -/
theorem Sealed.annotated {opened : List Context} (hp : Sealed p)
    (h : Annotated ⟨opened, none⟩ (p ++ rest)) : Annotated ⟨opened, none⟩ rest := by
  induction hp generalizing opened rest with
  | nil => exact h
  | @calm t p ht _ _ ih =>
    exact ih (h.after_calm ht)
  | @block opening closing p q ho _ hc _ ihp ihq =>
    rw [List.append_assoc] at h
    have inside : Annotated ⟨_, none⟩ (p ++ (closing :: (q ++ rest))) := h.after_do ho
    exact ihq ((ihp inside).after_end hc)

/-- Whether a declaration is that of a value by cases, which stand between `do` and `end`. -/
def cascades (p : List Token) : Bool := p[2]?.any (·.kind = .keyword .doWord)

/-- The block that the identifiers of a declaration stand in. -/
def blockOf (p : List Token) : Context := if cascades p then .block else .schema

/-- Identifiers of a declaration are told its block. -/
theorem Declared.annotated (hp : Declared p) (h : Annotated ⟨[.schema], none⟩ (p ++ rest))
    (hdirect : (p ++ rest).IsChain Token.Direct) :
    Told (some (blockOf p)) p ∧ Annotated ⟨[.schema], none⟩ rest := by
  cases hp with
  | @flat t name comma p hhead hc hp =>
    have flat : blockOf (t :: name :: comma :: p) = .schema := by simp [blockOf, cascades, hc]
    have next : Annotated _ (comma :: p ++ rest) := Sealed.annotated hhead h
    obtain ⟨body, hrest⟩ := (Tame.cons hc (by decide) hp).annotated next hdirect.of_cons.of_cons
    rw [flat]
    exact ⟨told_append.mpr ⟨told_of_noIdentifier hhead.noIdentifier, body⟩, hrest⟩
  | @cascade t name opening closing p hhead ho hp hc =>
    have deep : blockOf (t :: name :: opening :: p ++ [closing]) = .block := by
      simp [blockOf, cascades, ho]
    rw [deep]
    simp only [List.cons_append, List.append_assoc] at h hdirect ⊢
    have next : Annotated _ (opening :: (p ++ ([closing] ++ rest))) := Sealed.annotated hhead h
    obtain ⟨cases, hclosing⟩ :=
      hp.annotated (next.after_do ho) hdirect.of_cons.of_cons.of_cons
    have last : Told (some .block) [closing] := told_of_noIdentifier (by simp [hc])
    have inside : Told (some .block) (opening :: (p ++ [closing])) :=
      (told_cons_of_ne (by simp [ho])).mpr (told_append.mpr ⟨cases, last⟩)
    exact ⟨told_append.mpr ⟨told_of_noIdentifier hhead.noIdentifier, inside⟩, hclosing.after_end hc⟩

/-- The tokens of a schema up to its declarations, and the tokens of each of those. -/
inductive Outline (limit : Nat) : List Token → List Token → List (List Token) → Prop
  | mk {t opening closing : Token} {p q : List Token} {ps : List (List Token)}
    {imports : List SchemaLang.Import} {inputs : List Input} {decls : List Reader.Declaration} :
    t.kind = .keyword .schema → opening.kind = .keyword .doWord → Many Import p imports →
    InputSection limit q inputs →
    List.Forall₂ (Declaration (Expression (imports.flatMap Import.names) limit)) ps decls →
    closing.kind = .keyword .endWord →
    Outline limit (t :: opening :: p ++ q ++ ps.flatten ++ [closing]) (t :: opening :: p ++ q) ps

theorem Schema.exists_outline {limit : Nat} {s : SchemaLang.Schema} (h : Schema limit p s) :
    ∃ front decls, Outline limit p front decls := by
  have pieces {α : Type} {item : Phrase α} {p : List Token} {as : List α} (h : Many item p as) :
      ∃ ps, p = ps.flatten ∧ List.Forall₂ item ps as := by
    induction h with
    | nil => exact ⟨[], rfl, .nil⟩
    | cons ha _ ih =>
      obtain ⟨ps, rfl, hps⟩ := ih
      exact ⟨_ :: ps, rfl, .cons ha hps⟩
  obtain ⟨ht, ho, hp, hq, hr, hc⟩ := h
  obtain ⟨ps, rfl, hps⟩ := pieces hr
  exact ⟨_, ps, .mk ht ho hp hq hps hc⟩

/-- The part before the declarations opens the block of the schema and holds no identifiers. -/
theorem annotated_front {limit : Nat} {t opening : Token} {q : List Token}
    {imports : List SchemaLang.Import} {inputs : List Input} (ht : t.kind = .keyword .schema)
    (ho : opening.kind = .keyword .doWord) (hp : Many Import p imports)
    (hq : InputSection limit q inputs) (h : Annotated .outside (t :: opening :: p ++ q ++ rest)) :
    (∀ u ∈ t :: opening :: p ++ q, u.kind ≠ .identifier) ∧ Annotated ⟨[.schema], none⟩ rest := by
  have imports : Sealed p := hp.closed .nil (fun _ _ => .append) Import.sealed
  obtain @⟨word, start, stop, q, inputs, hword, hstart, hinputs, hstop⟩ := hq
  have inputs := inputs_sealed _ _ _ _ hinputs
  refine ⟨?_, ?_⟩
  · have words : ∀ u ∈ [t, opening, word, start, stop], u.kind ≠ .identifier := by
      simp [ht, ho, hword, hstart, hstop]
    intro u hu
    simp only [List.cons_append, List.mem_cons, List.mem_append, List.not_mem_nil, or_false] at hu
    rcases hu with hu | hu | hu | hu | hu | hu | hu
    · exact words u (by simp [hu])
    · exact words u (by simp [hu])
    · exact imports.noIdentifier u hu
    · exact words u (by simp [hu])
    · exact words u (by simp [hu])
    · exact inputs.noIdentifier u hu
    · exact words u (by simp [hu])
  · simp only [List.cons_append, List.append_assoc] at h
    have apart : word.dotted (some start) = false := by simp [Token.dotted, hstart, Kind.dots]
    have announced : Annotated ⟨[.schema], some .input⟩ (start :: (q ++ (stop :: rest))) :=
      (imports.annotated ((h.after_schema ht).after_do ho)).after_input hword apart
    exact (inputs.annotated (announced.after_do hstart)).after_end hstop

theorem annotated_declarations {expr : Phrase Expr} (hexpr : ∀ p e, expr p e → Tame p)
    {ps : List (List Token)} {decls : List Reader.Declaration}
    (hps : List.Forall₂ (Declaration expr) ps decls)
    (h : Annotated ⟨[.schema], none⟩ (ps.flatten ++ rest))
    (hdirect : (ps.flatten ++ rest).IsChain Token.Direct) :
    ∀ p ∈ ps, Told (some (blockOf p)) p := by
  induction hps with
  | nil => simp
  | @cons p _ ps _ hp _ ih =>
    rw [List.flatten_cons, List.append_assoc] at h hdirect
    obtain ⟨told, hmore⟩ := (Declaration.declared hexpr _ _ hp).annotated h hdirect
    exact List.forall_mem_cons.mpr ⟨told, ih hmore hdirect.right_of_append⟩

/-- Identifiers stand only in declarations, and are told the block of theirs. -/
theorem Outline.told {limit : Nat} {front : List Token} {decls : List (List Token)}
    (hp : Outline limit p front decls) (h : Annotated .outside (p ++ rest))
    (hdirect : (p ++ rest).IsChain Token.Direct) :
    (∀ t ∈ p, t.kind = .identifier → ∃ q ∈ decls, t ∈ q) ∧
      ∀ q ∈ decls, Told (some (blockOf q)) q := by
  obtain @⟨t, opening, closing, p, q, ps, imports, inputs, decls, ht, ho, hp, hq, hps, hc⟩ := hp
  rw [List.append_assoc, List.append_assoc] at h hdirect
  obtain ⟨front, hdecls⟩ := annotated_front ht ho hp hq h
  have expr := (levels_tame (imports.flatMap Import.names) limit).climb 0
  refine ⟨fun u hu hk => ?_, annotated_declarations expr hps hdecls hdirect.right_of_append⟩
  rcases List.mem_append.mp hu with hu | hu
  · rcases List.mem_append.mp hu with hu | hu
    · exact absurd hk (front u hu)
    · exact List.mem_flatten.mp hu
  · rw [List.mem_singleton.mp hu, hc] at hk
    cases hk

end Grammar

/-- In an accepted text whose paths are written without gaps and have no words of blocks as fields,
identifiers stand in declarations only, and each is told the block that it stands in: inside a
cascade its own block, and the schema elsewhere. -/
theorem Source.identifiers_told {source : Source} {s : Schema} {tokens : List Token}
    (h : source.schema = .ok s) (htokens : Token.ofText source.text = .ok tokens)
    (hdirect : (code tokens).IsChain Token.Direct) :
    (∃ front decls, Grammar.Outline Schema.nestingLimit (Tokens.ofList tokens).body front decls) ∧
    ∀ front decls, Grammar.Outline Schema.nestingLimit (Tokens.ofList tokens).body front decls →
      (∀ t ∈ tokens, t.kind = .identifier → ∃ p ∈ decls, t ∈ p) ∧
      ∀ p ∈ decls, ∀ t ∈ p, t.kind = .identifier →
        t.context = some (if Grammar.cascades p then .block else .schema) := by
  have tiles : ∃ spans, Tiling ([] ++ source.text.toList) [].length tokens spans :=
    scan_tiles htokens
  obtain ⟨spans, tiling⟩ := tiles
  obtain ⟨init, stop, hinit, hstop, hkinds⟩ := tiling.ended
  obtain ⟨body, hcode, _, hlist⟩ := code_append_stop hstop hkinds
  rw [← hinit] at hcode hlist
  have annotated := (scans_of_scan htokens).annotated
  rw [hcode] at annotated hdirect
  rw [hlist]
  constructor
  · obtain ⟨tokens', htokens', hread⟩ := Source.schema_eq_ok_iff.mp h
    obtain rfl := Except.ok.inj (htokens.symm.trans htokens')
    have derived := Reader.schema_eq_ok_iff.mp (Schema.ofTokensWithin_eq_ok_iff.mp hread)
    rw [hlist] at derived
    exact derived.exists_outline
  · intro front decls houtline
    obtain ⟨inDecls, told⟩ := houtline.told annotated hdirect
    refine ⟨fun t ht hk => inDecls t ?_ hk, told⟩
    have kept : t ∈ code tokens := List.mem_filter.mpr ⟨ht, by simp [hk]⟩
    rw [hcode] at kept
    rcases List.mem_append.mp kept with hmem | hmem
    · exact hmem
    · rw [List.mem_singleton.mp hmem, hstop] at hk
      cases hk

/-- A value by an expression and a value by cases. -/
def Source.twoBlocks : Source :=
  ⟨anonymous, "schema do input do end value :a, input.x + y value :b do " ++
    "on z, input.x base y end end"⟩

theorem Source.twoBlocks_told :
    ∃ s tokens, twoBlocks.schema = .ok s ∧ Token.ofText twoBlocks.text = .ok tokens ∧
      (code tokens).IsChain Token.Direct ∧
      ∃ front decls, Grammar.Outline Schema.nestingLimit (Tokens.ofList tokens).body front decls ∧
        ∀ p ∈ decls, ∀ t ∈ p, t.kind = .identifier →
          t.context = some (if Grammar.cascades p then .block else .schema) := by
  have direct : (Token.ofText twoBlocks.text).toOption.any
      (fun tokens => (code tokens).IsChain Token.Direct) = true := by decide +kernel
  have valid : twoBlocks.isValid = true := by decide +kernel
  cases hread : twoBlocks.schema with
  | error report => simp [isValid, hread, Except.isOk, Except.toBool] at valid
  | ok s =>
    cases htokens : Token.ofText twoBlocks.text with
    | error e => simp [htokens, Except.toOption] at direct
    | ok tokens =>
      rw [htokens] at direct
      have direct := of_decide_eq_true direct
      obtain ⟨⟨front, decls, houtline⟩, told⟩ := identifiers_told hread htokens direct
      exact ⟨s, tokens, rfl, rfl, direct, front, decls, houtline, (told front decls houtline).2⟩

/-- A field called `end` closes the schema for a scan, and an `input` apart from its dot makes the
next cascade an input block. -/
theorem Source.identifiers_mistold :
    (Source.mk anonymous "schema do input do end value :y, input.end + z end").isValid = true ∧
    (Token.ofText "schema do input do end value :y, input.end + z end").toOption.bind
      (·.find? (·.raw = "z")) = some ⟨.identifier, "z", ⟨1, 46⟩, none⟩ ∧
    (Source.mk anonymous
      "schema do input do end value :a, input .x value :b do on y, 1 end end").isValid = true ∧
    (Token.ofText
      "schema do input do end value :a, input .x value :b do on y, 1 end end").toOption.bind
        (·.find? (·.raw = "y")) = some ⟨.identifier, "y", ⟨1, 58⟩, some .input⟩ := by
  decide +kernel

end SchemaLang
