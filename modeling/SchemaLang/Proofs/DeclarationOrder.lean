import SchemaLang.Proofs.Contexts
import SchemaLang.Proofs.Openings

namespace SchemaLang

open Lexical

namespace Location

/-- Stands on an earlier line, or further left on the same line. -/
def Before (a b : Location) : Prop := a.line < b.line ∨ a.line = b.line ∧ a.column < b.column

theorem not_before_self (a : Location) : ¬a.Before a := by
  rintro (h | ⟨_, h⟩) <;> exact Nat.lt_irrefl _ h

theorem Before.trans {a b c : Location} (hab : a.Before b) (hbc : b.Before c) : a.Before c := by
  unfold Before at *
  omega

/-- Going on by at least one character leads to a later place. -/
theorem before_after (here : Location) (c : Char) (s : List Char) :
    here.Before (here.after (c :: s)) := by
  rcases here.after_cases (c :: s) with hline | ⟨hline, hcolumn⟩
  · exact .inl hline
  · refine .inr ⟨hline.symm, ?_⟩
    rw [hcolumn, List.length_cons]
    omega

end Location

/-- A scan finds tokens at later and later places. -/
theorem Lexical.Scans.pairwise {blocks : Blocks} {here : Location} {text : List Char}
    {ts : List Token} (h : Scans blocks here text ts) :
    ts.Pairwise (fun t u => t.location.Before u.location) ∧
      ∀ t ∈ ts, t.location = here ∨ here.Before t.location := by
  induction h with
  | stop => exact ⟨List.pairwise_singleton _ _, by simp [Token.endOfInput]⟩
  | @space _ here c _ _ _ _ ih =>
    refine ⟨ih.1, fun t ht => .inr ?_⟩
    have step : here.Before (here.advance c) := here.before_after c []
    rcases ih.2 t ht with hplace | hlater
    · rwa [hplace]
    · exact step.trans hlater
  | @token _ here lexeme c s rest ts _ _ ih =>
    have later (t : Token) (ht : t ∈ ts) : here.Before t.location := by
      rcases ih.2 t ht with hplace | hlater
      · rw [hplace]
        exact here.before_after c s
      · exact (here.before_after c s).trans hlater
    refine ⟨List.pairwise_cons.mpr ⟨later, ih.1⟩, ?_⟩
    exact List.forall_mem_cons.mpr ⟨.inl rfl, fun t ht => .inr (later t ht)⟩

/-- The words of the grammar are spelt as they are. -/
theorem Lexical.Lexed.slice_eq {kind : Kind} {raw slice rest : List Char}
    (h : Lexed kind raw slice rest)
    (hkind : (∃ word, kind = .keyword word) ∨ ∃ word, kind = .type word) :
    ∃ word, kind.spelling? = some word ∧ slice = word.toList := by
  have reserved : ∀ entry ∈ Kind.reserved, entry.2.category = .keyword ∨
      entry.2.category = .typeKeyword → entry.2.spelling? = some entry.1 := by decide
  have category : kind.category = .keyword ∨ kind.category = .typeKeyword := by
    rcases hkind with ⟨word, rfl⟩ | ⟨word, rfl⟩
    · exact .inl rfl
    · exact .inr rfl
  cases h with
  | @name c cs _ _ _ _ =>
    cases hlook : Kind.ofReserved? (String.ofList (c :: cs)) with
    | none =>
      rw [hlook] at category
      rcases category with category | category <;> cases category
    | some kind =>
      rw [hlook] at category
      obtain ⟨before, after, htable, _⟩ := List.lookup_eq_some_iff.mp hlook
      have entry : (String.ofList (c :: cs), kind) ∈ Kind.reserved := by
        rw [htable]
        exact List.mem_append_right _ (List.mem_cons_self ..)
      exact ⟨_, reserved _ entry category, (String.toList_ofList ..).symm⟩
  | sign hs _ _ _ => rcases hkind with ⟨word, rfl⟩ | ⟨word, rfl⟩ <;> cases hs
  | _ => rcases hkind with ⟨word, hw⟩ | ⟨word, hw⟩ <;> cases hw

/-- Where a word of the grammar starts, it is spelt. -/
theorem Token.StartsAt.spelt {text : List Char} {tokens : List Token} {k : Nat} {t : Token}
    (h : Token.StartsAt text tokens k t)
    (hkind : (∃ word, t.kind = .keyword word) ∨ ∃ word, t.kind = .type word) :
    ∃ word, t.kind.spelling? = some word ∧ word.toList <+: text.drop k := by
  obtain ⟨span, rfl, hplaced⟩ := h.placed
  cases hplaced with
  | token _ _ _ _ hlexed =>
    obtain ⟨word, hword, hslice⟩ := hlexed.slice_eq hkind
    exact ⟨word, hword, hslice ▸ List.take_prefix ..⟩
  | stop hk _ _ => rcases hkind with ⟨word, hw⟩ | ⟨word, hw⟩ <;> cases hk.symm.trans hw

section Openings

theorem openers_sublist (dotted : Bool) (ts : List Token) :
    (openers dotted ts).Sublist ts := by
  induction ts generalizing dotted with
  | nil => exact .slnil
  | cons t ts ih =>
    rw [openers]
    split
    · exact (ih _).cons_cons t
    · exact (ih _).cons t

theorem Kind.word_of_opens {kind next : Kind} (h : kind.opens next) :
    (∃ word, kind = .keyword word) ∨ ∃ word, kind = .type word := by
  unfold opens at h
  split at h <;> simp_all

theorem word_of_mem_openers {dotted : Bool} {ts : List Token} {t : Token}
    (h : t ∈ openers dotted ts) :
    (∃ word, t.kind = .keyword word) ∨ ∃ word, t.kind = .type word := by
  induction ts generalizing dotted with
  | nil => cases h
  | cons u ts ih =>
    rw [openers] at h
    split at h
    · next hopens =>
      rcases List.mem_cons.mp h with rfl | hmore
      · exact Kind.word_of_opens (Bool.and_eq_true_iff.mp hopens).2
      · exact ih hmore
    · exact ih h

end Openings

namespace Input

/-- Each of some inputs and all those inside it stand before the next ones. -/
def Ordered (inputs : List Input) : Prop :=
  inputs.Pairwise fun a b => a.location.Before b.location ∧
    ∀ inner : Input, inner.Within a.children → inner.location.Before b.location

/-- Inputs that are declared at later and later places are ordered. -/
theorem ordered_of_pairwise {inputs : List Input}
    (h : (families inputs).Pairwise fun a b => a.location.Before b.location) :
    Ordered inputs := by
  induction inputs with
  | nil => exact .nil
  | cons a inputs ih =>
    rw [families, family_eq] at h
    obtain ⟨_, hrest, hcross⟩ := List.pairwise_append.mp h
    refine List.pairwise_cons.mpr ⟨fun b hb => ?_, ih hrest⟩
    have later : b ∈ families inputs := Within.mem (.here hb)
    refine ⟨hcross a (List.mem_cons_self ..) b later, fun inner hinner => ?_⟩
    exact hcross inner (List.mem_cons_of_mem _ hinner.mem) b later

end Input

/-- The words and places of all declarations of a schema, at every depth. -/
def Schema.openings (s : Schema) : List Opening :=
  s.imports.map Import.opening ++ (Input.families s.inputs).map Input.opening ++
    (s.values.map Value.opening ++ s.traits.map Trait.opening)

/-- The declarations of a schema are where they are written in a text, and in that order. -/
structure Schema.InOrder (s : Schema) (text : List Char) (tokens : List Token) : Prop where
  /-- A declaration is at the place where its own word starts. -/
  placed : ∀ o ∈ s.openings, ∃ t ∈ openers false (code tokens), t.opening = o ∧
    ∃ k, Token.StartsAt text tokens k t ∧ o.location = place (text.take k) ∧
      ∃ word, o.word.spelling? = some word ∧ word.toList <+: text.drop k
  /-- A word that opens a declaration opens just one. -/
  once : ∀ t ∈ openers false (code tokens), t.opening ∈ s.openings ∧
    (s.openings.map Opening.location).count t.location = 1
  imports : s.imports.Pairwise fun a b => a.location.Before b.location
  values : s.values.Pairwise fun a b => a.location.Before b.location
  traits : s.traits.Pairwise fun a b => a.location.Before b.location
  inputs : Input.Ordered s.inputs
  children : ∀ input : Input, input.Within s.inputs → Input.Ordered input.children ∧
    ∀ inner : Input, inner.Within input.children → input.location.Before inner.location
  importsFirst : ∀ i ∈ s.imports,
    (∀ input : Input, input.Within s.inputs → i.location.Before input.location) ∧
    (∀ v ∈ s.values, i.location.Before v.location) ∧ ∀ t ∈ s.traits, i.location.Before t.location
  inputsFirst : ∀ input : Input, input.Within s.inputs →
    (∀ v ∈ s.values, input.location.Before v.location) ∧
    ∀ t ∈ s.traits, input.location.Before t.location

section Declarations

variable (decls : List Reader.Declaration)

theorem values_sublist : ((decls.filterMap (·.value?)).map Value.opening).Sublist
    (decls.map Reader.Declaration.opening) := by
  induction decls with
  | nil => exact .slnil
  | cons d decls ih =>
    cases d with
    | value v => exact ih.cons_cons _
    | trait t => exact ih.cons _

theorem traits_sublist : ((decls.filterMap (·.trait?)).map Trait.opening).Sublist
    (decls.map Reader.Declaration.opening) := by
  induction decls with
  | nil => exact .slnil
  | cons d decls ih =>
    cases d with
    | value v => exact ih.cons _
    | trait t => exact ih.cons_cons _

/-- Telling values and traits apart loses and doubles none of them. -/
theorem declarations_perm : ((decls.filterMap (·.value?)).map Value.opening ++
    (decls.filterMap (·.trait?)).map Trait.opening).Perm
      (decls.map Reader.Declaration.opening) := by
  induction decls with
  | nil => exact .nil
  | cons d decls ih =>
    cases d with
    | value v => exact ih.cons _
    | trait t => exact List.perm_middle.trans (ih.cons _)

end Declarations

section Order

variable {s : Schema} {text : String} {tokens : List Token} {decls : List Reader.Declaration}
  (htokens : Token.ofText text = .ok tokens)

include htokens

/-- The words of a text that open declarations are at later and later places. -/
theorem openers_pairwise : (openers false (code tokens)).Pairwise
    fun t u => t.location.Before u.location :=
  (scans_of_scan htokens).pairwise.1.sublist
    ((openers_sublist false _).trans List.filter_sublist)

/-- A word that opens a declaration is spelt at its place. -/
theorem startsAt_of_mem_openers {t : Token} (ht : t ∈ openers false (code tokens)) :
    ∃ k, Token.StartsAt text.toList tokens k t ∧ t.location = place (text.toList.take k) ∧
      ∃ word, t.kind.spelling? = some word ∧ word.toList <+: text.toList.drop k := by
  have hmem : t ∈ tokens := List.mem_of_mem_filter ((openers_sublist false _).subset ht)
  obtain ⟨k, _, hplace, hstart⟩ := Token.exists_startsAt htokens hmem
  exact ⟨k, hstart, hplace, hstart.spelt (word_of_mem_openers ht)⟩

/-- A schema whose declarations are opened by the words of a text, in this order. -/
theorem Schema.inOrder_of_openings (hvalues : s.values = decls.filterMap (·.value?))
    (htraits : s.traits = decls.filterMap (·.trait?))
    (hwords : (openers false (code tokens)).map Token.opening =
      s.imports.map Import.opening ++ (Input.families s.inputs).map Input.opening ++
        decls.map Reader.Declaration.opening) :
    s.InOrder text.toList tokens := by
  have perm : s.openings.Perm ((openers false (code tokens)).map Token.opening) := by
    rw [hwords, openings, hvalues, htraits]
    exact (declarations_perm decls).append_left _
  have later : ((openers false (code tokens)).map Token.opening).Pairwise
      fun a b => a.location.Before b.location :=
    List.pairwise_map.mpr (openers_pairwise htokens)
  have distinct : (s.openings.map Opening.location).Nodup := by
    refine (perm.map _).nodup_iff.mpr (List.pairwise_map.mpr (later.imp ?_))
    rintro a b hbefore heq
    exact b.location.not_before_self (heq ▸ hbefore)
  -- the places of the imports, of the inputs and of the other declarations, and those across them
  rw [hwords] at later
  obtain ⟨hfront, hdecls, hlast⟩ := List.pairwise_append.mp later
  obtain ⟨himports, hinputs, hfirst⟩ := List.pairwise_append.mp hfront
  have imports := List.pairwise_map.mp himports
  have families := List.pairwise_map.mp hinputs
  have values := List.pairwise_map.mp (hdecls.sublist (values_sublist decls))
  have traits := List.pairwise_map.mp (hdecls.sublist (traits_sublist decls))
  have value {v : Value} (hv : v ∈ s.values) :
      v.opening ∈ decls.map Reader.Declaration.opening :=
    (values_sublist decls).subset (List.mem_map_of_mem (hvalues ▸ hv))
  have trait {t : Trait} (ht : t ∈ s.traits) :
      t.opening ∈ decls.map Reader.Declaration.opening :=
    (traits_sublist decls).subset (List.mem_map_of_mem (htraits ▸ ht))
  exact {
    placed := fun o ho => by
      obtain ⟨t, ht, rfl⟩ := List.mem_map.mp (perm.subset ho)
      exact ⟨t, ht, rfl, startsAt_of_mem_openers htokens ht⟩
    once := fun t ht => by
      have declared : t.opening ∈ s.openings := perm.symm.subset (List.mem_map_of_mem ht)
      exact ⟨declared, List.count_eq_one_of_mem distinct (List.mem_map_of_mem declared)⟩
    imports := imports
    values := hvalues ▸ values
    traits := htraits ▸ traits
    inputs := Input.ordered_of_pairwise families
    children := fun input hinput => by
      obtain ⟨inner, hrest⟩ := List.pairwise_cons.mp (families.sublist hinput.sublist)
      exact ⟨Input.ordered_of_pairwise hrest, fun i hi => inner i hi.mem⟩
    importsFirst := fun i hi => by
      have opened : i.opening ∈ s.imports.map Import.opening := List.mem_map_of_mem hi
      have front := List.mem_append_left ((Input.families s.inputs).map Input.opening) opened
      refine ⟨fun input hinput => ?_, fun v hv => hlast _ front _ (value hv),
        fun t ht => hlast _ front _ (trait ht)⟩
      exact hfirst _ opened _ (List.mem_map_of_mem hinput.mem)
    inputsFirst := fun input hinput => by
      have opened : input.opening ∈ (Input.families s.inputs).map Input.opening :=
        List.mem_map_of_mem hinput.mem
      have front := List.mem_append_right (s.imports.map Import.opening) opened
      exact ⟨fun v hv => hlast _ front _ (value hv), fun t ht => hlast _ front _ (trait ht)⟩ }

end Order

/-- The declarations of an accepted text keep their order and their places. Each is at the place
where its own word starts, each word that opens a declaration opens just one, and along every list
of declarations the places grow: the imports come first, then the inputs, each before those inside
it and those before the next one, and then the values and traits. -/
theorem Source.declarations_inOrder {source : Source} {s : Schema} (h : source.schema = .ok s) :
    ∃ tokens, Token.ofText source.text = .ok tokens ∧ s.InOrder source.text.toList tokens := by
  obtain ⟨tokens, htokens, hread⟩ := Source.schema_eq_ok_iff.mp h
  have derived := Reader.schema_eq_ok_iff.mp (Schema.ofTokensWithin_eq_ok_iff.mp hread)
  have tiles : ∃ spans, Tiling ([] ++ source.text.toList) [].length tokens spans :=
    scan_tiles htokens
  obtain ⟨spans, tiling⟩ := tiles
  obtain ⟨init, stop, rfl, hstop, hinit⟩ := tiling.ended
  obtain ⟨body, hcode, _, hlist⟩ := code_append_stop hstop hinit
  rw [hlist] at derived
  obtain ⟨decls, hvalues, htraits, hopens⟩ := derived.opens
  refine ⟨_, htokens, Schema.inOrder_of_openings htokens hvalues htraits ?_⟩
  have closed : openers false [stop] = [] := openers_of_not (by rw [hstop]; rfl)
  rw [hcode, hopens [stop], closed]
  exact List.append_nil _

/-- Declarations of all sorts over two lines, in which `value` is also a field and `index` also a
reference. -/
def Source.interleaved : Source :=
  ⟨anonymous, "schema do import :t, from: M input do array :r, index: :i do hash :c do any :n " ++
    "end end end\ntrait :p, input.value > index(:i) let :q, 1 value :v, t(k: q) " ++
    "trait :z, q < 0 end"⟩

/-- The words of its imports, its inputs, its values and its traits. -/
def Source.interleavedOpenings : List Opening :=
  [⟨.keyword .importWord, ⟨1, 11⟩⟩, ⟨.type .array, ⟨1, 39⟩⟩, ⟨.type .hash, ⟨1, 62⟩⟩,
    ⟨.type (.primitive .any), ⟨1, 73⟩⟩, ⟨.keyword .letWord, ⟨2, 35⟩⟩, ⟨.keyword .value, ⟨2, 45⟩⟩,
    ⟨.keyword .trait, ⟨2, 1⟩⟩, ⟨.keyword .trait, ⟨2, 63⟩⟩]

theorem Source.interleaved_inOrder :
    ∃ s tokens, interleaved.schema = .ok s ∧ Token.ofText interleaved.text = .ok tokens ∧
      s.openings = interleavedOpenings ∧ s.InOrder interleaved.text.toList tokens := by
  obtain ⟨s, hread, hopenings⟩ :=
    exists_ok_of_map interleaved.schema Schema.openings interleavedOpenings (by decide +kernel)
  obtain ⟨tokens, htokens, order⟩ := declarations_inOrder hread
  exact ⟨s, tokens, hread, htokens, hopenings, order⟩

end SchemaLang
