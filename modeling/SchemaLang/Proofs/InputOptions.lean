import Mathlib.Data.List.Forall2
import SchemaLang.Check
import SchemaLang.Proofs.ErrorPosition
import SchemaLang.Proofs.Shape.Input

namespace SchemaLang

def Token.isLabel (name : String) (t : Token) : Bool := t.kind = .label && t.raw = name

/-- Whether a token of the kind ends the header of a declaration before it. -/
def Kind.endsHeader : Kind → Bool
  | .type _ | .keyword .doWord | .keyword .endWord => true
  | _ => false

/-- The tokens up to the `end` of the block that they stand in, when `depth` blocks inside that one
are open. -/
def untilEnd : Nat → List Token → List Token
  | _, [] => []
  | depth, t :: rest =>
    if t.kind = .keyword .doWord then t :: untilEnd (depth + 1) rest
    else if t.kind = .keyword .endWord then
      if depth = 0 then [] else t :: untilEnd (depth - 1) rest
    else t :: untilEnd depth rest

/-- What stands between the `do` and the `end` of the input block. -/
def inputBlock (tokens : List Token) : List Token :=
  untilEnd 0 ((tokens.dropWhile (·.kind ≠ .keyword .input)).drop 2)

/-- The headers of the declarations of an input block, at every depth: each starts with the word of
a type. -/
def headers : List Token → List (List Token)
  | [] => []
  | t :: rest =>
    if t.kind.category = .typeKeyword then
      (t :: rest.takeWhile (!·.kind.endsHeader)) :: headers rest
    else headers rest

/-- What a header says last under a name, if it says anything there. -/
inductive LastSaid {α : Type} (name : String) (value : Phrase α) : List Token → Option α → Prop
  | nothing {header : List Token} : (∀ t ∈ header, t.isLabel name = false) →
    LastSaid name value header none
  | last {before p after : List Token} {label : Token} {a : α} : label.isLabel name → value p a →
    (∀ t ∈ p ++ after, t.isLabel name = false) →
    LastSaid name value (before ++ label :: p ++ after) (some a)

/-- Options as a header says them last. -/
structure Reader.InputOptions.SaidBy (header : List Token) (options : Reader.InputOptions) :
    Prop where
  domain : LastSaid "domain" Grammar.Domain header options.domain
  index : LastSaid "index" Grammar.Name header options.index

def Input.options (input : Input) : Reader.InputOptions := ⟨input.domain, input.index⟩

/-- An option that a header may give. -/
inductive InputOption where
  | domain
  | index
  deriving DecidableEq, Repr

namespace InputOption

def label : InputOption → String
  | .domain => "domain"
  | .index => "index"

def isSet (option : InputOption) (input : Input) : Bool :=
  match option with
  | .domain => input.domain.isSome
  | .index => input.index.isSome

end InputOption

namespace LastSaid

variable {α : Type} {name : String} {value : Phrase α} {header q : List Token} {kept : Option α}

theorem append (h : LastSaid name value header kept) (hq : ∀ t ∈ q, t.isLabel name = false) :
    LastSaid name value (header ++ q) kept := by
  cases h with
  | nothing hnone => exact .nothing (List.forall_mem_append.mpr ⟨hnone, hq⟩)
  | @last before p after label a hlabel hvalue hafter =>
    rw [List.append_assoc]
    refine .last hlabel hvalue ?_
    rw [← List.append_assoc]
    exact List.forall_mem_append.mpr ⟨hafter, hq⟩

/-- Something is kept just when the name is there. -/
theorem isSome_iff (h : LastSaid name value header kept) :
    kept.isSome ↔ 0 < header.countP (·.isLabel name) := by
  rw [List.countP_pos_iff]
  cases h with
  | nothing hnone => simpa using hnone
  | @last before p after label a hlabel _ _ =>
    simp only [Option.isSome_some, true_iff]
    exact ⟨label, by simp, hlabel⟩

end LastSaid

theorem InputOption.isSet_iff {header : List Token} {input : Input}
    (h : input.options.SaidBy header) (option : InputOption) :
    option.isSet input ↔ 0 < header.countP (·.isLabel option.label) := by
  cases option with
  | domain => exact h.domain.isSome_iff
  | index => exact h.index.isSome_iff

/-- No more inputs have an option than there are labels of it, and just as many have it when no
header repeats it. -/
theorem InputOption.countP_headers (option : InputOption) {hs : List (List Token)}
    {inputs : List Input} (h : List.Forall₂ (fun header input => input.options.SaidBy header)
      hs inputs) :
    inputs.countP option.isSet ≤ hs.flatten.countP (·.isLabel option.label) ∧
    (hs.flatten.countP (·.isLabel option.label) = inputs.countP option.isSet ↔
      ∀ header ∈ hs, header.countP (·.isLabel option.label) ≤ 1) := by
  induction h with
  | nil => simp
  | @cons header input hs inputs hsaid _ ih =>
    obtain ⟨hle, hiff⟩ := ih
    -- without the inequality, labels that one header repeats could make up for another's
    have set := isSet_iff hsaid option
    rw [List.flatten_cons, List.countP_append, List.countP_cons, List.forall_mem_cons, ← hiff]
    split
    · next hset =>
      have said := set.mp hset
      omega
    · next hset =>
      have unsaid : ¬0 < header.countP (·.isLabel option.label) := fun hpos => hset (set.mpr hpos)
      omega

section Blocks

variable {t : Token} (depth : Nat) (rest : List Token)

theorem untilEnd_do (h : t.kind = .keyword .doWord) :
    untilEnd depth (t :: rest) = t :: untilEnd (depth + 1) rest := by
  rw [untilEnd, if_pos h]

theorem untilEnd_end (h : t.kind = .keyword .endWord) :
    untilEnd 0 (t :: rest) = [] ∧ untilEnd (depth + 1) (t :: rest) = t :: untilEnd depth rest := by
  simp [untilEnd, h]

theorem untilEnd_calm (h : t.Calm) : untilEnd depth (t :: rest) = t :: untilEnd depth rest := by
  have other := h.noWord
  simp only [Kind.blockWords, List.mem_cons, List.not_mem_nil, or_false, not_or] at other
  rw [untilEnd, if_neg other.2.2.1, if_neg other.2.2.2]

/-- Blocks that are closed again end no block around them. -/
theorem Grammar.Sealed.untilEnd_append {p : List Token} (hp : Sealed p) :
    untilEnd depth (p ++ rest) = p ++ untilEnd depth rest := by
  induction hp generalizing depth rest with
  | nil => rfl
  | calm ht _ _ ih => rw [List.cons_append, untilEnd_calm _ _ ht, ih, List.cons_append]
  | block ho _ hc _ ihp ihq =>
    rw [List.append_assoc, List.cons_append, untilEnd_do _ _ ho, ihp, List.cons_append,
      (untilEnd_end _ _ hc).2, ihq]
    simp

theorem Grammar.Sealed.noInput {p : List Token} (hp : Sealed p) :
    ∀ t ∈ p, t.kind ≠ .keyword .input := by
  induction hp with
  | nil => simp
  | calm ht _ _ ih =>
    refine List.forall_mem_cons.mpr ⟨fun hk => ht.noWord ?_, ih⟩
    rw [hk]
    decide
  | block ho _ hc _ ihp ihq =>
    refine List.forall_mem_cons.mpr ⟨by simp [ho], List.forall_mem_append.mpr ⟨ihp, ?_⟩⟩
    exact List.forall_mem_cons.mpr ⟨by simp [hc], ihq⟩

end Blocks

section Headers

theorem headers_of_type {t : Token} (h : t.kind.category = .typeKeyword) (rest : List Token) :
    headers (t :: rest) = (t :: rest.takeWhile (!·.kind.endsHeader)) :: headers rest := by
  rw [headers, if_pos h]

theorem headers_of_other {t : Token} (h : t.kind.category ≠ .typeKeyword) (rest : List Token) :
    headers (t :: rest) = headers rest := by
  rw [headers, if_neg h]

/-- Whether no header goes on into the tokens. -/
def EndsHeader (p : List Token) : Prop := ∀ t ∈ p.head?, t.kind.endsHeader

theorem takeWhile_endsHeader (p : List Token) {q : List Token} (h : EndsHeader q) :
    (p ++ q).takeWhile (!·.kind.endsHeader) = p.takeWhile (!·.kind.endsHeader) := by
  induction p with
  | nil =>
    cases q with
    | nil => rfl
    | cons t q =>
      have stop : t.kind.endsHeader = true := h t rfl
      simp [stop]
  | cons t p ih => simp only [List.cons_append, List.takeWhile_cons, ih]

theorem headers_append (p : List Token) {q : List Token} (h : EndsHeader q) :
    headers (p ++ q) = headers p ++ headers q := by
  induction p with
  | nil => rfl
  | cons t p ih =>
    by_cases ht : t.kind.category = .typeKeyword
    · rw [List.cons_append, headers_of_type ht, headers_of_type ht, takeWhile_endsHeader p h, ih,
        List.cons_append]
    · rw [List.cons_append, headers_of_other ht, headers_of_other ht, ih]

/-- Whether a token of the kind may stand in a header after its first token, labels apart. -/
def Kind.isInner : Kind → Bool
  | .label | .keyword _ | .type _ => false
  | _ => true

theorem Kind.endsHeader_of_isInner {kind : Kind} (h : kind.isInner ∨ kind = .label) :
    kind.endsHeader = false ∧ kind.category ≠ .typeKeyword := by
  rcases h with h | rfl
  · cases kind with
    | keyword _ => cases h
    | type _ => cases h
    | _ => simp [endsHeader, category]
  · exact ⟨rfl, by decide⟩

theorem Kind.endsHeader_of_type {kind : Kind} (h : kind.category = .typeKeyword) :
    kind.endsHeader ∧ kind ≠ .label := by
  cases kind with
  | type _ => simp [endsHeader]
  | _ => cases h

theorem Token.isLabel_of_isInner {t : Token} (h : t.kind.isInner) (name : String) :
    t.isLabel name = false := by
  have other : t.kind ≠ .label := by
    intro hk
    rw [hk] at h
    cases h
  simp [isLabel, other]

/-- A word of a type and tokens that end no header are one header. -/
theorem headers_of_header {t : Token} {p : List Token} (ht : t.kind.category = .typeKeyword)
    (hp : ∀ u ∈ p, u.kind.isInner ∨ u.kind = .label) : headers (t :: p) = [t :: p] := by
  have inside : headers p = [] := by
    induction p with
    | nil => rfl
    | cons u p ih =>
      obtain ⟨hu, hp⟩ := List.forall_mem_cons.mp hp
      rw [headers_of_other (Kind.endsHeader_of_isInner hu).2, ih hp]
  have whole : (p ++ []).takeWhile (!·.kind.endsHeader) = p := by
    refine (List.takeWhile_append_of_pos fun u hu => ?_).trans (List.append_nil p)
    rw [(Kind.endsHeader_of_isInner (hp u hu)).1]
    rfl
  rw [List.append_nil] at whole
  rw [headers_of_type ht, inside, whole]

end Headers

namespace Grammar

theorem Domain.inner {p : List Token} {d : SchemaLang.Domain} (hp : Domain p d) :
    ∀ t ∈ p, t.kind.isInner := by
  have single {t : Token} {kind : Kind} (hk : t.kind = kind) (hkind : kind.isInner) :
      ∀ u ∈ [t], u.kind.isInner := by
    intro u hu
    rw [List.mem_singleton.mp hu, hk]
    exact hkind
  have literal (p : List Token) (value : Literal) (hp : DomainLiteral p value) :
      ∀ t ∈ p, t.kind.isInner := by
    cases hp with
    | integer hk _ => exact single hk rfl
    | float hk _ => exact single hk rfl
    | string hk => exact single hk rfl
    | symbol hk => exact single hk rfl
    | boolean hk => exact single hk rfl
  have bound {p : List Token} {b : SchemaLang.Bound} (hp : Bound p b) :
      ∀ t ∈ p, t.kind.isInner := by
    cases hp with
    | integer hk _ => exact single hk rfl
    | float hk _ => exact single hk rfl
    | infinity hk _ => exact single hk rfl
    | negative hm hk _ =>
      exact List.forall_mem_cons.mpr ⟨by rw [hm]; rfl, single hk rfl⟩
  cases hp with
  | values ho hp hc =>
    have values := hp.closed (P := fun p => ∀ t ∈ p, t.kind.isInner) (by simp)
      (fun _ _ hp hq => List.forall_mem_append.mpr ⟨hp, hq⟩)
      (fun _ _ hk hp => List.forall_mem_cons.mpr ⟨by rw [hk]; rfl, hp⟩) literal
    refine List.forall_mem_cons.mpr ⟨by rw [ho]; rfl, ?_⟩
    exact List.forall_mem_append.mpr ⟨values, single hc rfl⟩
  | range hp hd hq _ =>
    refine List.forall_mem_append.mpr ⟨bound hp, ?_⟩
    exact List.forall_mem_cons.mpr ⟨by rw [hd]; rfl, bound hq⟩

theorem Head.inner {inArray : Bool} {t : Token} {p : List Token} {head : InputType × String}
    (hp : Head inArray (t :: p) head) :
    t.kind.category = .typeKeyword ∧ ∀ u ∈ p, u.kind.isInner := by
  cases hp with
  | array ht hn => simp [ht, hn, Kind.category, Kind.isInner]
  | hash ht hn => simp [ht, hn, Kind.category, Kind.isInner]
  | primitive ht hn => simp [ht, hn, Kind.category, Kind.isInner]
  | index ht hn => simp [ht, hn, Kind.category, Kind.isInner]
  | element ht hi _ hc hn => simp [ht, hi, hc, hn, Kind.category, Kind.isInner]

theorem Options.inner {type : InputType} {options options' : Reader.InputOptions} {p : List Token}
    (hp : Options type options p options') : ∀ t ∈ p, t.kind.isInner ∨ t.kind = .label := by
  induction hp with
  | nil => simp
  | cons hc hp _ ih =>
    refine List.forall_mem_cons.mpr ⟨.inl (by rw [hc]; rfl), List.forall_mem_append.mpr ⟨?_, ih⟩⟩
    cases hp with
    | domain hl _ hp => exact List.forall_mem_cons.mpr ⟨.inr hl, fun t ht => .inl (hp.inner t ht)⟩
    | index _ hl _ hn => simp [hl, hn, Kind.isInner]

/-- One more option in a header is said last under its name, and leaves the other as it was. -/
theorem Setting.said {type : InputType} {options options' : Reader.InputOptions}
    {header p : List Token} {comma : Token} (hc : comma.kind = .mark .comma)
    (hp : Setting type options p options') (h : options.SaidBy header) :
    options'.SaidBy (header ++ comma :: p) := by
  have quiet (name : String) : comma.isLabel name = false :=
    Token.isLabel_of_isInner (by rw [hc]; rfl) name
  have after : header ++ comma :: p = header ++ [comma] ++ p := by simp
  cases hp with
  | @domain label p d hl hname hp =>
    have values (name : String) : ∀ t ∈ p, t.isLabel name = false := fun t ht =>
      Token.isLabel_of_isInner (hp.inner t ht) name
    constructor
    · have named : label.isLabel "domain" := by simp [Token.isLabel, hl, hname]
      have said : LastSaid "domain" Domain (header ++ [comma] ++ label :: p ++ []) (some d) :=
        .last named hp (by simpa using values "domain")
      rwa [List.append_nil, ← after] at said
    · refine h.index.append (List.forall_mem_cons.mpr ⟨quiet _, ?_⟩)
      exact List.forall_mem_cons.mpr ⟨by simp [Token.isLabel, hname], values _⟩
  | @index label name harray hl hname hn =>
    have symbol (label : String) : name.isLabel label = false :=
      Token.isLabel_of_isInner (by rw [hn]; rfl) label
    constructor
    · refine h.domain.append (List.forall_mem_cons.mpr ⟨quiet _, ?_⟩)
      exact List.forall_mem_cons.mpr ⟨by simp [Token.isLabel, hname], by simpa using symbol _⟩
    · have named : label.isLabel "index" := by simp [Token.isLabel, hl, hname]
      have said : LastSaid "index" Name (header ++ [comma] ++ label :: [name] ++ [])
          (some name.raw) := .last named (.mk hn) (by simpa using symbol "index")
      rwa [List.append_nil, ← after] at said

theorem Options.said {type : InputType} {options options' : Reader.InputOptions}
    {header p : List Token} (hp : Options type options p options') (h : options.SaidBy header) :
    options'.SaidBy (header ++ p) := by
  induction hp generalizing header with
  | nil => rwa [List.append_nil]
  | cons hc hp _ ih =>
    have next := ih (hp.said hc h)
    rwa [List.append_assoc] at next

end Grammar

/-- A phrase declares inputs, at every depth, with the options that their headers say last, and has
labels in headers only. -/
structure Headed (p : List Token) (is : List Input) : Prop where
  first : EndsHeader p
  said : List.Forall₂ (fun header input => input.options.SaidBy header) (headers p)
    (Input.families is)
  labels : ∀ name, (headers p).flatten.countP (·.isLabel name) = p.countP (·.isLabel name)

namespace Headed

theorem nil : Headed [] [] where
  first := by simp [EndsHeader]
  said := by rw [Input.families]; exact .nil
  labels _ := rfl

theorem append {p q : List Token} {is js : List Input} (hp : Headed p is) (hq : Headed q js) :
    Headed (p ++ q) (is ++ js) where
  first := by
    cases p with
    | nil => exact hq.first
    | cons t p => exact hp.first
  said := by
    rw [headers_append p hq.first, Input.families_eq, List.flatMap_append, ← Input.families_eq,
      ← Input.families_eq]
    exact List.rel_append hp.said hq.said
  labels name := by
    rw [headers_append p hq.first, List.flatten_append, List.countP_append, List.countP_append,
      hp.labels, hq.labels]

/-- A block says what is said inside it. -/
theorem block {opening closing : Token} {p : List Token} {is : List Input}
    (ho : opening.kind = .keyword .doWord) (hp : Headed p is)
    (hc : closing.kind = .keyword .endWord) : Headed (opening :: p ++ [closing]) is := by
  have ends : EndsHeader [closing] := by simp [EndsHeader, hc, Kind.endsHeader]
  have same : headers (opening :: p ++ [closing]) = headers p := by
    rw [List.cons_append, headers_of_other (by simp [ho, Kind.category]), headers_append p ends,
      headers_of_other (by simp [hc, Kind.category]), headers, List.append_nil]
  refine ⟨by simp [EndsHeader, ho, Kind.endsHeader], by rw [same]; exact hp.said, fun name => ?_⟩
  rw [same, hp.labels]
  simp [Token.isLabel, ho, hc]

end Headed

namespace Grammar

section Inputs

variable {nested : Bool → Phrase (List Input)}
  (h : ∀ inArray p is, nested inArray p is → Headed p is)

include h

theorem InputDecl.headed {inArray : Bool} {p : List Token} {input : Input}
    (hp : InputDecl nested inArray p input) : Headed p [input] := by
  obtain @⟨t, p, q, r, type, name, options, children, mode, hhead, hoptions, hblock, _⟩ := hp
  obtain ⟨htype, hinner⟩ := hhead.inner
  -- the header ends where the block starts, or where what follows the declaration does
  have block : Headed r children := by
    cases hblock with
    | none => exact .nil
    | some _ ho hb hc => exact .block ho (h _ _ _ hb) hc
  have header : headers (t :: p ++ q) = [t :: p ++ q] := by
    refine headers_of_header htype (List.forall_mem_append.mpr ⟨?_, hoptions.inner⟩)
    exact fun u hu => .inl (hinner u hu)
  have silent (name : String) : ∀ u ∈ t :: p, u.isLabel name = false := by
    refine List.forall_mem_cons.mpr ⟨?_, fun u hu => Token.isLabel_of_isInner (hinner u hu) name⟩
    simp [Token.isLabel, (Kind.endsHeader_of_type htype).2]
  have said : options.SaidBy (t :: p ++ q) :=
    hoptions.said ⟨.nothing (silent _), .nothing (silent _)⟩
  have whole : headers (t :: p ++ q ++ r) = (t :: p ++ q) :: headers r := by
    rw [headers_append _ block.first, header, List.singleton_append]
  refine ⟨?_, ?_, fun name => ?_⟩
  · intro u hu
    cases hu
    exact (Kind.endsHeader_of_type htype).1
  · rw [whole, Input.families_eq, List.flatMap_singleton, Input.family_eq]
    exact .cons said block.said
  · rw [whole, List.flatten_cons, List.countP_append, block.labels, ← List.countP_append]

theorem InputList.headed (inArray : Bool) (p : List Token) (is : List Input)
    (hp : InputList nested inArray p is) : Headed p is := by
  obtain ⟨decls, -⟩ := hp
  induction decls with
  | nil => exact .nil
  | cons hdecl _ ih => exact (hdecl.headed h).append ih

end Inputs

theorem inputs_headed (room : Nat) (inArray : Bool) (p : List Token) (is : List Input)
    (hp : Inputs room inArray p is) : Headed p is := by
  induction room generalizing inArray p is with
  | zero => exact InputList.headed (fun _ _ _ hp => hp.elim) inArray p is hp
  | succ room ih => exact InputList.headed ih inArray p is hp

/-- The input block of a schema holds the declarations of its inputs. -/
theorem Schema.inputs_of_inputBlock {limit : Nat} {p : List Token} {s : SchemaLang.Schema}
    (hp : Schema limit p s) (rest : List Token) :
    Inputs limit false (inputBlock (p ++ rest)) s.inputs := by
  obtain @⟨t, opening, closing, p, q, r, imports, inputs, decls, values, traits, ht, ho, hp, hq,
    _, _, _⟩ := hp
  obtain @⟨word, start, stop, q, inputs, hword, hstart, hinputs, hstop⟩ := hq
  -- imports do not name the block, so the first `input` is the word that announces it
  have sealedImports : Sealed p := hp.closed .nil (fun _ _ => .append) Import.sealed
  have before : ∀ u ∈ t :: opening :: p, (u.kind ≠ .keyword .input : Bool) = true := by
    simpa [ht, ho] using sealedImports.noInput
  have text : t :: opening :: p ++ (word :: start :: q ++ [stop]) ++ r ++ [closing] ++ rest =
      (t :: opening :: p) ++ (word :: start :: (q ++ (stop :: (r ++ [closing] ++ rest)))) := by
    simp
  have block : inputBlock (t :: opening :: p ++ (word :: start :: q ++ [stop]) ++ r ++ [closing] ++
      rest) = q := by
    rw [text, inputBlock, List.dropWhile_append_of_pos before,
      List.dropWhile_cons_of_neg (by simp [hword])]
    simp only [List.drop_succ_cons, List.drop_zero]
    rw [(inputs_sealed _ _ _ _ hinputs).untilEnd_append, (untilEnd_end 0 _ hstop).1,
      List.append_nil]
  rw [block]
  exact hinputs

end Grammar

/-- What becomes of the options in an accepted text. The headers of its input block are those of its
inputs, in their order, and each input keeps of every option what its header says last. So all
options that are written are kept just when no header repeats one. -/
theorem Source.options_kept {source : Source} {s : Schema} (h : source.schema = .ok s) :
    ∃ tokens, Token.ofText source.text = .ok tokens ∧
      List.Forall₂ (fun header input => input.options.SaidBy header)
        (headers (inputBlock (code tokens))) (Input.families s.inputs) ∧
      ∀ option : InputOption,
        ((inputBlock (code tokens)).countP (·.isLabel option.label) =
          (Input.families s.inputs).countP option.isSet ↔
        ∀ header ∈ headers (inputBlock (code tokens)),
          header.countP (·.isLabel option.label) ≤ 1) := by
  obtain ⟨tokens, htokens, hread⟩ := Source.schema_eq_ok_iff.mp h
  have derived := Reader.schema_eq_ok_iff.mp (Schema.ofTokensWithin_eq_ok_iff.mp hread)
  rw [body_ofList] at derived
  have block := derived.inputs_of_inputBlock ((code tokens).dropWhile (·.kind ≠ .eof))
  rw [List.takeWhile_append_dropWhile] at block
  have headed := Grammar.inputs_headed _ _ _ _ block
  refine ⟨tokens, htokens, headed.said, fun option => ?_⟩
  rw [← headed.labels]
  exact (option.countP_headers headed.said).2

/-- Options of both sorts at several depths, and the same labels where they are no options. -/
def Source.deepOptions : Source :=
  ⟨anonymous, "schema do input do array :rows, index: :i, domain: [1] do any :row end " ++
    "any :n, domain: 0..2 end value :v, f(domain: 1, index: 2) end"⟩

theorem Source.deepOptions_kept :
    ∃ s tokens, deepOptions.schema = .ok s ∧ Token.ofText deepOptions.text = .ok tokens ∧
      (headers (inputBlock (code tokens))).map (fun header =>
        (header.countP (·.isLabel "domain"), header.countP (·.isLabel "index"))) =
        [(1, 1), (0, 0), (1, 0)] ∧
      ∀ option : InputOption, (inputBlock (code tokens)).countP (·.isLabel option.label) =
        (Input.families s.inputs).countP option.isSet := by
  obtain ⟨s, hread, _⟩ := exists_ok_of_map deepOptions.schema
    (fun s => (Input.families s.inputs).map (·.name)) ["rows", "row", "n"]
    (by decide +kernel)
  obtain ⟨tokens, htokens, hcounts⟩ := exists_ok_of_map (Token.ofText deepOptions.text)
    (fun tokens => (headers (inputBlock (code tokens))).map fun header =>
      (header.countP (·.isLabel "domain"), header.countP (·.isLabel "index")))
    [(1, 1), (0, 0), (1, 0)] (by decide +kernel)
  obtain ⟨tokens', htokens', _, kept⟩ := options_kept hread
  obtain rfl := Except.ok.inj (htokens.symm.trans htokens')
  refine ⟨s, tokens, hread, htokens, hcounts, fun option => (kept option).mpr ?_⟩
  intro header hheader
  have counted := List.mem_map_of_mem (f := fun header : List Token =>
    (header.countP (·.isLabel "domain"), header.countP (·.isLabel "index"))) hheader
  rw [hcounts] at counted
  simp only [List.mem_cons, Prod.mk.injEq, List.not_mem_nil, or_false] at counted
  cases option with
  | domain => simp only [InputOption.label]; omega
  | index => simp only [InputOption.label]; omega

/-- An option that a header repeats is lost: of two domains one is kept, and of two indices too. -/
theorem Source.repeatedOption_lost :
    (Token.ofText "schema do input do integer :x, domain: 1..2, domain: 3..4 end end").toOption.map
      (fun tokens => (inputBlock (code tokens)).countP (·.isLabel "domain")) = some 2 ∧
    (Source.mk anonymous
      "schema do input do integer :x, domain: 1..2, domain: 3..4 end end").schema.toOption.map
      (fun s => (Input.families s.inputs).countP (·.domain.isSome)) = some 1 ∧
    (Token.ofText "schema do input do array :a, index: :i, index: :j end end").toOption.map
      (fun tokens => (inputBlock (code tokens)).countP (·.isLabel "index")) = some 2 ∧
    (Source.mk anonymous
      "schema do input do array :a, index: :i, index: :j end end").schema.toOption.map
      (fun s => (Input.families s.inputs).countP (·.index.isSome)) = some 1 := by
  decide +kernel

end SchemaLang
