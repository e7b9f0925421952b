import SchemaLang.Proofs.Grammar.Plain
import SchemaLang.Proofs.Shape.Input

namespace SchemaLang

/-- Whether a word of the kind may open a declaration, when a token of the kind `next` follows. -/
def Kind.opens (kind next : Kind) : Bool :=
  match kind with
  | .keyword .importWord | .keyword .value | .keyword .letWord | .keyword .trait => true
  | .type .index => next ≠ .mark .leftParen
  | .type _ => true
  | _ => false

/-- The tokens that open declarations. The first token is a field of a path if it is `dotted`. -/
def openers (dotted : Bool) : List Token → List Token
  | [] => []
  | t :: rest =>
    let more := openers (t.kind = .mark .dot) rest
    if !dotted && t.kind.opens (Reader.firstKind rest) then t :: more else more

theorem openers_of_opens {t : Token} {rest : List Token}
    (h : t.kind.opens (Reader.firstKind rest)) :
    openers false (t :: rest) = t :: openers (t.kind = .mark .dot) rest := by
  rw [openers, h]
  rfl

theorem openers_of_not {dotted : Bool} {t : Token} {rest : List Token}
    (h : (!dotted && t.kind.opens (Reader.firstKind rest)) = false) :
    openers dotted (t :: rest) = openers (t.kind = .mark .dot) rest := by
  rw [openers, h]
  rfl

/-- A word that opens a declaration, and its place. -/
structure Opening where
  word : Kind
  location : Location
  deriving DecidableEq, Repr

def Token.opening (t : Token) : Opening := ⟨t.kind, t.location⟩

def Import.opening (i : Import) : Opening := ⟨.keyword .importWord, i.location⟩

def Input.opening (input : Input) : Opening := ⟨.type input.type.word, input.location⟩

/-- A value is inline just when its word is `let`. -/
def Value.opening (v : Value) : Opening :=
  ⟨.keyword (if v.inline then .letWord else .value), v.location⟩

def Trait.opening (t : Trait) : Opening := ⟨.keyword .trait, t.location⟩

def Reader.Declaration.opening : Reader.Declaration → Opening
  | .value v => v.opening
  | .trait t => t.opening

/-- The tokens of a phrase that open declarations are those of the given words and places, whatever
follows the phrase. -/
def OpensWith (p : List Token) (os : List Opening) : Prop :=
  ∀ rest, (openers false (p ++ rest)).map Token.opening =
    os ++ (openers false rest).map Token.opening

/-- Whether a token of the kind neither opens a declaration nor makes the next one a field. -/
def Kind.isQuiet : Kind → Bool
  | .keyword .importWord | .keyword .value | .keyword .letWord | .keyword .trait => false
  | .type _ | .mark .dot => false
  | _ => true

theorem Kind.opens_of_isQuiet {kind : Kind} (h : kind.isQuiet) (next : Kind) :
    kind.opens next = false ∧ kind ≠ .mark .dot := by
  cases kind with
  | keyword word => cases word <;> simp_all [opens, isQuiet]
  | mark m => cases m <;> simp_all [opens, isQuiet]
  | type word => cases h
  | _ => simp [opens]

namespace OpensWith

variable {p q : List Token} {os os' : List Opening} {t : Token} {kind : Kind}

theorem nil : OpensWith [] [] := fun _ => rfl

theorem append (hp : OpensWith p os) (hq : OpensWith q os') : OpensWith (p ++ q) (os ++ os') := by
  intro rest
  rw [List.append_assoc, hp, hq, List.append_assoc]

/-- Nothing opens in two phrases in neither of which anything does. -/
theorem append_nil (p q : List Token) (hp : OpensWith p []) (hq : OpensWith q []) :
    OpensWith (p ++ q) [] :=
  hp.append hq

theorem quiet (ht : t.kind = kind) (hkind : kind.isQuiet) : OpensWith [t] [] := by
  intro rest
  obtain ⟨closed, other⟩ := Kind.opens_of_isQuiet hkind (Reader.firstKind rest)
  rw [List.singleton_append, openers_of_not (by rw [ht, closed]; rfl), ht, decide_eq_false other]
  rfl

/-- A quiet token before a phrase opens nothing. -/
theorem cons (ht : t.kind = kind) (hkind : kind.isQuiet) (hp : OpensWith p os) :
    OpensWith (t :: p) os :=
  (quiet ht hkind).append hp

/-- A word that opens a declaration, before a token that goes on with it. -/
theorem word {u : Token} (ht : t.kind = kind) (hkind : kind.opens u.kind)
    (hp : OpensWith (u :: p) os) : OpensWith (t :: u :: p) (⟨kind, t.location⟩ :: os) := by
  intro rest
  have other : kind ≠ .mark .dot := by
    rintro rfl
    cases hkind
  have opening : t.kind.opens (Reader.firstKind (u :: p ++ rest)) = true := ht ▸ hkind
  rw [List.cons_append, openers_of_opens opening, ht, decide_eq_false other, List.map_cons, hp rest,
    Token.opening, ht]
  rfl

end OpensWith

namespace Grammar

/-- The fields of a path open nothing, whatever words they are. -/
theorem Fields.opens {p : List Token} {names : List String} (hp : Fields p names) :
    OpensWith p [] := by
  induction hp with
  | nil => exact .nil
  | @cons dot t p names hdot hword _ ih =>
    intro rest
    have other : t.kind ≠ .mark .dot := by
      intro hk
      simp [Token.isWord, Token.hasWordKind, hk] at hword
    rw [List.cons_append, List.cons_append, openers_of_not (by rw [hdot]; rfl), hdot,
      openers_of_not rfl, decide_eq_false other]
    exact ih rest

/-- What the grammar reads as an index opens nothing. -/
theorem opens_index {t op : Token} {p : List Token} (ht : t.kind = .type .index)
    (ho : op.kind = .mark .leftParen) (hp : OpensWith (op :: p) []) :
    OpensWith (t :: op :: p) [] := by
  intro rest
  have closed : (!false && t.kind.opens (Reader.firstKind (op :: p ++ rest))) = false := by
    rw [ht]
    simp [Kind.opens, Reader.firstKind, ho]
  rw [List.cons_append, openers_of_not closed, ht]
  exact hp rest

section Lists

variable {α : Type} {item : Phrase α}

theorem Items.opens (h : ∀ p a, item p a → OpensWith p []) {p : List Token} {as : List α}
    (hp : Items item p as) : OpensWith p [] :=
  hp.closed .nil OpensWith.append_nil (fun _ _ hc => .cons hc rfl) h

/-- Items one after the other open what each of them opens. -/
theorem Many.opens {f : α → List Opening} (h : ∀ p a, item p a → OpensWith p (f a)) {p : List Token}
    {as : List α} (hp : Many item p as) : OpensWith p (as.flatMap f) := by
  induction hp with
  | nil => exact .nil
  | cons ha _ ih =>
    rw [List.flatMap_cons]
    exact (h _ _ ha).append ih

end Lists

structure Level.Quiet (L : Level) : Prop where
  climb : ∀ least p e, L.climb least p e → OpensWith p []
  negated : ∀ p e, L.negated p e → OpensWith p []

section Levels

variable {imported : List String} {inner : Level} (h : inner.Quiet)

include h

theorem Keyed.opens (p : List Token) (o : String × Expr) (hp : Keyed inner p o) :
    OpensWith p [] := by
  obtain ⟨hk, hp⟩ := hp
  exact .cons hk rfl (h.climb 0 _ _ hp)

theorem Argument.opens (p : List Token) (a : Reader.Argument) (hp : Argument inner p a) :
    OpensWith p [] := by
  cases hp with
  | positional hp => exact h.climb 0 _ _ hp
  | keyed hp => exact Keyed.opens h _ _ hp

theorem Arguments.opens {p : List Token} {args : List Expr × List (String × Expr)}
    (hp : Arguments inner p args) : OpensWith p [] := by
  obtain ⟨hp, _, hc⟩ := hp
  exact (Items.opens (Argument.opens h) hp).append (.quiet hc rfl)

theorem HashPair.opens (p : List Token) (pair : Literal × Expr) (hp : HashPair inner p pair) :
    OpensWith p [] := by
  obtain ⟨hp, hq⟩ := hp
  have value := h.climb 0 _ _ hq
  cases hp with
  | label hk => exact .cons hk rfl value
  | string hk ha => exact .cons hk rfl (.cons ha rfl value)
  | symbol hk ha => exact .cons hk rfl (.cons ha rfl value)

theorem Primary.opens {p : List Token} {e : Expr} (hp : Primary imported inner p e) :
    OpensWith p [] := by
  cases hp with
  | integer hk _ => exact .quiet hk rfl
  | float hk _ => exact .quiet hk rfl
  | string hk => exact .quiet hk rfl
  | boolean hk => exact .quiet hk rfl
  | symbol hk => exact .quiet hk rfl
  | infinity hk _ => exact .quiet hk rfl
  | input hk hp => exact .cons hk rfl hp.opens
  | inputPath hk hp => exact .cons hk rfl hp.opens
  | reference hk => exact .quiet hk rfl
  | ref hk _ ho hn hc => exact .cons hk rfl (.cons ho rfl (.cons hn rfl (.quiet hc rfl)))
  | importCall hk _ _ ho hp _ hc =>
    have args := (Items.opens (Keyed.opens h) hp).append (.quiet hc rfl)
    exact .cons hk rfl (.cons ho rfl args)
  | call hk _ _ ho hp => exact .cons hk rfl (.cons ho rfl (hp.opens h))
  | function hk ho hn hc => exact .cons hk rfl (.cons ho rfl (.cons hn rfl (.quiet hc rfl)))
  | functionCall hk ho hn hc hp =>
    exact .cons hk rfl (.cons ho rfl (.cons hn rfl (.cons hc rfl (hp.opens h))))
  | index hk ho hn hc => exact opens_index hk ho (.cons ho rfl (.cons hn rfl (.quiet hc rfl)))
  | group ho hp hc => exact .cons ho rfl ((h.climb 0 _ _ hp).append (.quiet hc rfl))
  | array ho hp hc => exact .cons ho rfl ((Items.opens (h.climb 0) hp).append (.quiet hc rfl))
  | hash ho hp hc => exact .cons ho rfl ((Items.opens (HashPair.opens h) hp).append (.quiet hc rfl))

theorem Indices.opens {e e' : Expr} {p : List Token} (hp : Indices inner e p e') :
    OpensWith p [] := by
  induction hp with
  | nil => exact .nil
  | cons ho hp hc _ ih => exact .cons ho rfl ((h.climb 0 _ _ hp).append (.cons hc rfl ih))

theorem Operand.opens (p : List Token) (e : Expr) (hp : Operand imported inner p e) :
    OpensWith p [] := by
  cases hp with
  | negation ht hp => exact .cons ht rfl (h.negated _ _ hp)
  | mk hp hq => exact (hp.opens h).append (hq.opens h)

theorem Binary.opens (least : Nat) (p : List Token) (e : Expr)
    (hp : Binary imported inner least p e) : OpensWith p [] := by
  induction hp with
  | operand hp => exact Operand.opens h _ _ hp
  | operator ht _ _ hq ih => exact ih.append (.cons ht rfl (h.climb _ _ _ hq))

end Levels

theorem levels_quiet (imported : List String) (room : Nat) : (levels imported room).Quiet := by
  induction room with
  | zero => exact ⟨fun _ _ _ hp => hp.elim, fun _ _ hp => hp.elim⟩
  | succ room ih => exact ⟨Binary.opens ih, Operand.opens ih⟩

theorem Domain.opens {p : List Token} {d : SchemaLang.Domain} (hp : Domain p d) :
    OpensWith p [] := by
  have literal (p : List Token) (value : Literal) (hp : DomainLiteral p value) :
      OpensWith p [] := by
    cases hp with
    | integer hk _ => exact .quiet hk rfl
    | float hk _ => exact .quiet hk rfl
    | string hk => exact .quiet hk rfl
    | symbol hk => exact .quiet hk rfl
    | boolean hk => exact .quiet hk rfl
  have bound {p : List Token} {b : SchemaLang.Bound} (hp : Bound p b) : OpensWith p [] := by
    cases hp with
    | integer hk _ => exact .quiet hk rfl
    | float hk _ => exact .quiet hk rfl
    | infinity hk _ => exact .quiet hk rfl
    | negative hm hk _ => exact .cons hm rfl (.quiet hk rfl)
  cases hp with
  | values ho hp hc => exact .cons ho rfl ((Items.opens literal hp).append (.quiet hc rfl))
  | @range _ _ _ _ _ exclusive hp hd hq _ =>
    exact (bound hp).append (.cons hd (by cases exclusive <;> rfl) (bound hq))

/-- The head of a declaration opens it, with the word of its type. -/
theorem Head.opens {inArray : Bool} {t : Token} {p : List Token} {type : InputType} {name : String}
    (hp : Head inArray (t :: p) (type, name)) :
    OpensWith (t :: p) [⟨.type type.word, t.location⟩] := by
  cases hp with
  | array ht hn => exact .word ht rfl (.quiet hn rfl)
  | hash ht hn => exact .word ht rfl (.quiet hn rfl)
  | primitive ht hn => exact .word ht rfl (.quiet hn rfl)
  | index ht hn => exact .word ht (by rw [hn]; rfl) (.quiet hn rfl)
  | element ht hi _ hc hn => exact .word ht rfl (.cons hi rfl (.cons hc rfl (.quiet hn rfl)))

theorem Options.opens {type : InputType} {options options' : Reader.InputOptions} {p : List Token}
    (hp : Options type options p options') : OpensWith p [] := by
  induction hp with
  | nil => exact .nil
  | cons hc hp _ ih =>
    refine .cons hc rfl ?_
    cases hp with
    | domain hl _ hp => exact .cons hl rfl (hp.opens.append ih)
    | index _ hl _ hn => exact .cons hl rfl (.cons hn rfl ih)

section Inputs

variable {nested : Bool → Phrase (List Input)}
  (h : ∀ inArray p is, nested inArray p is → OpensWith p ((Input.families is).map Input.opening))

include h

/-- A declaration opens its own input and then those inside it. -/
theorem InputDecl.opens {inArray : Bool} (p : List Token) (input : Input)
    (hp : InputDecl nested inArray p input) : OpensWith p (input.family.map Input.opening) := by
  obtain @⟨t, p, q, r, type, name, options, children, mode, hhead, hoptions, hblock, _⟩ := hp
  have block : OpensWith r ((Input.families children).map Input.opening) := by
    cases hblock with
    | none => exact .nil
    | some _ ho hb hc =>
      have inside := (h _ _ _ hb).append (.quiet hc rfl)
      rw [List.append_nil] at inside
      exact .cons ho rfl inside
  rw [Input.family_eq]
  exact (hhead.opens.append hoptions.opens).append block

theorem InputList.opens (inArray : Bool) (p : List Token) (is : List Input)
    (hp : InputList nested inArray p is) : OpensWith p ((Input.families is).map Input.opening) := by
  rw [Input.families_eq, List.map_flatMap]
  exact hp.1.opens (InputDecl.opens h)

end Inputs

theorem inputs_opens (room : Nat) (inArray : Bool) (p : List Token) (is : List Input)
    (hp : Inputs room inArray p is) : OpensWith p ((Input.families is).map Input.opening) := by
  induction room generalizing inArray p is with
  | zero => exact InputList.opens (fun _ _ _ hp => hp.elim) inArray p is hp
  | succ room ih => exact InputList.opens ih inArray p is hp

theorem InputSection.opens {limit : Nat} {p : List Token} {is : List Input}
    (hp : InputSection limit p is) : OpensWith p ((Input.families is).map Input.opening) := by
  obtain ⟨ht, ho, hp, hc⟩ := hp
  have inside := (inputs_opens limit _ _ _ hp).append (.quiet hc rfl)
  rw [List.append_nil] at inside
  exact .cons ht rfl (.cons ho rfl inside)

theorem Import.opens (p : List Token) (i : SchemaLang.Import) (hp : Import p i) :
    OpensWith p [i.opening] := by
  have name (p : List Token) (a : String) (hname : Name p a) : OpensWith p [] := by
    obtain ⟨ht⟩ := hname
    exact .quiet ht rfl
  obtain @⟨t, label, source, p, names, ht, hp, hne, hl, _, hc⟩ := hp
  have names := (hp.opens name).append (.cons hl rfl (.quiet hc rfl))
  cases p with
  | nil => exact .word ht rfl names
  | cons u p => exact .word ht rfl names

section Declarations

variable {expr : Phrase Expr} (h : ∀ p e, expr p e → OpensWith p [])

include h

theorem Case.opens (p : List Token) (c : Expr × Expr) (hp : Case expr p c) : OpensWith p [] := by
  have conditions {p : List Token} {es : List Expr} (hp : Conditions expr p es) :
      OpensWith p [] := by
    induction hp with
    | one hp hc => exact (h _ _ hp).append (.quiet hc rfl)
    | cons hp hc _ ih => exact (h _ _ hp).append (.cons hc rfl ih)
  cases hp with
  | on ht hp hq =>
    obtain ⟨es, hes, rfl⟩ := hp.exists_map
    exact .cons ht rfl ((conditions hes).append (h _ _ hq))
  | base ht hp => exact .cons ht rfl (h _ _ hp)

theorem Body.opens {p : List Token} {e : Expr} (hp : Body expr p e) : OpensWith p [] := by
  cases hp with
  | expression hc hp => exact .cons hc rfl (h _ _ hp)
  | cascade ho hp hc =>
    have cases := hp.closed .nil OpensWith.append_nil (Case.opens h)
    exact .cons ho rfl (cases.append (.quiet hc rfl))

/-- A declaration opens with its own word, and nothing else in it opens one. -/
theorem Declaration.opens (p : List Token) (d : Reader.Declaration) (hp : Declaration expr p d) :
    OpensWith p [d.opening] := by
  cases hp with
  | value ht hn hp => exact .word ht rfl (.cons hn rfl (hp.opens h))
  | letValue ht hn hp => exact .word ht rfl (.cons hn rfl (hp.opens h))
  | trait ht hn hc hp => exact .word ht rfl (.cons hn rfl (.cons hc rfl (h _ _ hp)))

end Declarations

/-- The words that open declarations in a schema are those of its imports, of its inputs and of its
values and traits, in this order. -/
theorem Schema.opens {limit : Nat} {p : List Token} {s : SchemaLang.Schema}
    (hp : Schema limit p s) :
    ∃ decls : List Reader.Declaration, s.values = decls.filterMap (·.value?) ∧
      s.traits = decls.filterMap (·.trait?) ∧
      OpensWith p (s.imports.map Import.opening ++ (Input.families s.inputs).map Input.opening ++
        decls.map Reader.Declaration.opening) := by
  obtain @⟨t, opening, closing, p, q, r, imports, inputs, decls, values, traits, ht, ho, hp, hq, hr,
    hc, hsorted⟩ := hp
  have expr := (levels_quiet (imports.flatMap Import.names) limit).climb 0
  have first : OpensWith p (imports.map Import.opening) := by
    rw [List.map_eq_flatMap]
    exact hp.opens Import.opens
  have last : OpensWith r (decls.map Reader.Declaration.opening) := by
    rw [List.map_eq_flatMap]
    exact hr.opens (Declaration.opens expr)
  have whole := ((first.append hq.opens).append last).append (.quiet hc rfl)
  rw [List.append_nil] at whole
  obtain ⟨hvalues, htraits⟩ := sorted_iff.mp hsorted
  exact ⟨decls, hvalues, htraits, .cons ht rfl (.cons ho rfl whole)⟩

end Grammar

end SchemaLang
