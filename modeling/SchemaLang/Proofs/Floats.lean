import SchemaLang.Proofs.RefusedPlace
import SchemaLang.Proofs.Shape.Expr
import SchemaLang.Proofs.Shape.Input
import SchemaLang.Proofs.Writing.Piece

namespace SchemaLang

section Packed

open Float.Model (Format UnpackedFloat)
open Float.Model.UnpackedFloat

/-- The bits of a double are those of no number just when its exponent is the largest and its
mantissa is not zero. -/
theorem isNaN_unpack_eq_false_iff {spec : Format} {b : BitVec spec.numBits} :
    (unpack spec b).isNaN = false ↔ (unpackExponent b = -1#_ → unpackMantissa b = 0#_) := by
  unfold unpack
  by_cases hexponent : unpackExponent b = -1#_
  · by_cases hmantissa : unpackMantissa b = 0#_
    · rw [if_pos hexponent, if_pos hmantissa]
      exact ⟨fun _ _ => hmantissa, fun _ => rfl⟩
    · rw [if_pos hexponent, if_neg hmantissa]
      exact ⟨fun hnan => (by cases hnan), fun hzero => absurd (hzero hexponent) hmantissa⟩
  · rw [if_neg hexponent]
    refine ⟨fun _ hlargest => absurd hlargest hexponent, fun _ => ?_⟩
    by_cases hleast : unpackExponent b = 0#_
    · rw [if_pos hleast]
      by_cases hmantissa : unpackMantissa b = 0#_
      · rw [dif_pos hmantissa]
        rfl
      · rw [dif_neg hmantissa]
        rfl
    · rw [if_neg hleast]
      rfl

/-- A number stays one when it is packed. -/
theorem isNaN_unpack_pack {spec : Format} {u : UnpackedFloat} (h : u.isNaN = false) :
    (unpack spec (pack spec u)).isNaN = false := by
  rw [isNaN_unpack_eq_false_iff]
  fun_cases pack with
  | case1 => cases h
  | case2 s => simp [packedInfinity]
  | case3 s => simp [packedZero]
  | case4 s m e hm biased hlarge => simp [packedInfinity]
  | case5 s m e hm bits biased hsmall hnormal =>
    intro hexponent
    simp only [unpackExponent_packComponents, BitVec.neg_one_eq_allOnes, ← BitVec.toNat_inj,
      BitVec.toNat_ofNat, BitVec.toNat_allOnes] at hexponent
    rw [Nat.mod_eq_of_lt (by omega)] at hexponent
    omega
  | case6 s m e hm bits biased hsmall hsubnormal =>
    intro hexponent
    have wide := Nat.one_lt_two_pow (Nat.ne_of_gt spec.he)
    simp only [unpackExponent_packComponents, BitVec.neg_one_eq_allOnes, ← BitVec.toNat_inj,
      BitVec.toNat_ofNat, Nat.zero_mod, BitVec.toNat_allOnes] at hexponent
    omega

end Packed

namespace Decimal

theorem isNaN_neg {x : Float} (h : x.isNaN = false) : (-x).isNaN = false := by
  have model : x.toModel.unpack.isNaN = false := h
  apply isNaN_unpack_pack
  cases hx : x.toModel.unpack with
  | notANumber =>
    rw [hx] at model
    cases model
  | _ => rfl

/-- Bits up to those of infinity are the bits of numbers. -/
theorem isNaN_ofBits {n : Nat} (h : n ≤ 2047 <<< 52) : (Float.ofBits n.toUInt64).isNaN = false := by
  apply isNaN_unpack_pack
  rw [isNaN_unpack_eq_false_iff]
  intro hexponent
  simp [Float.Model.UnpackedFloat.unpackExponent, Float.Model.UnpackedFloat.unpackMantissa,
    ← BitVec.toNat_inj] at hexponent ⊢
  rw [Nat.shiftRight_eq_div_pow] at hexponent
  rw [Nat.shiftLeft_eq] at h
  omega

theorem isNaN_nearest (digits : Nat) (exponent : Int) :
    (nearest digits exponent).isNaN = false := by
  apply isNaN_ofBits
  split
  · exact Nat.zero_le _
  split
  · exact Nat.le_refl _
  split
  · exact Nat.zero_le _
  · exact Nat.min_le_right ..

theorem isNaN_readUnsigned {text : List Char} {x : Float} (h : readUnsigned? text = some x) :
    x.isNaN = false := by
  rw [readUnsigned?] at h
  split at h
  · next places rest _ =>
    split at h
    · cases h
    · obtain ⟨exponent, _, hx⟩ := Option.bind_eq_some_iff.mp h
      cases hx
      exact isNaN_nearest ..

theorem mem_splitSign {text : List Char} {c : Char} (h : c ∈ text) (hminus : c ≠ '-')
    (hplus : c ≠ '+') : c ∈ (splitSign text).2 := by
  unfold splitSign
  split <;> simp_all

/-- A text with a point is no name of an infinity or of a double that is not a number. -/
theorem readFloat?_of_point {text : List Char} (h : '.' ∈ text) :
    readFloat? text = (readUnsigned? (splitSign text).2).map fun x =>
      if (splitSign text).1 then -x else x := by
  have inside : '.' ∈ (splitSign text).2.map Char.toLower :=
    List.mem_map.mpr ⟨'.', mem_splitSign h (by decide) (by decide), by decide⟩
  rw [readFloat?]
  generalize splitSign text = signed at inside
  obtain ⟨negative, rest⟩ := signed
  have unnamed {name : String} (hname : String.ofList (rest.map Char.toLower) = name) :
      '.' ∈ name.toList := by
    rw [← hname, String.toList_ofList]
    exact inside
  refine congrArg (Option.map _) ?_
  split
  · next hname => exact absurd (unnamed hname) (by decide)
  · next hname => exact absurd (unnamed hname) (by decide)
  · next hname => exact absurd (unnamed hname) (by decide)
  · rfl

/-- A text with a point denotes no double that is not a number. -/
theorem isNaN_readFloat {text : List Char} {x : Float} (hpoint : '.' ∈ text)
    (h : readFloat? text = some x) : x.isNaN = false := by
  rw [readFloat?_of_point hpoint] at h
  obtain ⟨size, hsize, rfl⟩ := Option.map_eq_some_iff.mp h
  have real := isNaN_readUnsigned hsize
  split
  · exact isNaN_neg real
  · exact real

end Decimal

theorem Lexical.Decimal.point_mem {s : List Char} (h : Lexical.Decimal s) : '.' ∈ s := by
  cases h
  simp

/-- The text of a token for a double is a decimal. -/
theorem Lexical.Lexed.decimal {kind : Kind} {raw slice rest : List Char}
    (h : Lexed kind raw slice rest) (hk : kind = .float) : Lexical.Decimal raw := by
  cases h with
  | float hsign hds hds' _ => exact .mk hsign hds hds'
  | name _ _ _ =>
    exact absurd hk (reserved_induction (p := (· ≠ .float)) (by decide) (by decide) _)
  | sign hs _ _ _ =>
    subst hk
    cases hs
  | _ => cases hk

theorem Token.decimal_of_ofText {text : String} {tokens : List Token}
    (h : Token.ofText text = .ok tokens) {t : Token} (ht : t ∈ tokens) (hk : t.kind = .float) :
    Lexical.Decimal t.raw.toList := by
  obtain ⟨k, _, _, hstart⟩ := Token.exists_startsAt h ht
  obtain ⟨span, _, hplaced⟩ := hstart.placed
  cases hplaced with
  | token _ _ _ _ hlexed => exact hlexed.decimal hk
  | stop hstop _ _ => cases hk.symm.trans hstop

/-- A token of a text denotes no double that is not a number. -/
theorem Token.isNaN_of_ofText {text : String} {tokens : List Token}
    (h : Token.ofText text = .ok tokens) {t : Token} (ht : t ∈ tokens) (hk : t.kind = .float)
    {x : Float} (hx : Decimal.readFloat? (Reader.digits t) = some x) : x.isNaN = false := by
  have point : '.' ∈ t.raw.toList := (Token.decimal_of_ofText h ht hk).point_mem
  exact Decimal.isNaN_readFloat (List.mem_filter.mpr ⟨point, by decide⟩) hx

section Written

def Literal.floats : Literal → List Float
  | .float x => [x]
  | _ => []

namespace Expr

mutual

def floats : Expr → List Float
  | .literal value => value.floats
  | .call _ args opts => listFloats args ++ keyedFloats opts
  | .array elements => listFloats elements
  | .hash pairs => pairFloats pairs
  | .cascade cases => caseFloats cases
  | .importCall _ args => keyedFloats args
  | _ => []

def listFloats : List Expr → List Float
  | [] => []
  | e :: es => floats e ++ listFloats es

def keyedFloats : List (String × Expr) → List Float
  | [] => []
  | (_, e) :: es => floats e ++ keyedFloats es

def pairFloats : List (Literal × Expr) → List Float
  | [] => []
  | (key, e) :: es => key.floats ++ floats e ++ pairFloats es

def caseFloats : List (Expr × Expr) → List Float
  | [] => []
  | (condition, result) :: es => floats condition ++ floats result ++ caseFloats es

end

end Expr

def Bound.floats : Bound → List Float
  | .int _ => []
  | .float x => [x]

def Domain.floats : Domain → List Float
  | .range min max _ => min.floats ++ max.floats
  | .values vs => vs.flatMap Literal.floats

/-- The doubles that are written in a declaration, those inside it apart. -/
def Input.floats (input : Input) : List Float := input.domain.toList.flatMap Domain.floats

/-- The doubles that are written in a schema: in its domains, and in its expressions. -/
def Schema.floats (s : Schema) : List Float :=
  (Input.families s.inputs).flatMap Input.floats ++
    (s.values.flatMap (·.expression.floats) ++ s.traits.flatMap (·.expression.floats))

variable (P : Float → Prop)

def Expr.AllFloats (e : Expr) : Prop := ∀ x ∈ e.floats, P x

def Input.AllFloats (inputs : List Input) : Prop :=
  ∀ input ∈ Input.families inputs, ∀ x ∈ input.floats, P x

/-- What holds of all doubles that the tokens of a phrase denote. -/
def ReadsFloats (p : List Token) : Prop :=
  ∀ t ∈ p, t.kind = .float → ∀ x, Decimal.readFloat? (Reader.digits t) = some x → P x

end Written

variable {P : Float → Prop}

namespace Expr

theorem forall_listFloats {es : List Expr} :
    (∀ x ∈ listFloats es, P x) ↔ ∀ e ∈ es, e.AllFloats P := by
  induction es with
  | nil => simp [listFloats]
  | cons e es ih => rw [listFloats, List.forall_mem_append, ih, List.forall_mem_cons, AllFloats]

theorem forall_keyedFloats {es : List (String × Expr)} :
    (∀ x ∈ keyedFloats es, P x) ↔ ∀ e ∈ es, e.2.AllFloats P := by
  induction es with
  | nil => simp [keyedFloats]
  | cons e es ih => rw [keyedFloats, List.forall_mem_append, ih, List.forall_mem_cons, AllFloats]

theorem forall_pairFloats {es : List (Literal × Expr)} :
    (∀ x ∈ pairFloats es, P x) ↔ ∀ e ∈ es, (∀ x ∈ e.1.floats, P x) ∧ e.2.AllFloats P := by
  induction es with
  | nil => simp [pairFloats]
  | cons e es ih =>
    rw [pairFloats, List.forall_mem_append, List.forall_mem_append, ih, List.forall_mem_cons,
      AllFloats]

theorem forall_caseFloats {es : List (Expr × Expr)} :
    (∀ x ∈ caseFloats es, P x) ↔ ∀ e ∈ es, e.1.AllFloats P ∧ e.2.AllFloats P := by
  induction es with
  | nil => simp [caseFloats]
  | cons e es ih =>
    rw [caseFloats, List.forall_mem_append, List.forall_mem_append, ih, List.forall_mem_cons,
      AllFloats, AllFloats]

theorem allFloats_call {function : String} {args : List Expr} {opts : List (String × Expr)} :
    (Expr.call function args opts).AllFloats P ↔
      (∀ a ∈ args, a.AllFloats P) ∧ ∀ o ∈ opts, o.2.AllFloats P := by
  rw [AllFloats, floats, List.forall_mem_append, forall_listFloats, forall_keyedFloats]

theorem AllFloats.none {e : Expr} (h : e.floats = []) : e.AllFloats P := by
  simp [AllFloats, h]

theorem AllFloats.float {x : Float} (hx : P x) : (Expr.float x).AllFloats P := by
  simpa [AllFloats, Expr.float, floats, Literal.floats] using hx

theorem AllFloats.apply {function : String} {args : List Expr} (h : ∀ a ∈ args, a.AllFloats P) :
    (Expr.apply function args).AllFloats P :=
  allFloats_call.mpr ⟨h, by simp⟩

end Expr

theorem Input.allFloats_cons {input : Input} {inputs : List Input} :
    Input.AllFloats P (input :: inputs) ↔
      (∀ x ∈ input.floats, P x) ∧ Input.AllFloats P input.children ∧ Input.AllFloats P inputs := by
  rw [AllFloats, families, family_eq, List.cons_append, List.forall_mem_cons,
    List.forall_mem_append]
  rfl

namespace ReadsFloats

variable {t : Token} {p q : List Token}

theorem left (h : ReadsFloats P (p ++ q)) : ReadsFloats P p :=
  fun t ht => h t (List.mem_append_left _ ht)

theorem right (h : ReadsFloats P (p ++ q)) : ReadsFloats P q :=
  fun t ht => h t (List.mem_append_right _ ht)

theorem tail (h : ReadsFloats P (t :: p)) : ReadsFloats P p :=
  fun t ht => h t (List.mem_cons_of_mem _ ht)

theorem head (h : ReadsFloats P (t :: p)) (hk : t.kind = .float) {x : Float}
    (hx : Decimal.readFloat? (Reader.digits t) = some x) : P x :=
  h t (List.mem_cons_self ..) hk x hx

end ReadsFloats

namespace Grammar

section Lists

variable {α : Type} {item : Phrase α} {Q : α → Prop}
  (h : ∀ p a, item p a → ReadsFloats P p → Q a)

include h

theorem Many.forall_mem_reads {p : List Token} {as : List α} (hp : Many item p as)
    (hreads : ReadsFloats P p) : ∀ a ∈ as, Q a := by
  induction hp with
  | nil => simp
  | cons ha _ ih => exact List.forall_mem_cons.mpr ⟨h _ _ ha hreads.left, ih hreads.right⟩

theorem Items.forall_mem_reads {p : List Token} {as : List α} (hp : Items item p as)
    (hreads : ReadsFloats P p) : ∀ a ∈ as, Q a := by
  induction hp with
  | nil => simp
  | last ha => simpa using h _ _ ha hreads
  | cons ha _ _ ih => exact List.forall_mem_cons.mpr ⟨h _ _ ha hreads.left, ih hreads.right.tail⟩

end Lists

structure Level.Floats (P : Float → Prop) (L : Level) : Prop where
  climb : ∀ least p e, L.climb least p e → ReadsFloats P p → e.AllFloats P
  negated : ∀ p e, L.negated p e → ReadsFloats P p → e.AllFloats P

section Levels

variable {imported : List String} {inner : Level} (h : inner.Floats P)

include h

theorem Keyed.allFloats (p : List Token) (o : String × Expr) (hp : Keyed inner p o)
    (hreads : ReadsFloats P p) : o.2.AllFloats P := by
  obtain ⟨_, hp⟩ := hp
  exact h.climb 0 _ _ hp hreads.tail

theorem Argument.allFloats (p : List Token) (a : Reader.Argument) (hp : Argument inner p a)
    (hreads : ReadsFloats P p) : a.value.AllFloats P := by
  cases hp with
  | positional hp => exact h.climb 0 _ _ hp hreads
  | keyed hp => exact Keyed.allFloats h _ _ hp hreads

theorem Arguments.allFloats {p : List Token} {args : List Expr} {opts : List (String × Expr)}
    (hp : Arguments inner p (args, opts)) (hreads : ReadsFloats P p) (function : String) :
    (Expr.call function args opts).AllFloats P := by
  obtain ⟨hitems, _, _⟩ := hp
  have each := hitems.forall_mem_reads (Argument.allFloats h) hreads.left
  rw [List.forall_mem_append, List.forall_mem_map, List.forall_mem_map] at each
  exact Expr.allFloats_call.mpr each

/-- The key of a hash is no double. -/
theorem HashPair.allFloats (p : List Token) (pair : Literal × Expr) (hp : HashPair inner p pair)
    (hreads : ReadsFloats P p) : (∀ x ∈ pair.1.floats, P x) ∧ pair.2.AllFloats P := by
  obtain ⟨hkey, hvalue⟩ := hp
  refine ⟨?_, h.climb 0 _ _ hvalue hreads.right⟩
  cases hkey <;> simp [Literal.floats]

theorem Primary.allFloats (hinfinity : P (1.0 / 0.0)) {p : List Token} {e : Expr}
    (hp : Primary imported inner p e) (hreads : ReadsFloats P p) : e.AllFloats P := by
  cases hp with
  | float hk hx => exact .float (hreads.head hk hx)
  | infinity _ _ => exact .float hinfinity
  | importCall _ _ _ _ hargs _ _ =>
    exact Expr.forall_keyedFloats.mpr
      (hargs.forall_mem_reads (Keyed.allFloats h) hreads.tail.tail.left)
  | call _ _ _ _ hargs => exact hargs.allFloats h hreads.tail.tail _
  | functionCall _ _ _ _ hargs => exact hargs.allFloats h hreads.tail.tail.tail.tail _
  | group _ hp _ => exact h.climb 0 _ _ hp hreads.left.tail
  | array _ hitems _ =>
    exact Expr.forall_listFloats.mpr (hitems.forall_mem_reads (h.climb 0) hreads.left.tail)
  | hash _ hitems _ =>
    exact Expr.forall_pairFloats.mpr
      (hitems.forall_mem_reads (HashPair.allFloats h) hreads.left.tail)
  | _ => exact .none rfl

theorem Indices.allFloats {e e' : Expr} {p : List Token} (hp : Indices inner e p e')
    (hreads : ReadsFloats P p) (he : e.AllFloats P) : e'.AllFloats P := by
  induction hp with
  | nil => exact he
  | cons _ hi _ _ ih =>
    have index := h.climb 0 _ _ hi hreads.left.tail
    exact ih hreads.right.tail (.apply (by simpa using ⟨he, index⟩))

theorem Operand.allFloats (hinfinity : P (1.0 / 0.0)) (p : List Token) (e : Expr)
    (hp : Operand imported inner p e) (hreads : ReadsFloats P p) : e.AllFloats P := by
  cases hp with
  | negation _ hp =>
    have operand := h.negated _ _ hp hreads.tail
    exact .apply (by simpa using ⟨.none rfl, operand⟩)
  | mk hp hq => exact hq.allFloats h hreads.right (hp.allFloats h hinfinity hreads.left)

theorem Binary.allFloats (hinfinity : P (1.0 / 0.0)) (least : Nat) (p : List Token) (e : Expr)
    (hp : Binary imported inner least p e) (hreads : ReadsFloats P p) : e.AllFloats P := by
  induction hp with
  | operand hp => exact Operand.allFloats h hinfinity _ _ hp hreads
  | operator _ _ _ hq ih =>
    have right := h.climb _ _ _ hq hreads.right.tail
    exact .apply (by simpa using ⟨ih hreads.left, right⟩)

end Levels

theorem levels_floats (hinfinity : P (1.0 / 0.0)) (imported : List String) (room : Nat) :
    (levels imported room).Floats P := by
  induction room with
  | zero => exact ⟨fun _ _ _ hp => hp.elim, fun _ _ hp => hp.elim⟩
  | succ room ih => exact ⟨Binary.allFloats ih hinfinity, Operand.allFloats ih hinfinity⟩

section Declarations

variable {expr : Phrase Expr} (h : ∀ p e, expr p e → ReadsFloats P p → e.AllFloats P)

include h

theorem Condition.allFloats (p : List Token) (e : Expr) (hp : Condition expr p e)
    (hreads : ReadsFloats P p) : e.AllFloats P := by
  cases hp with
  | named _ => exact .none rfl
  | plain hp _ => exact h _ _ hp hreads

theorem Conditions.allFloats {p : List Token} {es : List Expr} (hp : Conditions expr p es)
    (hreads : ReadsFloats P p) : ∀ e ∈ es, e.AllFloats P := by
  induction hp with
  | one hp _ => simpa using h _ _ hp hreads.left
  | cons hp _ _ ih => exact List.forall_mem_cons.mpr ⟨h _ _ hp hreads.left, ih hreads.right.tail⟩

theorem Case.allFloats (p : List Token) (c : Expr × Expr) (hp : Case expr p c)
    (hreads : ReadsFloats P p) : c.1.AllFloats P ∧ c.2.AllFloats P := by
  cases hp with
  | on _ hconditions hresult =>
    have each := hconditions.allFloats (Condition.allFloats h) hreads.left.tail
    exact ⟨.apply each, h _ _ hresult hreads.right⟩
  | base _ hresult => exact ⟨.none rfl, h _ _ hresult hreads.tail⟩

theorem Body.allFloats {p : List Token} {e : Expr} (hp : Body expr p e)
    (hreads : ReadsFloats P p) : e.AllFloats P := by
  cases hp with
  | expression _ hp => exact h _ _ hp hreads.tail
  | cascade _ hcases _ =>
    exact Expr.forall_caseFloats.mpr
      (hcases.forall_mem_reads (Case.allFloats h) hreads.left.tail)

theorem Declaration.allFloats (p : List Token) (d : Reader.Declaration)
    (hp : Declaration expr p d) (hreads : ReadsFloats P p) :
    (∀ v ∈ d.value?, v.expression.AllFloats P) ∧ ∀ t ∈ d.trait?, t.expression.AllFloats P := by
  cases hp with
  | value _ _ hbody =>
    refine ⟨fun v hv => ?_, fun t ht => by cases ht⟩
    cases hv
    exact hbody.allFloats h hreads.tail.tail
  | letValue _ _ hbody =>
    refine ⟨fun v hv => ?_, fun t ht => by cases ht⟩
    cases hv
    exact hbody.allFloats h hreads.tail.tail
  | trait _ _ _ hp =>
    refine ⟨fun v hv => (by cases hv), fun t ht => ?_⟩
    cases ht
    exact h _ _ hp hreads.tail.tail.tail

end Declarations

section Inputs

variable (hinfinity : P (1.0 / 0.0)) (hnegative : P (-(1.0 / 0.0)))

include hinfinity hnegative

theorem Bound.floats_read {p : List Token} {b : SchemaLang.Bound} (hp : Bound p b)
    (hreads : ReadsFloats P p) : ∀ x ∈ b.floats, P x := by
  cases hp with
  | integer _ _ => simp [SchemaLang.Bound.floats]
  | float hk hx => simpa [SchemaLang.Bound.floats] using hreads.head hk hx
  | infinity _ _ => simpa [SchemaLang.Bound.floats] using hinfinity
  | negative _ _ _ => simpa [SchemaLang.Bound.floats] using hnegative

theorem Domain.floats_read {p : List Token} {d : SchemaLang.Domain} (hp : Domain p d)
    (hreads : ReadsFloats P p) : ∀ x ∈ d.floats, P x := by
  cases hp with
  | values _ hitems _ =>
    have literal (p : List Token) (value : Literal) (hp : DomainLiteral p value)
        (hreads : ReadsFloats P p) : ∀ x ∈ value.floats, P x := by
      cases hp with
      | float hk hx => simpa [Literal.floats] using hreads.head hk hx
      | _ => simp [Literal.floats]
    have each := hitems.forall_mem_reads literal hreads.left.tail
    intro x hx
    obtain ⟨value, hvalue, hx⟩ := List.mem_flatMap.mp hx
    exact each value hvalue x hx
  | range hp _ hq _ =>
    exact List.forall_mem_append.mpr ⟨hp.floats_read hinfinity hnegative hreads.left,
      hq.floats_read hinfinity hnegative hreads.right.tail⟩

theorem Options.floats_read {type : InputType} {options options' : Reader.InputOptions}
    {p : List Token} (hp : Options type options p options') (hreads : ReadsFloats P p)
    (ho : ∀ d ∈ options.domain, ∀ x ∈ d.floats, P x) :
    ∀ d ∈ options'.domain, ∀ x ∈ d.floats, P x := by
  induction hp with
  | nil => exact ho
  | cons _ hsetting _ ih =>
    refine ih hreads.right ?_
    cases hsetting with
    | domain _ _ hdomain =>
      intro d hd
      cases hd
      exact hdomain.floats_read hinfinity hnegative hreads.left.tail.tail
    | index _ _ _ _ => exact ho

theorem InputDecl.allFloats {nested : Bool → Phrase (List Input)} {inArray : Bool}
    (hnested : ∀ inArray p inputs, nested inArray p inputs → ReadsFloats P p →
      Input.AllFloats P inputs)
    (p : List Token) (input : Input) (hp : InputDecl nested inArray p input)
    (hreads : ReadsFloats P p) :
    (∀ x ∈ input.floats, P x) ∧ Input.AllFloats P input.children := by
  obtain @⟨t, p, q, r, type, name, options, children, mode, _, hoptions, hblock, _⟩ := hp
  have domain := hoptions.floats_read hinfinity hnegative hreads.left.right (by simp)
  refine ⟨fun x hx => ?_, ?_⟩
  · obtain ⟨d, hd, hx⟩ := List.mem_flatMap.mp hx
    exact domain d (Option.mem_toList.mp hd) x hx
  · cases hblock with
    | none => simp [Input.AllFloats, Input.families]
    | some _ _ hp _ => exact hnested _ _ _ hp hreads.right.left.tail

theorem InputList.allFloats {nested : Bool → Phrase (List Input)}
    (hnested : ∀ inArray p inputs, nested inArray p inputs → ReadsFloats P p →
      Input.AllFloats P inputs)
    (inArray : Bool) (p : List Token) (inputs : List Input)
    (hp : InputList nested inArray p inputs) (hreads : ReadsFloats P p) :
    Input.AllFloats P inputs := by
  have each := hp.1.forall_mem_reads (InputDecl.allFloats hinfinity hnegative hnested) hreads
  clear hp hreads
  induction inputs with
  | nil => simp [Input.AllFloats, Input.families]
  | cons input inputs ih =>
    obtain ⟨⟨hown, hchildren⟩, hmore⟩ := List.forall_mem_cons.mp each
    exact Input.allFloats_cons.mpr ⟨hown, hchildren, ih hmore⟩

theorem Inputs.allFloats (room : Nat) (inArray : Bool) (p : List Token) (inputs : List Input)
    (hp : Inputs room inArray p inputs) (hreads : ReadsFloats P p) : Input.AllFloats P inputs := by
  induction room generalizing inArray p inputs with
  | zero =>
    exact InputList.allFloats hinfinity hnegative (fun _ _ _ hp => hp.elim) inArray p inputs hp
      hreads
  | succ room ih => exact InputList.allFloats hinfinity hnegative ih inArray p inputs hp hreads

/-- The doubles of a schema are such as its tokens denote, or infinities. -/
theorem Schema.forall_floats {limit : Nat} {p : List Token} {s : SchemaLang.Schema}
    (hp : Schema limit p s) (hreads : ReadsFloats P p) : ∀ x ∈ s.floats, P x := by
  obtain @⟨_, _, _, p, q, r, imports, inputs, decls, values, traits, _, _, _, hinputs, hdecls, _,
    hsorted⟩ := hp
  obtain ⟨rfl, rfl⟩ := sorted_iff.mp hsorted
  have expr := (levels_floats hinfinity (imports.flatMap Import.names) limit).climb 0
  have each := hdecls.forall_mem_reads (Declaration.allFloats expr) hreads.left.right
  refine List.forall_mem_append.mpr ⟨?_, List.forall_mem_append.mpr ⟨?_, ?_⟩⟩
  · obtain ⟨_, _, hlist, _⟩ := hinputs
    exact List.forall_mem_flatMap.mpr (Inputs.allFloats hinfinity hnegative _ _ _ _ hlist
      hreads.left.left.right.left.tail.tail)
  · refine List.forall_mem_flatMap.mpr fun v hv => ?_
    obtain ⟨d, hd, hvalue⟩ := List.mem_filterMap.mp hv
    exact (each d hd).1 v hvalue
  · refine List.forall_mem_flatMap.mpr fun t ht => ?_
    obtain ⟨d, hd, htrait⟩ := List.mem_filterMap.mp ht
    exact (each d hd).2 t htrait

end Inputs

end Grammar

/-- A schema that is read holds no double that is not a number. -/
theorem Source.isNaN_of_mem_floats {source : Source} {s : Schema} (h : source.schema = .ok s) :
    ∀ x ∈ s.floats, x.isNaN = false := by
  obtain ⟨tokens, htokens, hread⟩ := Source.schema_eq_ok_iff.mp h
  have derived := Reader.schema_eq_ok_iff.mp (Schema.ofTokensWithin_eq_ok_iff.mp hread)
  have infinity : (1.0 / 0.0 : Float).isNaN = false := by decide +kernel
  refine derived.forall_floats infinity (Decimal.isNaN_neg infinity) fun t ht hk x hx => ?_
  rw [body_ofList] at ht
  have token : t ∈ tokens := List.mem_of_mem_filter (List.takeWhile_subset _ ht)
  exact Token.isNaN_of_ofText htokens token hk hx

end SchemaLang
