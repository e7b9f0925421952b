import SchemaLang.Proofs.Grammar.Operators
import SchemaLang.Proofs.Grammar.Schema

namespace SchemaLang.Grammar

variable {imported : List String}

/-- Every phrase of one level is a phrase of the other. -/
structure Level.Le (L M : Level) : Prop where
  climb : ∀ least p e, L.climb least p e → M.climb least p e
  negated : ∀ p e, L.negated p e → M.negated p e

section Steps

variable {L M : Level} (h : L.Le M)

include h

theorem Keyed.mono (p : List Token) (q : String × Expr) (hp : Keyed L p q) : Keyed M p q := by
  obtain ⟨hk, hp⟩ := hp
  exact .mk hk (h.climb 0 _ _ hp)

theorem Argument.mono (p : List Token) (a : Reader.Argument) (hp : Argument L p a) :
    Argument M p a := by
  cases hp with
  | positional hp => exact .positional (h.climb 0 _ _ hp)
  | keyed hp => exact .keyed (Keyed.mono h _ _ hp)

theorem Arguments.mono (p : List Token) (a : List Expr × List (String × Expr))
    (hp : Arguments L p a) : Arguments M p a := by
  obtain ⟨hp, hd, hc⟩ := hp
  exact .mk (Items.mono (Argument.mono h) hp) hd hc

theorem HashPair.mono (p : List Token) (q : Literal × Expr) (hp : HashPair L p q) :
    HashPair M p q := by
  obtain ⟨hp, hq⟩ := hp
  exact .mk hp (h.climb 0 _ _ hq)

theorem Primary.mono (p : List Token) (e : Expr) (hp : Primary imported L p e) :
    Primary imported M p e := by
  cases hp with
  | integer hk hn => exact .integer hk hn
  | float hk hx => exact .float hk hx
  | string hk => exact .string hk
  | boolean hk => exact .boolean hk
  | symbol hk => exact .symbol hk
  | infinity hk hi => exact .infinity hk hi
  | input hk hp => exact .input hk hp
  | inputPath hk hp => exact .inputPath hk hp
  | reference hk => exact .reference hk
  | ref hk href ho hn hc => exact .ref hk href ho hn hc
  | importCall hk href hi ho hp hd hc =>
    exact .importCall hk href hi ho (Items.mono (Keyed.mono h) hp) hd hc
  | call hk href hi ho hp => exact .call hk href hi ho (Arguments.mono h _ _ hp)
  | function hk ho hn hc => exact .function hk ho hn hc
  | functionCall hk ho hn hc hp => exact .functionCall hk ho hn hc (Arguments.mono h _ _ hp)
  | index hk ho hn hc => exact .index hk ho hn hc
  | group hk hp hc => exact .group hk (h.climb 0 _ _ hp) hc
  | array hk hp hc => exact .array hk (Items.mono (h.climb 0) hp) hc
  | hash hk hp hc => exact .hash hk (Items.mono (HashPair.mono h) hp) hc

theorem Indices.mono (e : Expr) (p : List Token) (e' : Expr) (hp : Indices L e p e') :
    Indices M e p e' := by
  induction hp with
  | nil => exact .nil
  | cons ho hp hc _ ih => exact .cons ho (h.climb 0 _ _ hp) hc ih

theorem Operand.mono (p : List Token) (e : Expr) (hp : Operand imported L p e) :
    Operand imported M p e := by
  cases hp with
  | negation ht hp => exact .negation ht (h.negated _ _ hp)
  | mk hp hq => exact .mk (Primary.mono h _ _ hp) (Indices.mono h _ _ _ hq)

theorem Binary.mono (least : Nat) (p : List Token) (e : Expr)
    (hp : Binary imported L least p e) : Binary imported M least p e := by
  induction hp with
  | operand hp => exact .operand (Operand.mono h _ _ hp)
  | operator ht hle _ hq ih => exact .operator ht hle ih (h.climb _ _ _ hq)

end Steps

theorem levels_succ_le (imported : List String) (room : Nat) :
    (levels imported room).Le (levels imported (room + 1)) := by
  induction room with
  | zero => exact ⟨fun _ _ _ hp => hp.elim, fun _ _ hp => hp.elim⟩
  | succ room ih => exact ⟨Binary.mono ih, Operand.mono ih⟩

theorem levels_le {room room' : Nat} (hle : room ≤ room') :
    (levels imported room).Le (levels imported room') := by
  induction hle with
  | refl => exact ⟨fun _ _ _ hp => hp, fun _ _ hp => hp⟩
  | step _ ih =>
    have next := levels_succ_le imported
    exact ⟨fun least p e hp => (next _).climb least p e (ih.climb least p e hp),
      fun p e hp => (next _).negated p e (ih.negated p e hp)⟩

/-- Operands with operators between them, in any order. -/
inductive Sequence (operand : Phrase Expr) : List Token → Prop
  | one {p : List Token} {e : Expr} : operand p e → Sequence operand p
  | snoc {t : Token} {op : Operator} {p q : List Token} {e : Expr} : Sequence operand p →
    t.kind = .operator op → operand q e → Sequence operand (p ++ t :: q)

theorem Sequence.append {operand : Phrase Expr} {t : Token} {op : Operator} {p q : List Token}
    (hp : Sequence operand p) (ht : t.kind = .operator op) (hq : Sequence operand q) :
    Sequence operand (p ++ t :: q) := by
  induction hq with
  | one hq => exact .snoc hp ht hq
  | snoc _ hu hr ih =>
    have whole := Sequence.snoc ih hu hr
    simpa only [List.append_assoc, List.cons_append] using whole

theorem Sequence.mono {operand operand' : Phrase Expr}
    (h : ∀ p e, operand p e → operand' p e) {p : List Token} (hp : Sequence operand p) :
    Sequence operand' p := by
  induction hp with
  | one hp => exact .one (h _ _ hp)
  | snoc _ ht hq ih => exact .snoc ih ht (h _ _ hq)

theorem Binary.sequence {room least : Nat} {p : List Token} {e : Expr}
    (hp : Binary imported (levels imported room) least p e) :
    Sequence (Operand imported (levels imported room)) p := by
  induction room generalizing least p e with
  | zero =>
    induction hp with
    | operand hp => exact .one hp
    | operator _ _ _ hq _ => exact hq.elim
  | succ room ih =>
    induction hp with
    | operand hp => exact .one hp
    | operator ht _ _ hq ihp =>
      refine Sequence.append ihp ht (Sequence.mono ?_ (ih hq))
      exact Operand.mono (levels_succ_le imported room)

/-- Two sides, each of any number of levels, around an operator that both bind more tightly. -/
theorem exists_climb_operator {room room' least : Nat} {t : Token} {op : Operator}
    {p q : List Token} {left right : Expr} (ht : t.kind = .operator op)
    (hle : least ≤ op.precedence)
    (hp : Binary imported (levels imported room) op.leftPrecedence p left)
    (hq : (levels imported room').climb op.rightPrecedence q right) :
    ∃ room'' e, (levels imported room'').climb least (p ++ t :: q) e := by
  have hp' := Binary.mono (levels_le (Nat.le_max_left room room')) _ _ _ hp
  have hq' := (levels_le (Nat.le_max_right room room')).climb _ _ _ hq
  exact ⟨max room room' + 1, _, .operator ht hle hp' hq'⟩

/-- An expression takes one more operator and operand. Where the operator binds more tightly than
the last one, it is the right side of that which takes them. -/
theorem exists_climb_snoc {room room' least : Nat} {t : Token} {op : Operator} {p q : List Token}
    {e right : Expr} (hp : (levels imported room).climb least p e) (ht : t.kind = .operator op)
    (hle : least ≤ op.precedence) (hq : Operand imported (levels imported room') q right) :
    ∃ room'' e', (levels imported room'').climb least (p ++ t :: q) e' := by
  have last : (levels imported (room' + 1)).climb op.rightPrecedence q right := .operand hq
  induction room generalizing least p e with
  | zero => exact hp.elim
  | succ room ih =>
    cases hp with
    | operand hp => exact exists_climb_operator ht hle (.operand hp) last
    | @operator _ u other p q' left right' hu hleast hl hr =>
      by_cases hloose : op.leftPrecedence ≤ other.precedence
      · exact exists_climb_operator ht hle (.operator hu hloose hl hr) last
      · have tight : other.rightPrecedence ≤ op.precedence :=
          Nat.not_lt.mp fun hlt => hloose ((op.leftPrecedence_le_iff other).mpr hlt)
        obtain ⟨room'', e', hmore⟩ := ih hr tight
        have whole := exists_climb_operator hu hleast hl hmore
        simpa only [List.append_assoc, List.cons_append] using whole

/-- With no bound on the levels, expressions are operands with operators between them. -/
theorem exists_expression_iff {imported : List String} {p : List Token} :
    (∃ room e, Expression imported room p e) ↔
      ∃ room, Sequence (Operand imported (levels imported room)) p := by
  constructor
  · intro hexpr
    obtain ⟨room, e, hp⟩ := hexpr
    cases room with
    | zero => exact hp.elim
    | succ room => exact ⟨room, Binary.sequence hp⟩
  · intro hsequence
    obtain ⟨room, hp⟩ := hsequence
    induction hp with
    | one hp => exact ⟨room + 1, _, .operand hp⟩
    | snoc _ ht hq ih =>
      obtain ⟨room', e, hp⟩ := ih
      exact exists_climb_snoc hp ht (Nat.zero_le _) hq

theorem InputList.mono {nested nested' : Bool → Phrase (List Input)}
    (h : ∀ inArray p is, nested inArray p is → nested' inArray p is) (inArray : Bool)
    (p : List Token) (is : List Input) (hp : InputList nested inArray p is) :
    InputList nested' inArray p is := by
  refine ⟨Many.mono ?_ hp.1, hp.2⟩
  intro _ _ hdecl
  obtain ⟨hp, hq, hr, haccess⟩ := hdecl
  cases hr with
  | none => exact .mk hp hq .none haccess
  | some hcontainer ho hb hc => exact .mk hp hq (.some hcontainer ho (h _ _ _ hb) hc) haccess

theorem inputs_succ_le (room : Nat) (inArray : Bool) (p : List Token) (is : List Input)
    (hp : Inputs room inArray p is) : Inputs (room + 1) inArray p is := by
  induction room generalizing inArray p is with
  | zero => exact InputList.mono (fun _ _ _ hp => hp.elim) inArray p is hp
  | succ room ih => exact InputList.mono ih inArray p is hp

theorem Case.mono {expr expr' : Phrase Expr} (h : ∀ p e, expr p e → expr' p e) (p : List Token)
    (c : Expr × Expr) (hp : Case expr p c) : Case expr' p c := by
  cases hp with
  | on ht hp hq => exact .on ht (hp.mono (Condition.mono h)) (h _ _ hq)
  | base ht hp => exact .base ht (h _ _ hp)

theorem Body.mono {expr expr' : Phrase Expr} (h : ∀ p e, expr p e → expr' p e) {p : List Token}
    {e : Expr} (hp : Body expr p e) : Body expr' p e := by
  cases hp with
  | expression hc hp => exact .expression hc (h _ _ hp)
  | cascade ho hp hc => exact .cascade ho (Many.mono (Case.mono h) hp) hc

theorem Declaration.mono {expr expr' : Phrase Expr} (h : ∀ p e, expr p e → expr' p e)
    (p : List Token) (d : Reader.Declaration) (hp : Declaration expr p d) :
    Declaration expr' p d := by
  cases hp with
  | value ht hn hp => exact .value ht hn (hp.mono h)
  | letValue ht hn hp => exact .letValue ht hn (hp.mono h)
  | trait ht hn hc hp => exact .trait ht hn hc (h _ _ hp)

/-- What nests within a limit nests within a higher one. -/
theorem Schema.mono {limit limit' : Nat} (hle : limit ≤ limit') {p : List Token}
    {s : SchemaLang.Schema} (hp : Schema limit p s) : Schema limit' p s := by
  induction hle with
  | refl => exact hp
  | @step limit' _ ih =>
    obtain ⟨ht, ho, himports, hq, hr, hc, hsorted⟩ := ih
    refine .mk ht ho himports ?_ (Many.mono (Declaration.mono ?_) hr) hc hsorted
    · obtain ⟨hk, ho, hp, hc⟩ := hq
      exact .mk hk ho (inputs_succ_le limit' _ _ _ hp) hc
    · exact (levels_succ_le _ limit').climb 0

end SchemaLang.Grammar
