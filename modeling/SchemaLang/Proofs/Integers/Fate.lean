import SchemaLang.Proofs.Integers.Numeral
import SchemaLang.Proofs.Reading.Expr
import SchemaLang.Proofs.Reading.Input

namespace SchemaLang

/-- Whether a token is an integer, with a minus in front or without one. -/
structure Token.IsInteger (negative : Bool) (t : Token) : Prop where
  kind : t.kind = .integer
  numeral : Numeral negative t.raw.toList

def Token.value (t : Token) : Int := Numeral.value t.raw.toList

namespace Reader

open Reading

variable {α β : Type}

/-- Where an integer may stand, and what is made of it there. -/
inductive Site : Type → Type
  | operand (imported : List String) (inner : Level) : Site Expr
  /-- An end of a range. -/
  | bound : Site Bound
  /-- One of the values of a domain. -/
  | domainValue : Site Literal

namespace Site

def literal : Site α → Int64 → α
  | .operand _ _ => .int
  | .bound => .int
  | .domainValue => .integer

def reader : Site α → Reader α
  | .operand imported inner => primary imported inner
  | .bound => Reader.bound
  | .domainValue => domainLiteral

/-- At each of them an integer is read in one way. -/
theorem reading_reader (site : Site α) {t : Token} (ht : t.kind = .integer) (rest : List Token) :
    reading site.reader (t :: rest) =
      match Decimal.readInt64? (digits t) with
      | some n => .ok (site.literal n, rest)
      | none => .error ⟨some t, .integerRange⟩ := by
  have step {result : Int64 → α} {atEnd : Cause} {next : Token → Except Cause (Reading α)}
      (h : next t = intStep t result) : take atEnd next (t :: rest) =
        match Decimal.readInt64? (digits t) with
        | some n => .ok (result n, rest)
        | none => .error ⟨some t, .integerRange⟩ := by
    rw [take, h, intStep]
    cases Decimal.readInt64? (digits t) <;> rfl
  cases site with
  | operand imported inner =>
    rw [reader, reading_primary]
    exact step (by rw [primaryStep, ht]; rfl)
  | bound =>
    rw [reader, reading_bound]
    exact step (by rw [boundStep, ht]; rfl)
  | domainValue =>
    rw [reader, reading_domainLiteral]
    exact step (by rw [domainStep, ht]; rfl)

variable (site : Site α) {negative : Bool} {t : Token} (ht : t.IsInteger negative)

include ht

theorem reading_of_toInt {n : Int64} (hn : n.toInt = t.value) (rest : List Token) :
    reading site.reader (t :: rest) = .ok (site.literal n, rest) := by
  rw [site.reading_reader ht.kind, digits, ht.numeral.readInt64?_of_toInt hn]

theorem reading_of_not_fits (hn : ¬FitsWord t.value) (rest : List Token) :
    reading site.reader (t :: rest) = .error ⟨some t, .integerRange⟩ := by
  rw [site.reading_reader ht.kind, digits, ht.numeral.readInt64?_of_not_fits hn]

end Site

/-- A place for an integer: its sign, and the tokens that follow it. -/
structure Gap where
  negative : Bool
  after : List Token

/-- The tokens with an integer in the gap. -/
def Gap.fill (gap : Gap) (front : List Token) (u : Token) : List Token := front ++ u :: gap.after

@[simp] theorem Gap.fill_nil (gap : Gap) (u : Token) : gap.fill [] u = u :: gap.after := rfl

@[simp] theorem Gap.fill_cons (gap : Gap) (t : Token) (front : List Token) (u : Token) :
    gap.fill (t :: front) u = t :: gap.fill front u := rfl

@[simp] theorem Gap.length_fill (gap : Gap) (front : List Token) (u : Token) :
    (gap.fill front u).length = front.length + (gap.after.length + 1) :=
  List.length_append

/-- Some integer fits each gap. -/
theorem Gap.exists_integer (gap : Gap) : ∃ u : Token, u.IsInteger gap.negative := by
  have zero : Lexical.Digits ['0'] := .last (by decide)
  cases h : gap.negative with
  | false => exact ⟨⟨.integer, "0", .start, none⟩, rfl, .plain zero⟩
  | true => exact ⟨⟨.integer, "-0", .start, none⟩, rfl, .minus zero⟩

/-- What a reading makes of an integer in a gap. -/
inductive Fate (gap : Gap) (x : Reading α) (front : List Token) : Prop
  /-- It stops before the integer. -/
  | before (a : α) (mid : List Token) :
    (∀ u : Token, u.IsInteger gap.negative → x (gap.fill front u) = .ok (a, gap.fill mid u)) →
    Fate gap x front
  /-- It is refused, and the integer has no part in that. -/
  | refused (fault : Fault) :
    (∀ u : Token, u.IsInteger gap.negative → x (gap.fill front u) = .error fault) →
    Fate gap x front
  /-- No integer may stand there. -/
  | misplaced (cause : Cause) : cause ≠ .integerRange →
    (∀ u : Token, u.IsInteger gap.negative →
      x (gap.fill front u) = .error ⟨some u, cause⟩) → Fate gap x front
  /-- The integer is read, and what is made of it is all that counts, but for the refusals that name
  its token. -/
  | read {β : Type} (site : Site β) (next : β → Except (Token → Fault) (α × List Token)) :
    (∀ u : Token, u.IsInteger gap.negative → x (gap.fill front u) = (do
      let q ← reading site.reader (u :: gap.after)
      (next q.1).mapError (· u))) → Fate gap x front

/-- The same of what follows a token before the integer, unless that token is refused. -/
inductive StepFate (gap : Gap) (front : List Token) : Except Cause (Reading α) → Prop
  | error {cause : Cause} : StepFate gap front (.error cause)
  | ok {x : Reading α} : Fate gap x front → StepFate gap front (.ok x)

/-- The kind of the token that stands first, which may be the integer. -/
def gapKind : List Token → Kind
  | [] => .integer
  | t :: _ => t.kind

variable {gap : Gap} {front : List Token}

theorem firstKind_fill {u : Token} (hu : u.IsInteger gap.negative) :
    firstKind (gap.fill front u) = gapKind front := by
  cases front with
  | nil => exact hu.kind
  | cons t front => rfl

/-- What stands before the integer gets shorter as it is read. -/
theorem length_lt_of_fill {n : List Token → Nat}
    {f : (ts : List Token) → Except Fault (Parsed α (n ts))} {mid : List Token} {a : α}
    (h : ∀ u : Token, u.IsInteger gap.negative →
      reading f (gap.fill front u) = .ok (a, gap.fill mid u)) :
    ∃ u : Token, u.IsInteger gap.negative ∧
      (gap.fill mid u).length < n (gap.fill front u) := by
  obtain ⟨u, hu⟩ := gap.exists_integer
  exact ⟨u, hu, reading_length (h u hu)⟩

namespace Fate

theorem congr {x y : Reading α} {mid : List Token} (h : Fate gap y mid)
    (hxy : ∀ u : Token, u.IsInteger gap.negative → x (gap.fill front u) = y (gap.fill mid u)) :
    Fate gap x front := by
  cases h with
  | before a mid h => exact .before a mid fun u hu => (hxy u hu).trans (h u hu)
  | refused fault h => exact .refused fault fun u hu => (hxy u hu).trans (h u hu)
  | misplaced cause hne h => exact .misplaced cause hne fun u hu => (hxy u hu).trans (h u hu)
  | read site next h => exact .read site next fun u hu => (hxy u hu).trans (h u hu)

theorem pure (a : α) : Fate gap (Pure.pure a) front := .before a front fun _ _ => rfl

theorem refuseAt (token : Option Token) (cause : Cause) :
    Fate gap (Reading.refuseAt token cause : Reading α) front :=
  .refused ⟨token, cause⟩ fun _ _ => rfl

theorem refuse {cause : Cause} (h : cause ≠ .integerRange) :
    Fate gap (Reading.refuse cause : Reading α) front := by
  cases front with
  | nil => exact .misplaced cause h fun _ _ => rfl
  | cons t front => exact .refused ⟨some t, cause⟩ fun _ _ => rfl

/-- Only a reading that stops before the integer leaves anything to be said of what follows it. -/
theorem bind {x : Reading α} {k : α → Reading β} (h : Fate gap x front)
    (hk : ∀ a mid, (∀ u : Token, u.IsInteger gap.negative →
      x (gap.fill front u) = .ok (a, gap.fill mid u)) → Fate gap (k a) mid) :
    Fate gap (x >>= k) front := by
  cases h with
  | before a mid h => exact (hk a mid h).congr fun u hu => bind_of_ok (h u hu)
  | refused fault h => exact .refused fault fun u hu => bind_of_error (h u hu)
  | misplaced cause hne h => exact .misplaced cause hne fun u hu => bind_of_error (h u hu)
  | read site next h =>
    refine .read site (fun a => next a >>= fun q => (k q.1 q.2).mapError fun f _ => f) ?_
    intro u hu
    rw [bind_apply, h u hu]
    cases reading site.reader (u :: gap.after) with
    | error fault => rfl
    | ok q =>
      change (next q.1).mapError (· u) >>= _ = Except.mapError (· u) (next q.1 >>= _)
      cases next q.1 with
      | error fault => rfl
      | ok r =>
        change k r.1 r.2 = ((k r.1 r.2).mapError _).mapError _
        cases k r.1 r.2 <;> rfl

theorem map {x : Reading α} {f : α → β} (h : Fate gap x front) :
    Fate gap (x >>= fun a => Pure.pure (f a)) front :=
  h.bind fun _ _ _ => .pure _

theorem lookKind {k : Kind → Reading β} (h : Fate gap (k (gapKind front)) front) :
    Fate gap (Reading.look firstKind >>= k) front :=
  h.congr fun u hu => by rw [look_bind, firstKind_fill hu]

theorem ifNext {kind : Kind} {yes : Token → Reading α} {no : Reading α} (hkind : kind ≠ .integer)
    (hyes : ∀ t rest, front = t :: rest → Fate gap (yes t) rest) (hno : Fate gap no front) :
    Fate gap (Reading.ifNext kind yes no) front := by
  by_cases hk : gapKind front = kind
  · cases front with
    | nil => exact absurd hk.symm hkind
    | cons t rest => exact (hyes t rest rfl).congr fun u _ => ifNext_of_eq hk _
  · refine hno.congr fun u hu => ifNext_of_ne ?_
    rwa [firstKind_fill hu]

theorem step {atEnd : Cause} {step : Token → Except Cause (Reading α)} {t : Token}
    {rest : List Token} (h : StepFate gap rest (step t)) :
    Fate gap (Reading.take atEnd step) (t :: rest) := by
  generalize hs : step t = y at h
  cases h with
  | @error cause =>
    refine .refused ⟨some t, cause⟩ fun u _ => ?_
    simp only [Gap.fill_cons, Reading.take, hs]
  | ok h => exact h.congr fun u _ => take_of_ok hs _

theorem take {atEnd : Cause} {step : Token → Except Cause (Reading α)} (cause : Cause)
    (hcause : cause ≠ .integerRange)
    (hint : ∀ u : Token, u.kind = .integer → step u = .error cause)
    (h : ∀ t rest, front = t :: rest → StepFate gap rest (step t)) :
    Fate gap (Reading.take atEnd step) front := by
  cases front with
  | nil =>
    refine .misplaced cause hcause fun u hu => ?_
    simp only [Gap.fill_nil, Reading.take, hint u hu.kind]
  | cons t rest => exact .step (h t rest rfl)

theorem site (site : Site α) : Fate gap (reading site.reader) [] := by
  refine .read site (fun a => .ok (a, gap.after)) fun u hu => ?_
  rw [Gap.fill_nil, site.reading_reader hu.kind]
  cases Decimal.readInt64? (digits u) <;> rfl

end Fate

theorem StepFate.int (t : Token) (result : Int64 → α) : StepFate gap front (intStep t result) := by
  unfold intStep
  split
  · exact .ok (.pure _)
  · exact .error

theorem StepFate.float (t : Token) (result : Float → α) :
    StepFate gap front (floatStep t result) := by
  unfold floatStep
  split
  · exact .ok (.pure _)
  · exact .error

theorem StepFate.ite {p : Prop} [Decidable p] {x y : Except Cause (Reading α)}
    (hx : StepFate gap front x) (hy : StepFate gap front y) :
    StepFate gap front (if p then x else y) := by
  split
  · exact hx
  · exact hy

theorem expect_fate {kind : Kind} (hkind : kind ≠ .integer) :
    Fate gap (reading (expect kind)) front := by
  rw [reading_expect]
  refine .take (.missing kind) nofun (fun u hu => ?_) fun t rest _ => ?_
  · exact if_neg fun h => hkind (h.symm.trans hu)
  · exact .ite (.ok (.pure t)) .error

theorem close_fate {kind : Kind} (hkind : kind ≠ .integer) (a : α) :
    Fate gap (reading (expect kind) >>= fun _ => pure a) front :=
  (expect_fate hkind).map

theorem isWord_of_integer {u : Token} (hu : u.kind = .integer) : u.isWord = false := by
  simp [Token.isWord, Token.hasWordKind, hu]

theorem symbol_fate : Fate gap (reading symbol) front := by
  rw [reading_symbol]
  refine .take .expectedSymbol nofun (fun u hu => ?_) fun t rest _ => ?_
  · simp [hu, isWord_of_integer hu]
  · exact .ite (.ok (.pure t.raw)) .error

/-- Items, each of which makes the same of an integer. -/
theorem separated_fate {close : Kind} (hclose : close ≠ .integer) {item : List α → Reader α}
    (h : ∀ earlier front, Fate gap (reading (item earlier)) front) (earlier : List α) :
    Fate gap (reading (separated close item earlier)) front := by
  induction hn : front.length using Nat.strongRecOn generalizing earlier front with
  | ind n ih =>
    rw [reading_separated]
    refine .lookKind ?_
    split
    · exact close_fate hclose _
    · apply (h earlier front).bind
      intro a mid hread
      obtain ⟨u, _, shorter⟩ := length_lt_of_fill hread
      refine .ifNext (by decide) (fun t more hmore => ?_) (close_fate hclose _)
      exact ih more.length (by simp [hmore] at shorter; omega) (a :: earlier) rfl

end Reader

end SchemaLang
