import SchemaLang.Decimal.Numeral
import SchemaLang.Reader.Fault

namespace SchemaLang

section Shorter

variable {t : Token} {ts rest after last : List Token}

theorem shorter_head : rest.length < (t :: rest).length := Nat.lt_succ_self _

theorem shorter_trans (h : rest.length < ts.length) (ha : after.length < rest.length) :
    after.length < ts.length := Nat.lt_trans ha h

theorem shorter_trans_two (h : rest.length < ts.length) (ha : after.length < rest.length)
    (hl : last.length < after.length) : last.length < ts.length :=
  shorter_trans h (shorter_trans ha hl)

theorem shorter_cons (ha : after.length < rest.length) : after.length < (t :: rest).length :=
  shorter_trans shorter_head ha

theorem shorter_cons_two {mid : List Token} (h : mid.length < rest.length)
    (ha : after.length < mid.length) (hl : last.length < after.length) :
    last.length < (t :: rest).length :=
  shorter_cons (shorter_trans_two h ha hl)

/-- What may take nothing follows what takes something. -/
theorem shorter_tail (h : rest.length < ts.length) (ha : after.length < rest.length + 1) :
    after.length < ts.length := Nat.lt_of_le_of_lt (Nat.le_of_lt_succ ha) h

end Shorter

/-- What is read from the front of some tokens, and the tokens left over. There are fewer than
`n` of those. -/
structure Parsed (α : Type) (n : Nat) where
  value : α
  rest : List Token
  -- From the tokens left over back to those at hand: one read for each step.
  shorter : rest.length < n := by
    first
      | exact shorter_head
      | (apply shorter_trans <;> assumption)
      | (apply shorter_cons <;> assumption)
      | (apply shorter_tail <;> assumption)
      | (apply shorter_trans_two <;> assumption)
      | (apply shorter_cons_two <;> assumption)
      | (repeat first
          | assumption
          | exact Nat.lt_succ_self _
          | exact Nat.lt_succ_of_lt (Nat.lt_succ_self _)
          | refine Nat.lt_of_le_of_lt (Nat.le_of_lt_succ (by assumption)) ?_
          | refine Nat.lt_trans (by assumption) ?_)

/-- Reads something from the front of a list of tokens, and takes at least one of them. -/
abbrev Reader (α : Type) := (ts : List Token) → Except Fault (Parsed α ts.length)

/-- Reads something from the front of a list of tokens, and may take none of them. -/
abbrev Tail (α : Type) := (ts : List Token) → Except Fault (Parsed α (ts.length + 1))

namespace Reader

def fail {α : Type} (ts : List Token) (cause : Cause) : Except Fault α :=
  .error ⟨ts.head?, cause⟩

/-- The kind of the first token; at the end, the kind of the end. -/
def firstKind : List Token → Kind
  | [] => .eof
  | t :: _ => t.kind

def expect (kind : Kind) : Reader Token
  | [] => fail [] (.missing kind)
  | t :: rest => if t.kind = kind then .ok (.mk t rest) else fail (t :: rest) (.missing kind)

/-- Takes a token of the given kind, if one stands first. -/
def accept? (kind : Kind) : (ts : List Token) → Option (Parsed Token ts.length)
  | [] => none
  | t :: rest => if t.kind = kind then some (.mk t rest) else none

def symbol : Reader String
  | [] => fail [] .expectedSymbol
  | t :: rest =>
    if t.kind = .symbol then .ok (.mk t.raw rest)
    else fail (t :: rest) (if t.isWord then .missingColon else .expectedSymbol)

/-- The digits of a number's token, without underscores. -/
def digits (t : Token) : List Char := t.raw.toList.filter (· ≠ '_')

def intValue (t : Token) : Except Fault Int64 :=
  match Decimal.readInt64? (digits t) with
  | some n => .ok n
  | none => fail [t] .integerRange

def floatValue (t : Token) : Except Fault Float :=
  match Decimal.readFloat? (digits t) with
  | some x => .ok x
  | none => fail [t] .invalidFloat

/-- Items with commas between them, and perhaps after the last, up to the closing token. An item
is read with the earlier ones in view, the latest first. -/
def separated {α : Type} (close : Kind) (item : List α → Reader α) (earlier : List α)
    (ts : List Token) : Except Fault (Parsed (List α) ts.length) :=
  if firstKind ts = close then do
    let ⟨_, rest, _⟩ ← expect close ts
    return .mk earlier.reverse rest
  else do
    let ⟨a, rest, _⟩ ← item earlier ts
    match accept? (.mark .comma) rest with
    | some ⟨_, rest, _⟩ =>
      let ⟨items, rest, _⟩ ← separated close item (a :: earlier) rest
      return .mk items rest
    | none =>
      let ⟨_, rest, _⟩ ← expect close rest
      return .mk (a :: earlier).reverse rest
termination_by ts.length
decreasing_by omega

end Reader

end SchemaLang
