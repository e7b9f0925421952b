import SchemaLang.Input.Basic
import SchemaLang.Reader.Basic

namespace SchemaLang

def Bound.isInfinite : Bound → Bool
  | .int _ => false
  | .float x => x.isInf

/-- Whether two bounds make a range: both integers, both floats, or one without end. -/
def Bound.agree : Bound → Bound → Bool
  | .int _, .int _ | .float _, .float _ => true
  | a, b => a.isInfinite || b.isInfinite

namespace Reader

def domainLiteral : Reader Literal
  | [] => fail [] .expectedDomainLiteral
  | t :: rest =>
    match t.kind with
    | .integer => do return .mk (.integer (← intValue t)) rest
    | .float => do return .mk (.float (← floatValue t)) rest
    | .string => .ok (.mk (.string t.raw) rest)
    | .symbol => .ok (.mk (.symbol t.raw) rest)
    | .boolean => .ok (.mk (.boolean (t.raw = "true")) rest)
    | _ => fail (t :: rest) .expectedDomainLiteral

/-- The bound without end, on the side that the sign tells. -/
def infinity (negative : Bool) : Reader Bound
  | [] => fail [] .expectedBound
  | t :: rest =>
    if t.kind = .constant ∧ t.raw = "Float::INFINITY" then
      .ok (.mk (.float (if negative then -(1.0 / 0.0) else 1.0 / 0.0)) rest)
    else fail (t :: rest) .expectedBound

/-- An end of a range. A minus of its own stands only before a constant. -/
def bound : Reader Bound
  | [] => fail [] .expectedBound
  | t :: rest =>
    match t.kind with
    | .integer => do return .mk (.int (← intValue t)) rest
    | .float => do return .mk (.float (← floatValue t)) rest
    | .operator .subtract =>
      if firstKind rest = .constant then do
        let ⟨b, rest, _⟩ ← infinity true rest
        return .mk b rest
      else fail (t :: rest) .expectedBound
    | _ => infinity false (t :: rest)

/-- The dots of a range. Three leave out its upper end. -/
def dots : Reader Bool
  | [] => fail [] .expectedDots
  | t :: rest =>
    match t.kind with
    | .mark .dotDot => .ok (.mk false rest)
    | .mark .dotDotDot => .ok (.mk true rest)
    | _ => fail (t :: rest) .expectedDots

/-- A range, or literals in brackets. Bounds that do not agree are refused at the lower one. -/
def domain : Reader Domain := fun ts =>
  match accept? (.mark .leftBracket) ts with
  | some ⟨_, rest, _⟩ => do
    let ⟨values, rest, _⟩ ← separated (.mark .rightBracket) (fun _ => domainLiteral) [] rest
    return .mk (.values values) rest
  | none => do
    let ⟨min, rest, _⟩ ← bound ts
    let ⟨exclusive, rest, _⟩ ← dots rest
    let ⟨max, rest, _⟩ ← bound rest
    if min.agree max then return .mk (.range min max exclusive) rest else fail ts .mixedRange

end Reader

end SchemaLang
