import SchemaLang.Expr.Basic

namespace SchemaLang

/-- Equality of literals. Floats are equal as numbers, so the two zeros are, and a NaN equals
nothing; an integer is never equal to a float. -/
def Literal.same : Literal → Literal → Bool
  | .integer m, .integer n => m == n
  | .float x, .float y => x == y
  | .string s, .string t => s == t
  | .boolean a, .boolean b => a == b
  | .symbol s, .symbol t => s == t
  | _, _ => false

namespace Expr

mutual

/-- Equality of expressions: the same shape, with equal literals at the leaves. -/
def same : Expr → Expr → Bool
  | .literal a, .literal b => a.same b
  | .input a, .input b => a == b
  | .inputPath a, .inputPath b => a == b
  | .reference a, .reference b => a == b
  | .call f as os, .call g bs ps => f == g && sameList as bs && sameKeyed os ps
  | .array as, .array bs => sameList as bs
  | .hash as, .hash bs => samePairs as bs
  | .cascade as, .cascade bs => sameCases as bs
  | .index a, .index b => a == b
  | .importCall f as, .importCall g bs => f == g && sameKeyed as bs
  | _, _ => false

def sameList : List Expr → List Expr → Bool
  | [], [] => true
  | a :: as, b :: bs => same a b && sameList as bs
  | _, _ => false

def sameKeyed : List (String × Expr) → List (String × Expr) → Bool
  | [], [] => true
  | (j, a) :: as, (k, b) :: bs => j == k && same a b && sameKeyed as bs
  | _, _ => false

def samePairs : List (Literal × Expr) → List (Literal × Expr) → Bool
  | [], [] => true
  | (j, a) :: as, (k, b) :: bs => j.same k && same a b && samePairs as bs
  | _, _ => false

def sameCases : List (Expr × Expr) → List (Expr × Expr) → Bool
  | [], [] => true
  | (c, a) :: as, (d, b) :: bs => same c d && same a b && sameCases as bs
  | _, _ => false

end

end Expr

end SchemaLang
