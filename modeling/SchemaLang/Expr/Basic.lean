namespace SchemaLang

inductive Literal where
  | integer (value : Int64)
  | float (value : Float)
  | string (value : String)
  | boolean (value : Bool)
  | symbol (name : String)
  deriving Inhabited

inductive Expr where
  | literal (value : Literal)
  /-- `input.name` -/
  | input (name : String)
  /-- `input.a.b`, of two or more names -/
  | inputPath (path : List String)
  /-- The name of a value or a trait. -/
  | reference (name : String)
  /-- A function on positional arguments and on arguments that are given by key. -/
  | call (function : String) (args : List Expr) (opts : List (String × Expr))
  | array (elements : List Expr)
  | hash (pairs : List (Literal × Expr))
  /-- Conditions in the order they are tried, each with its result. -/
  | cascade (cases : List (Expr × Expr))
  /-- `index(:name)` -/
  | index (name : String)
  /-- A call of an imported function, all of whose arguments are given by key. -/
  | importCall (name : String) (args : List (String × Expr))
  deriving Inhabited

namespace Expr

def int (n : Int64) : Expr := .literal (.integer n)

def float (x : Float) : Expr := .literal (.float x)

def string (s : String) : Expr := .literal (.string s)

def boolean (b : Bool) : Expr := .literal (.boolean b)

def symbol (name : String) : Expr := .literal (.symbol name)

def apply (function : String) (args : List Expr) : Expr := .call function args []

end Expr

end SchemaLang
