import SchemaLang.Json.Basic

namespace SchemaLang.Json

/-- The fields of a record, in the order of their names: those of an object, whatever else it
holds, or the items of a list that has just as many. -/
def record? (names : List String) : Json → Option (List Json)
  | .obj fields => names.mapM fun name => fields.lookup name
  | .arr items => if items.length = names.length then some items else none
  | _ => none

def str? : Json → Option String
  | .str s => some s
  | _ => none

/-- A whole number that fits in 32 bits. -/
def word32? : Json → Option Nat
  | .int n => if 0 ≤ n ∧ n < UInt32.size then some n.toNat else none
  | _ => none

/-- A name, written as such or as the only key of an object, over null. -/
def tag? : Json → Option String
  | .str s => some s
  | .obj [(s, .null)] => some s
  | _ => none

end SchemaLang.Json
