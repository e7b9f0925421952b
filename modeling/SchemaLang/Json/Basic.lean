namespace SchemaLang

/-- A JSON value. Whole numbers and doubles are kept apart, and the fields of an object keep their
order. -/
inductive Json where
  | null
  | bool (value : Bool)
  | int (value : Int)
  | float (value : Float)
  | str (value : String)
  | arr (items : List Json)
  | obj (fields : List (String × Json))
  deriving Inhabited

namespace Json

/-- A double as a JSON number, or null where JSON has no number for it. -/
def ofFloat (x : Float) : Json := if x.isFinite then .float x else .null

def ofNat (n : Nat) : Json := .int n

def field? (name : String) : Json → Option Json
  | .obj fields => fields.lookup name
  | _ => none

/-- A field that is left out when there is nothing to write. -/
def optional (name : String) (value : Option Json) : List (String × Json) :=
  (value.map (name, ·)).toList

def orNull (value : Option Json) : Json := value.getD .null

end Json

end SchemaLang
