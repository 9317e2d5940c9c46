/-!
# JSON values

Attributes are free-form JSON, and the public types have JSON forms. An enumeration is written as
its tag, or as an object whose only field is the tag when the case carries something. A record is
written as an object and also read from an array of its fields in order; fields that a record does
not have are ignored.
-/

namespace SpectralAlgebra

inductive Json where
  | null
  | bool (b : Bool)
  | int (n : Int)
  | real (x : Float)
  | str (s : String)
  | arr (items : List Json)
  | obj (fields : List (String × Json))
  deriving Inhabited

namespace Json

def lookup (name : String) : List (String × Json) → Option Json
  | [] => none
  | (n, j) :: fields => if n = name then some j else lookup name fields

def string? : Json → Option String
  | .str s => some s
  | _ => none

def bool? : Json → Option Bool
  | .bool b => some b
  | _ => none

def float? : Json → Option Float
  | .int n => some (Float.ofInt n)
  | .real x => some x
  | _ => none

/-- A whole number of at most 64 bits and no sign. -/
def size? : Json → Option Nat
  | .int (.ofNat n) => if n < UInt64.size then some n else none
  | _ => none

/-- A double; JSON has no infinities and no NaN, which are written as null. -/
def ofFloat (x : Float) : Json :=
  if x.isFinite then .real x else .null

/-- A case of an enumeration: its tag and what it carries. -/
def variant? : Json → Option (String × Option Json)
  | .str tag => some (tag, none)
  | .obj [(tag, content)] => some (tag, some content)
  | _ => none

/-- Whether a case that carries nothing may stand with this content. -/
def isUnit : Option Json → Bool
  | none => true
  | some .null => true
  | some _ => false

def record? (names : List String) : Json → Option (List (Option Json))
  | .obj fields => some (names.map fun name => lookup name fields)
  | .arr items => if items.length = names.length then some (items.map some) else none
  | _ => none

end Json

end SpectralAlgebra
