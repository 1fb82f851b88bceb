import Parley.Decimal
import Parley.OrderedMap

/-!
# JSON values

A number is an integer as long as it fits 64 bits, signed or unsigned, and otherwise a finite
double, kept as its bits. Objects that were read keep their members sorted by name, the last of
several members of one name; objects that are about to be printed keep the order in which they were
built.
-/

namespace Parley

/-- A JSON number. -/
inductive Number where
  /-- An integer that fits 64 bits, signed or unsigned. -/
  | integer (n : Int)
  /-- A finite double, by its bits. -/
  | double (bits : UInt64)
  deriving DecidableEq, Repr, Inhabited

/-- The text of a number. -/
def Number.text : Number → List Char
  | .integer n => Decimal.integerText n
  | .double bits => Decimal.doubleText bits

/-- A JSON value. -/
inductive Json where
  | null
  | bool (b : Bool)
  | number (n : Number)
  | string (s : String)
  | array (items : List Json)
  | object (members : List (String × Json))
  deriving Repr, Inhabited

namespace Json

/-- The number with the natural value `n`. -/
def count (n : Nat) : Json := .number (.integer n)

/-- The array of some strings. -/
def strings (l : List String) : Json := .array (l.map .string)

/-- A string, or `null` in its absence. -/
def stringOrNull (s : Option String) : Json := s.elim .null .string

/-- The member of an object under a name; other values have no members. -/
def member? (j : Json) (name : String) : Option Json :=
  match j with
  | .object members => KeyedList.find? name members
  | _ => none

end Json

end Parley
