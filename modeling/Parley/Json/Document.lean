import Parley.Json.Literal

/-!
# Reading JSON values

`Json.ofText` reads a whole text as one value. At most 127 arrays and objects may be open at once.
Members of an object are sorted by name as they come, and a later member of the same name takes the
place of an earlier one.
-/

namespace Parley.Json

namespace Reader

/-- A value that is neither array nor object, or what `list` and `object` make of those. -/
def valueWith (list object : Reader Json) : Reader Json := placed do
  match ← peekToken with
  | none => failNext .endInValue
  | some 110 => skip; word [117, 108, 108]; return .null
  | some 116 => skip; word [114, 117, 101]; return .bool true
  | some 102 => skip; word [97, 108, 115, 101]; return .bool false
  | some 45 => skip; return .number (← number true)
  | some 34 => skip; return .string (← string)
  | some 91 => list
  | some 123 => object
  | some b => if isDigit b then return .number (← number false) else failNext .expectedValue

/-- The members of an object up to its closing brace, sorted by name. -/
def members (value : Reader Json) : Reader (List (String × Json)) := do
  loop (fun (first, done) ↦ do
    if ← moveToMember first then
      skip
      let name ← string
      colon
      return .inl (false, KeyedList.put name (← value) done)
    else return .inr done) (true, ([] : List (String × Json)))

/-- Any value; `depth` arrays and objects may be opened inside one another. -/
def value : Nat → Reader Json
  | 0 => valueWith (failNext .tooDeep) (failNext .tooDeep)
  | depth + 1 =>
    valueWith
      (do return .array (← enclosed (depth + 1) (fun _ ↦ items (value depth)) endList))
      (do return .object (← enclosed (depth + 1) (fun _ ↦ members (value depth)) endObject))

/-- How many arrays and objects may be open at once. -/
def depthLimit : Nat := 127

/-- A whole text that `r` reads. -/
def whole {α : Type} (r : Reader α) : Reader α := do
  let a ← r
  finished
  return a

end Reader

/-- The value that a text holds. -/
def ofBytes (text : List UInt8) : Except Complaint Json :=
  (Reader.whole (Reader.value Reader.depthLimit)).onText text

/-- The value that a text holds. -/
def ofText (text : String) : Except Complaint Json := ofBytes text.toUTF8.toList

end Parley.Json
