import Parley.Decoder
import Parley.Json.Skip

/-!
# Decoders of records

A record is written as an object, or as the array of its fields in their order. It is decoded by
filling in a blank record field by field: each field's decoder yields the change that it makes.

**Absent fields.** In an object a field may be left out unless it is `required`; in an array the
fields at the end may, if they are `defaulted`. Names that the record does not know are passed over.
In a text a name that comes twice is refused; `Json` values hold no name twice.
-/

namespace Parley

open Json

/-- Whether a field may be left out. -/
inductive Presence where
  /-- Never. -/
  | required
  /-- In an object, but not in an array. -/
  | optional
  /-- In an object, and in an array if all later fields are left out too. -/
  | defaulted
  deriving DecidableEq, Repr

/-- A field of a record of type `α`. -/
structure Field (α : Type) where
  name : String
  presence : Presence
  /-- Reads the field's value as the change that it makes to the record. -/
  decoder : Decoder (α → α)

/-- A field whose value `set` puts into the record. -/
def Field.of {α β : Type} (name : String) (presence : Presence) (d : Decoder β)
    (set : α → β → α) : Field α :=
  ⟨name, presence, d.map fun b a ↦ set a b⟩

/-- How a record of type `α` is written. -/
structure Record (α : Type) where
  /-- What messages call the record. -/
  title : String
  /-- The record before any field is read. -/
  blank : α
  fields : List (Field α)
  /-- Takes in members that are no fields; a record that does so is never written as an array. -/
  keep : Option (String → Json → α → α) := none

namespace Record

variable {α : Type}

/-- A record that is partly read, and the names that have been read. -/
structure Draft (α : Type) where
  value : α
  names : List String

/-- The record before any field is read. -/
def start (r : Record α) : Draft α := ⟨r.blank, []⟩

/-- The field with a name. -/
def field? (r : Record α) (name : String) : Option (Field α) :=
  r.fields.find? fun f ↦ f.name == name

/-- The draft after a field has been read. -/
def Draft.fill (d : Draft α) (name : String) (change : α → α) : Draft α :=
  ⟨change d.value, name :: d.names⟩

/-- A finished draft: every required field was read. -/
def finish (r : Record α) (d : Draft α) : Except Problem α :=
  match r.fields.find? fun f ↦ f.presence = .required && !d.names.contains f.name with
  | some f => .error (.missingField f.name)
  | none => .ok d.value

/-- The words for a record of the wrong length. -/
def lengthExpected (r : Record α) : String :=
  "struct " ++ r.title ++ " with " ++ Decimal.naturalText r.fields.length ++ " elements"

/-- The words for a value that is no record. -/
def expected (r : Record α) : String := "struct " ++ r.title

/-! ### From a value -/

/-- Takes in one member of an object. -/
def addMember (r : Record α) (d : Draft α) (member : String × Json) :
    Except Problem (Draft α) :=
  match r.field? member.1 with
  | some f => do
    if d.names.contains f.name then .error (.duplicateField f.name)
    else return d.fill f.name (← f.decoder.ofJson member.2)
  | none =>
    match r.keep with
    | some keep => .ok { d with value := keep member.1 member.2 d.value }
    | none => .ok d

/-- A record from the members of an object. -/
def ofMembers (r : Record α) (members : List (String × Json)) : Except Problem α := do
  r.finish (← members.foldlM r.addMember r.start)

/-- Fills the fields from left to right; `n` of them are filled already. -/
def fillFrom (r : Record α) : List (Field α) → List Json → Nat → α → Except Problem (α × Nat)
  | [], _, n, a => .ok (a, n)
  | f :: fs, [], n, a =>
    if f.presence = .defaulted then fillFrom r fs [] (n + 1) a
    else .error (.invalidLength n r.lengthExpected)
  | f :: fs, j :: js, n, a => do fillFrom r fs js (n + 1) ((← f.decoder.ofJson j) a)

/-- A record from the items of an array. -/
def ofItems (r : Record α) (items : List Json) : Except Problem α := do
  let (a, _) ← r.fillFrom r.fields items 0 r.blank
  if r.fields.length < items.length then
    .error (.invalidLength items.length "fewer elements in array")
  else return a

/-- A record from a value. -/
def ofJson (r : Record α) : Json → Except Problem α
  | .object members => r.ofMembers members
  | .array items =>
    if r.keep.isSome then Decoder.mismatch r.expected (.array items) else r.ofItems items
  | j => Decoder.mismatch r.expected j

/-! ### From a text -/

/-- Reads one member of an object, from behind the quote that opens its name. -/
def readMember (r : Record α) (depth : Nat) (d : Draft α) : Reader (Draft α) := do
  let name ← Reader.string
  match r.field? name with
  | some f =>
    if d.names.contains f.name then Reader.failUnplaced (.duplicateField f.name)
    else do
      Reader.colon
      return d.fill f.name (← f.decoder.read depth)
  | none =>
    Reader.colon
    match r.keep with
    | some keep =>
      let j ← Reader.value depth
      return { d with value := keep name j d.value }
    | none =>
      Reader.skipValue
      return d

/-- Reads the members of an object. -/
def readMembers (r : Record α) (depth : Nat) : Reader α := do
  let draft ← Reader.loop (fun (first, d) ↦ do
    if ← Reader.moveToMember first then
      Reader.skip
      return .inl (false, ← r.readMember depth d)
    else return .inr d) (true, r.start)
  match r.finish draft with
  | .ok a => return a
  | .error p => Reader.failUnplaced p

/-- Reads the items of an array into the fields from left to right. -/
def readItems (r : Record α) (depth : Nat) : List (Field α) → Nat → α → Reader α
  | [], _, a => pure a
  | f :: fs, n, a => do
    if ← Reader.moveToItem (n == 0) then
      let change ← f.decoder.read depth
      readItems r depth fs (n + 1) (change a)
    else if f.presence = .defaulted then readItems r depth fs (n + 1) a
    else Reader.failUnplaced (.invalidLength n r.lengthExpected)

/-- Reads a record. -/
def read (r : Record α) (depth : Nat) : Reader α := Reader.placed do
  match ← Decoder.valueStart with
  | 91 =>
    if r.keep.isSome then Decoder.readMismatch r.expected 91
    else Reader.enclosed depth (fun inner ↦ r.readItems inner r.fields 0 r.blank) Reader.endList
  | 123 => Reader.enclosed depth r.readMembers Reader.endObject
  | b => Decoder.readMismatch r.expected b

/-- The decoder of a record. -/
def decoder (r : Record α) : Decoder α := ⟨r.ofJson, r.read⟩

end Record

end Parley
