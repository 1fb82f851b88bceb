import Parley.Json.Document

/-!
# Decoders

A `Decoder α` says how an `α` is written in JSON, once for values that are at hand (`ofJson`) and
once for texts (`read`). The two accept the same documents, but they notice problems in a different
order: a value is looked at member by member in the order of names, a text from its front. The
decoders here cover the scalars, lists and enumerations; records are in `Parley.Decoder.Record`.
-/

namespace Parley

open Json

/-- How values of `α` are read, from a JSON value and from a text. -/
structure Decoder (α : Type) where
  /-- Decodes a value. -/
  ofJson : Json → Except Problem α
  /-- Reads from a text, in which some number of arrays and objects may still be opened. -/
  read : Nat → Reader α

namespace Decoder

variable {α β : Type}

/-- Turns what was decoded into something else. -/
def map (f : α → β) (d : Decoder α) : Decoder β where
  ofJson j := f <$> d.ofJson j
  read depth := f <$> d.read depth

/-- Reads a whole text. -/
def ofBytes (d : Decoder α) (text : List UInt8) : Except Complaint α :=
  (Reader.whole (d.read Reader.depthLimit)).onText text

/-! ### Values of an unexpected type -/

/-- A value of the wrong type. -/
def mismatch (expected : String) (j : Json) : Except Problem α :=
  .error (.invalidType (seen j) expected)

/-- The next value of a text, whose first byte is `b`, has the wrong type. A scalar is read first,
so a mistake in it comes before its type. -/
def readMismatch (expected : String) (b : UInt8) : Reader α := Reader.placed do
  let wrong (s : Seen) : Reader α := Reader.failUnplaced (.invalidType s expected)
  match b with
  | 110 => Reader.skip; Reader.word [117, 108, 108]; wrong .null
  | 116 => Reader.skip; Reader.word [114, 117, 101]; wrong (.bool true)
  | 102 => Reader.skip; Reader.word [97, 108, 115, 101]; wrong (.bool false)
  | 45 => Reader.skip; wrong (.number (← Reader.number true))
  | 34 => Reader.skip; wrong (.string (← Reader.string))
  | 91 => wrong .sequence
  | 123 => wrong .map
  | _ =>
    if Reader.isDigit b then wrong (.number (← Reader.number false))
    else Reader.failNext .expectedValue

/-- The first byte of a value. -/
def valueStart : Reader UInt8 := do
  match ← Reader.peekToken with
  | some b => return b
  | none => Reader.failNext .endInValue

/-! ### Scalars -/

/-- A string that `parse` accepts. -/
def parsedText (expected : String) (parse : String → Except Problem α) : Decoder α where
  ofJson
    | .string s => parse s
    | j => mismatch expected j
  read _ := Reader.placed do
    let b ← valueStart
    if b = 34 then
      Reader.skip
      match parse (← Reader.string) with
      | .ok a => return a
      | .error p => Reader.failUnplaced p
    else readMismatch expected b

/-- A string. -/
def text : Decoder String := parsedText "a string" .ok

/-- `true` or `false`. -/
def bool : Decoder Bool where
  ofJson
    | .bool b => .ok b
    | j => mismatch "a boolean" j
  read _ := Reader.placed do
    match ← valueStart with
    | 116 => Reader.skip; Reader.word [114, 117, 101]; return true
    | 102 => Reader.skip; Reader.word [97, 108, 115, 101]; return false
    | b => readMismatch "a boolean" b

/-- Only `null`. -/
def unit : Decoder Unit where
  ofJson
    | .null => .ok ()
    | j => mismatch "unit" j
  read _ := Reader.placed do
    match ← valueStart with
    | 110 => Reader.skip; Reader.word [117, 108, 108]
    | b => readMismatch "unit" b

/-- A number as a natural number below `bound`. -/
def naturalOf (bound : Nat) (expected : String) : Number → Except Problem Nat
  | .integer n =>
    if 0 ≤ n && n < bound then .ok n.toNat
    else .error (.invalidValue (.number (.integer n)) expected)
  | n => .error (.invalidType (.number n) expected)

/-- A natural number below `bound`. -/
def natural (bound : Nat) (expected : String) : Decoder Nat where
  ofJson
    | .number n => naturalOf bound expected n
    | j => mismatch expected j
  read _ := Reader.placed do
    let b ← valueStart
    let accept (n : Number) : Reader Nat :=
      match naturalOf bound expected n with
      | .ok k => pure k
      | .error p => Reader.failUnplaced p
    if b = 45 then
      Reader.skip
      accept (← Reader.number true)
    else if Reader.isDigit b then accept (← Reader.number false)
    else readMismatch expected b

/-- A natural number of eight bits. -/
def byte : Decoder Nat := natural (Nat.pow 2 8) "u8"

/-- A natural number of sixty-four bits. -/
def size : Decoder Nat := natural (Nat.pow 2 64) "usize"

/-- Any value, kept as it is. -/
def json : Decoder Json where
  ofJson := .ok
  read := Reader.value

/-! ### Lists and absent values -/

/-- An array whose items `d` reads. -/
def list (d : Decoder α) : Decoder (List α) where
  ofJson
    | .array items => items.mapM d.ofJson
    | j => mismatch "a sequence" j
  read depth := Reader.placed do
    let b ← valueStart
    if b = 91 then
      Reader.enclosed depth (fun inner ↦ Reader.items (d.read inner)) Reader.endList
    else readMismatch "a sequence" b

/-- `null`, or what `d` reads. -/
def nullable (d : Decoder α) : Decoder (Option α) where
  ofJson
    | .null => .ok none
    | j => some <$> d.ofJson j
  read depth := do
    match ← Reader.peekToken with
    | some 110 => Reader.skip; Reader.word [117, 108, 108]; return none
    | _ => some <$> d.read depth

/-- An array; `null` stands for the empty one. -/
def listOrNull (d : Decoder α) : Decoder (List α) := (nullable (list d)).map (·.getD [])

/-! ### Enumerations -/

/-- One of several words. A word stands alone or as the single member of an object, with the value
`null`. `parse` turns the word into what it names. -/
def oneOf (parse : String → Except Problem α) : Decoder α where
  ofJson
    | .string word => parse word
    | .object [(word, value)] => do
      let a ← parse word
      let _ ← unit.ofJson value
      return a
    | .object _ => .error (.invalidValue .map "map with a single key")
    | j => mismatch "string or map" j
  read depth := do
    let variant := (parsedText "variant identifier" parse).read depth
    match ← Reader.peekToken with
    | none => Reader.failNext .endInValue
    | some 34 => variant
    | some 123 => do
      let a ← Reader.enclosed depth (fun inner ↦ do
        if ← Reader.moveToMember true then
          let a ← variant
          Reader.colon
          let _ ← unit.read inner
          return a
        else Reader.failNext .expectedValue) (pure ())
      match ← Reader.peekToken with
      | some 125 => Reader.skip; return a
      | some _ => Reader.failHere .expectedValue
      | none => Reader.failHere .endInObject
    | some _ => Reader.failNext .expectedValue

/-- The entry of a table under a word; the message about another word lists the known ones. -/
def entryOf (table : List (String × α)) (word : String) : Except Problem α :=
  match KeyedList.find? word table with
  | some a => .ok a
  | none => .error (.unknownVariant word (table.map (·.1)))

end Decoder

end Parley
