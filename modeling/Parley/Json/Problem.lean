import Parley.Json
import Parley.Text

/-!
# What can be wrong with a JSON text or value

`Problem` lists the causes for which reading a text or decoding a value fails, and
`Problem.message` words them. A cause found in a text comes with the place where it was noticed;
`Place.ofOffset` counts lines from one and bytes from the last line break.
-/

namespace Parley.Json

/-- What a value is, as a message about an unexpected value names it. -/
inductive Seen where
  | null
  | bool (b : Bool)
  | number (n : Number)
  | string (s : String)
  | sequence
  | map
  deriving DecidableEq, Repr

/-- Why a JSON text cannot be read, or a JSON value not be decoded. -/
inductive Problem where
  /-- The text ends inside an array. -/
  | endInList
  /-- The text ends inside an object. -/
  | endInObject
  /-- The text ends inside a string. -/
  | endInString
  /-- The text ends where a value has to be. -/
  | endInValue
  | expectedColon
  | expectedListCommaOrEnd
  | expectedObjectCommaOrEnd
  /-- A word other than `null`, `true` and `false`. -/
  | expectedWord
  | expectedValue
  | invalidEscape
  | invalidNumber
  /-- A number too large for a double. -/
  | numberOutOfRange
  /-- The bytes of a string are not UTF-8. -/
  | invalidCodePoint
  | controlCharacter
  | keyNotString
  /-- Half of a surrogate pair. -/
  | loneSurrogate
  | trailingComma
  | trailingCharacters
  /-- A leading surrogate without a second escape. -/
  | endOfHexEscape
  /-- Arrays and objects are nested too deeply. -/
  | tooDeep
  | missingField (name : String)
  | duplicateField (name : String)
  | unknownVariant (name : String) (known : List String)
  | invalidType (seen : Seen) (expected : String)
  | invalidValue (seen : Seen) (expected : String)
  | invalidLength (n : Nat) (expected : String)
  /-- A string whose content was refused, with the reason. -/
  | refusedText (reason : String)
  deriving DecidableEq, Repr

/-- How messages name the value. -/
def Seen.describe : Seen → String
  | .null => "null"
  | .bool true => "boolean `true`"
  | .bool false => "boolean `false`"
  | .number (.integer n) => "integer `" ++ String.ofList (Number.integer n).text ++ "`"
  | .number (.double bits) => "floating point `" ++ String.ofList (Number.double bits).text ++ "`"
  | .string s => "string " ++ Text.quoted s
  | .sequence => "sequence"
  | .map => "map"

/-- The words with a grave accent on either side, separated by commas. -/
def listed (words : List String) : String := ", ".intercalate (words.map fun w ↦ "`" ++ w ++ "`")

/-- The wording of a problem, without its place. -/
def Problem.message : Problem → String
  | .endInList => "EOF while parsing a list"
  | .endInObject => "EOF while parsing an object"
  | .endInString => "EOF while parsing a string"
  | .endInValue => "EOF while parsing a value"
  | .expectedColon => "expected `:`"
  | .expectedListCommaOrEnd => "expected `,` or `]`"
  | .expectedObjectCommaOrEnd => "expected `,` or `\x7d`"
  | .expectedWord => "expected ident"
  | .expectedValue => "expected value"
  | .invalidEscape => "invalid escape"
  | .invalidNumber => "invalid number"
  | .numberOutOfRange => "number out of range"
  | .invalidCodePoint => "invalid unicode code point"
  | .controlCharacter => "control character (\\u0000-\\u001F) found while parsing a string"
  | .keyNotString => "key must be a string"
  | .loneSurrogate => "lone leading surrogate in hex escape"
  | .trailingComma => "trailing comma"
  | .trailingCharacters => "trailing characters"
  | .endOfHexEscape => "unexpected end of hex escape"
  | .tooDeep => "recursion limit exceeded"
  | .missingField name => "missing field `" ++ name ++ "`"
  | .duplicateField name => "duplicate field `" ++ name ++ "`"
  | .unknownVariant name known =>
    "unknown variant `" ++ name ++ "`, expected one of " ++ listed known
  | .invalidType seen expected => "invalid type: " ++ seen.describe ++ ", expected " ++ expected
  | .invalidValue seen expected => "invalid value: " ++ seen.describe ++ ", expected " ++ expected
  | .invalidLength n expected =>
    "invalid length " ++ Decimal.naturalText n ++ ", expected " ++ expected
  | .refusedText reason => reason

/-- A place in a text. -/
structure Place where
  /-- The line, from one. -/
  line : Nat
  /-- The bytes since the last line break. -/
  column : Nat
  deriving DecidableEq, Repr

/-- The place just behind some bytes. -/
def Place.after (bytes : List UInt8) : Place :=
  bytes.foldl (fun p b ↦ if b = 10 then ⟨p.line + 1, 0⟩ else ⟨p.line, p.column + 1⟩) ⟨1, 0⟩

/-- What comes before the line of a place. -/
def Place.lineWord : String := " at line "

/-- What comes before the column of a place. -/
def Place.columnWord : String := " column "

/-- The wording of a place, behind the wording of what was found there. -/
def Place.message (p : Place) : String :=
  lineWord ++ Decimal.naturalText p.line ++ columnWord ++ Decimal.naturalText p.column

/-- A problem that was found in a text. -/
structure Complaint where
  problem : Problem
  place : Place
  deriving DecidableEq, Repr

/-- The wording of a problem in a text, with its place. -/
def Complaint.message (c : Complaint) : String := c.problem.message ++ c.place.message

/-- How messages about an unexpected value name `j`. -/
def seen : Json → Seen
  | .null => .null
  | .bool b => .bool b
  | .number n => .number n
  | .string s => .string s
  | .array _ => .sequence
  | .object _ => .map

end Parley.Json
