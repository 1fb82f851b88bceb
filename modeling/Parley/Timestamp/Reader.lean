import Parley.Decimal
import Parley.Text
import Parley.Timestamp

/-!
# Reading moments

`Timestamp.ofText` reads a date, a time of day and an offset from universal time. It is lenient:
numbers may have fewer digits, white space may stand before numbers and signs, years may have a sign
and any number of digits. `Timestamp.toText` writes one of the forms that it reads.

A `Scan` consumes characters from the front of a text; its state is the characters that are left.
-/

namespace Parley

namespace Timestamp

open Decimal (isDigit valueOf)

/-- Why a text names no moment. -/
inductive Refusal where
  /-- The text ends too early. -/
  | short
  /-- A character that cannot stand where it does. -/
  | invalid
  /-- A number beyond its bounds, or a day that the calendar does not have. -/
  | outOfRange
  /-- Something stands behind the moment. -/
  | trailing
  /-- In universal time the moment lies outside the calendar. -/
  | impossible
  deriving DecidableEq, Repr

/-- The wording of a refusal. -/
def Refusal.message : Refusal → String
  | .short => "premature end of input"
  | .invalid => "input contains invalid characters"
  | .outOfRange => "input is out of range"
  | .trailing => "trailing input"
  | .impossible => "no possible date and time matching input"

/-- Consumes characters from the front of a text, or refuses the text. -/
abbrev Scan := StateT (List Char) (Except Refusal)

namespace Scan

/-- The next character. -/
def next : Scan Char := do
  match ← get with
  | [] => throw .short
  | c :: cs =>
    set cs
    return c

/-- Drops white space. -/
def skipBlanks : Scan Unit := modify Text.skipBlanks

/-- The digits at the front, at least one and at most `most` of them. -/
def digits (most : Nat) : Scan (List Char) := do
  match ← get with
  | [] => throw .short
  | c :: cs =>
    if isDigit c then
      let ds := ((c :: cs).take most).takeWhile isDigit
      set ((c :: cs).drop ds.length)
      return ds
    else throw .invalid

/-- White space, then a number of at most two digits between two bounds. -/
def field (low high : Nat) : Scan Nat := do
  skipBlanks
  let n := valueOf (← digits 2)
  if low ≤ n && n ≤ high then return n else throw .outOfRange

/-- All digits at the front, as a number up to `bound`. -/
def boundedNumber (bound : Nat) : Scan Nat := do
  let n := valueOf (← digits (← get).length)
  if n ≤ bound then return n else throw .outOfRange

/-- White space, then a year: up to four digits, or a sign and any number of digits, as long as the
year fits 32 bits. -/
def year : Scan Int := do
  skipBlanks
  match ← get with
  | '-' :: cs =>
    set cs
    return -((← boundedNumber (Nat.pow 2 31)) : Int)
  | '+' :: cs =>
    set cs
    return (← boundedNumber (Nat.pow 2 31 - 1))
  | _ => return valueOf (← digits 4)

/-- White space, then the character `c`. -/
def mark (c : Char) : Scan Unit := do
  skipBlanks
  if (← next) = c then pure () else throw .invalid

/-- The fraction of a second, in nanoseconds: a point and digits, of which nine count. -/
def fraction : Scan Nat := do
  match ← get with
  | '.' :: cs =>
    set cs
    let ds ← digits 9
    modify (List.dropWhile isDigit)
    return valueOf ds * Nat.pow 10 (9 - ds.length)
  | _ => return 0

/-- What stands between the date and the time. -/
def separator : Scan Unit := do
  let c ← next
  if c = 'T' || c = 't' || c = ' ' then pure () else throw .invalid

/-- The next two characters, which have to be digits. A single character at the end of the text is
too short if it is ASCII, and invalid otherwise. -/
def twoDigits : Scan (Char × Char) := do
  match ← get with
  | a :: b :: cs =>
    set cs
    if isDigit a && isDigit b then return (a, b) else throw .invalid
  | [a] => throw (if a.toNat < 128 then .short else .invalid)
  | [] => throw .short

/-- The offset behind its sign: two digits of hours and two of minutes, with colons and white space
between them; in seconds. -/
def offsetDigits : Scan Int := do
  let (h₁, h₂) ← twoDigits
  modify (List.dropWhile fun c ↦ c = ':' || Text.isBlank c)
  let (m₁, m₂) ← twoDigits
  let minutes := valueOf [m₁, m₂]
  if minutes < 60 then return (valueOf [h₁, h₂] * 3600 + minutes * 60 : Nat)
  else throw .outOfRange

/-- The character equals an upper-case letter, up to case. -/
def isLetter (upper c : Char) : Bool := c = upper || c = upper.toLower

/-- The text spells `UTC`, in any case; what stands behind it. -/
def afterUtc? : List Char → Option (List Char)
  | a :: b :: c :: cs =>
    if isLetter 'U' a && isLetter 'T' b && isLetter 'C' c then some cs else none
  | _ => none

/-- White space, then the offset from universal time, in seconds. -/
def offset : Scan Int := do
  skipBlanks
  match afterUtc? (← get) with
  | some cs =>
    set cs
    return 0
  | none =>
    let c ← next
    if isLetter 'Z' c then return 0
    else if c = '+' then offsetDigits
    else if c = '-' || c = '\u2212' then return -(← offsetDigits)
    else throw .invalid

/-- A time of day: its second and its nanoseconds. A second numbered 60 is a leap second. -/
def time : Scan (Nat × Nat) := do
  let hour ← field 0 23
  mark ':'
  let minute ← field 0 59
  mark ':'
  let second ← field 0 60
  let nano ← fraction
  let whole := hour * 3600 + minute * 60
  if second = 60 then return (whole + 59, nano + 1000000000) else return (whole + second, nano)

/-- A date: year, month and day. -/
def date : Scan (Int × Nat × Nat) := do
  let y ← year
  mark '-'
  let m ← field 1 12
  mark '-'
  let d ← field 1 31
  return (y, m, d)

/-- White space and the end of the text. -/
def finished : Scan Unit := do
  skipBlanks
  if (← get).isEmpty then pure () else throw .trailing

end Scan

/-- The moment of a local date and time, if there is one. -/
def ofLocal (ymd : Int × Nat × Nat) (clock : Nat × Nat) (offset : Int) :
    Except Refusal Timestamp := do
  match Day.ofParts? ymd.1 ymd.2.1 ymd.2.2 with
  | none => throw .outOfRange
  | some day =>
    if h : clock.1 < 86400 ∧ clock.2 < 2000000000 ∧ offset.natAbs < 86400 then
      match shift? ⟨day, clock.1, clock.2, h.1, h.2.1⟩ (-offset) with
      | some t => return t
      | none => throw .impossible
    else throw .outOfRange

/-- The parts of a text: date, time of day and offset. -/
def scan : Scan ((Int × Nat × Nat) × (Nat × Nat) × Int) := do
  let ymd ← Scan.date
  Scan.separator
  let clock ← Scan.time
  let seconds ← Scan.offset
  Scan.finished
  return (ymd, clock, seconds)

/-- The moment that a text names. -/
def ofText (s : String) : Except Refusal Timestamp := do
  let ((ymd, clock, seconds), _) ← scan.run s.toList
  ofLocal ymd clock seconds

end Timestamp

end Parley
