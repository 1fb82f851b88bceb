import Parley.Fault
import Parley.Json.Problem

/-!
# Faults reported in words

A fault can also reach this library as a kind and a text. A text about JSON may end in a place; it
is then read as a remark at that place and worded like the complaints of this library: with plain
numbers, and without a place if the line is zero, since lines count from one.
-/

namespace Parley

namespace Json

/-- A text about JSON, and the place that it is about, if it names one. -/
structure Remark where
  text : String
  place : Option Place
  deriving DecidableEq, Repr

namespace Remark

/-- What follows a word at the front of a text. -/
def after? (word cs : List Char) : Option (List Char) :=
  if word.isPrefixOf cs then some (cs.drop word.length) else none

/-- A number of 64 bits in decimal digits at the front of a text, and what follows it. -/
def number? (cs : List Char) : Option (Nat × List Char) :=
  let ds := cs.takeWhile Decimal.isDigit
  let n := Decimal.valueOf ds
  if ds.isEmpty || Nat.pow 2 64 ≤ n then none else some (n, cs.dropWhile Decimal.isDigit)

/-- The place that a text names, if it consists of nothing else. -/
def place? (cs : List Char) : Option Place := do
  let (line, cs) ← number? (← after? Place.lineWord.toList cs)
  let (column, cs) ← number? (← after? Place.columnWord.toList cs)
  if cs.isEmpty then some ⟨line, column⟩ else none

/-- Splits a text into what comes before the place at its end, and the place. A place does not hold
another one, so there is at most one way to do so. -/
def split? : List Char → Option (List Char × Place)
  | [] => none
  | c :: cs =>
    match place? (c :: cs) with
    | some p => some ([], p)
    | none => (split? cs).map fun (before, p) ↦ (c :: before, p)

/-- The remark that a text makes. -/
def ofText (s : String) : Remark :=
  match split? s.toList with
  | some (before, p) => ⟨String.ofList before, if p.line = 0 then none else some p⟩
  | none => ⟨s, none⟩

/-- The wording of a remark. -/
def message (r : Remark) : String := r.text ++ (r.place.map Place.message).getD ""

end Remark

end Json

/-- The fault that somebody reports in words. -/
def Fault.ofReport (kind : Fault.Kind) (report : String) : Fault :=
  ⟨kind, if kind = .serialization then (Json.Remark.ofText report).message else report⟩

end Parley
