import Parley.Json.Literal

/-!
# Passing over a value

A member that nobody asks for is passed over without building its value. The reader here is laxer
than the one that builds values: numbers may be out of range, strings need not be UTF-8, surrogates
need no partner, and there is no bound on the nesting. The brackets that are open are kept in a
list, the innermost first.
-/

namespace Parley.Json.Reader

/-- An open bracket. -/
inductive Bracket where
  | list
  | object
  deriving DecidableEq, Repr

/-- Where the reader stands inside the innermost bracket. -/
inductive Phase where
  /-- The bracket was just opened. -/
  | opened
  /-- A value inside the bracket has just ended. -/
  | ended
  deriving DecidableEq, Repr

/-- The brackets that are open, and where the reader stands. -/
structure Skipping where
  stack : List Bracket
  phase : Phase

/-- The rest of an escape, from behind its backslash. -/
def skipEscape : Reader Unit := do
  match ← next with
  | none => failHere .endInString
  | some b =>
    if b = 117 then let _ ← hex4
    else if (simpleEscape? b).isSome then pure ()
    else failHere .invalidEscape

/-- One stretch of a string: plain bytes and what follows them. -/
def skipStretch (_ : Unit) : Reader (Unit ⊕ Unit) := do
  modify (List.dropWhile isPlain)
  match ← peek with
  | none => failHere .endInString
  | some 34 => skip; return .inr ()
  | some 92 => skip; skipEscape; return .inl ()
  | some _ => failHere .controlCharacter

/-- A string, from behind its opening quote. -/
def skipString : Reader Unit := loop skipStretch ()

/-- The part of a number from its `e` on. -/
def skipExponent : Reader Unit := do
  skip
  match ← peek with
  | some 43 => skip
  | some 45 => skip
  | _ => pure ()
  match ← next with
  | none => failHere .invalidNumber
  | some b => if isDigit b then let _ ← digits else failHere .invalidNumber

/-- The digits before the point. -/
def skipWhole : Reader Unit := do
  match ← next with
  | some 48 => if (← peek).any isDigit then failNext .invalidNumber else pure ()
  | some b => if isDigit b then let _ ← digits else failHere .invalidNumber
  | none => failHere .invalidNumber

/-- The part of a number from its point on. -/
def skipFraction : Reader Unit := do
  skip
  if (← digits).isEmpty then failNext .invalidNumber else pure ()

/-- A number, from behind its sign. -/
def skipNumber : Reader Unit := do
  skipWhole
  if (← peek) = some 46 then skipFraction else pure ()
  if ← atExponent then skipExponent else pure ()

/-- The name of a member and its colon. -/
def skipName : Reader Unit := do
  match ← peekToken with
  | some 34 => skip
  | some _ => failNext .keyNotString
  | none => failNext .endInObject
  skipString
  colon

/-- What has to come before a value inside a bracket. -/
def enter : Bracket → Reader Unit
  | .list => pure ()
  | .object => skipName

/-- The state after a value has ended. -/
def Skipping.afterValue (stack : List Bracket) : Skipping ⊕ Unit :=
  if stack.isEmpty then .inr () else .inl ⟨stack, .ended⟩

/-- The byte that closes a bracket. -/
def Bracket.closer : Bracket → UInt8
  | .list => 93
  | .object => 125

/-- The text ends inside the bracket. -/
def Bracket.endProblem : Bracket → Problem
  | .list => .endInList
  | .object => .endInObject

/-- Neither a comma nor the closing bracket comes after a value. -/
def Bracket.commaProblem : Bracket → Problem
  | .list => .expectedListCommaOrEnd
  | .object => .expectedObjectCommaOrEnd

/-- A value starts with the byte `b`: a scalar is passed over, a bracket is opened. -/
def skipStart (stack : List Bracket) (b : UInt8) : Reader (Skipping ⊕ Unit) := do
  match b with
  | 110 => skip; word [117, 108, 108]; return Skipping.afterValue stack
  | 116 => skip; word [114, 117, 101]; return Skipping.afterValue stack
  | 102 => skip; word [97, 108, 115, 101]; return Skipping.afterValue stack
  | 45 => skip; skipNumber; return Skipping.afterValue stack
  | 34 => skip; skipString; return Skipping.afterValue stack
  | 91 => skip; return .inl ⟨.list :: stack, .opened⟩
  | 123 => skip; return .inl ⟨.object :: stack, .opened⟩
  | b =>
    if isDigit b then do
      skipNumber
      return Skipping.afterValue stack
    else failNext .expectedValue

/-- The next value inside the brackets that are open. -/
def skipNext (stack : List Bracket) : Reader (Skipping ⊕ Unit) := do
  match ← peekToken with
  | some b => skipStart stack b
  | none => failNext .endInValue

/-- One step: a value, or the bracket that closes, or a comma and a value. -/
def skipStep (s : Skipping) : Reader (Skipping ⊕ Unit) := do
  match s.stack with
  | [] => skipNext []
  | bracket :: outer =>
    match ← peekToken with
    | none => failNext bracket.endProblem
    | some b =>
      if b = bracket.closer then do
        skip
        return Skipping.afterValue outer
      else if s.phase = .opened then do
        enter bracket
        skipNext (bracket :: outer)
      else if b = 44 then do
        skip
        enter bracket
        skipNext (bracket :: outer)
      else failNext bracket.commaProblem

/-- Passes over one value. -/
def skipValue : Reader Unit := loop skipStep ⟨[], .opened⟩

end Parley.Json.Reader
