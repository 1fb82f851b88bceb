import Parley.Json.Problem

/-!
# Reading a text byte by byte

A `Reader` consumes bytes from the front of a text. Its state is the bytes that are left, and it
keeps that state when it fails, because a failure without a place gets the place where the reader
around it stops. A place is noted as the number of bytes left there; `Reader.onText` turns that
number into lines and columns.

**One view.** What a reader does is `Reader.on`: bytes to an outcome and the bytes that are left.
The smallest readers have equations for it, and `Reader.on_bind` runs one reader after another.

**Loops are bounded.** `Reader.loop` gives its step one round for each byte that is left, and one
more; a step that goes on has consumed a byte, so the bound is never met.
-/

namespace Parley.Json

/-- A problem on the way through a text. -/
structure Failure where
  problem : Problem
  /-- How many bytes are left at its place, once it has one. -/
  left : Option Nat
  deriving DecidableEq, Repr

/-- Consumes bytes from the front of a text, or fails. -/
abbrev Reader (α : Type) := ExceptT Failure (StateM (List UInt8)) α

namespace Reader

variable {α : Type}

/-- The bytes that are left. -/
def rest : Reader (List UInt8) := get

/-- The next byte, which stays. -/
def peek : Reader (Option UInt8) := do return (← rest).head?

/-- Drops the next byte, if there is one. -/
def skip : Reader Unit := modify List.tail

/-- Takes the next byte away. -/
def next : Reader (Option UInt8) := do
  let b ← peek
  skip
  return b

/-- Fails at the place that has been reached. -/
def failHere (p : Problem) : Reader α := do throw ⟨p, some (← rest).length⟩

/-- Fails just behind the next byte, or at the end of the text. -/
def failNext (p : Problem) : Reader α := do throw ⟨p, some ((← rest).length - 1)⟩

/-- Fails without a place. -/
def failUnplaced (p : Problem) : Reader α := throw ⟨p, none⟩

/-- The outcome of a reader, which itself never fails. -/
def attempt (r : Reader α) : Reader (Except Failure α) := ExceptT.mk do return .ok (← r.run)

/-- Gives a failure without a place the place where `r` stopped. -/
def placed (r : Reader α) : Reader α := do
  match ← r.attempt with
  | .ok a => pure a
  | .error f => throw ⟨f.problem, some (f.left.getD (← rest).length)⟩

/-! ### What a reader does to the bytes -/

/-- What a reader makes of some bytes: its outcome, and the bytes that are left. -/
def on (r : Reader α) (bytes : List UInt8) : Except Failure α × List UInt8 := r.run.run bytes

@[simp] theorem on_pure (a : α) (bytes : List UInt8) :
    (pure a : Reader α).on bytes = (.ok a, bytes) := rfl

@[simp] theorem on_throw (f : Failure) (bytes : List UInt8) :
    (throw f : Reader α).on bytes = (.error f, bytes) := rfl

/-- What two readers in a row do to some bytes: the second starts where the first has stopped. -/
theorem on_bind {β : Type} (r : Reader α) (next : α → Reader β) (bytes : List UInt8) :
    (r >>= next).on bytes =
      match r.on bytes with
      | (.ok a, left) => (next a).on left
      | (.error f, left) => (.error f, left) := by
  simp only [on, ExceptT.run_bind, StateT.run_bind]
  rcases r.run.run bytes with ⟨_ | _, _⟩ <;> rfl

@[simp] theorem on_rest (bytes : List UInt8) : rest.on bytes = (.ok bytes, bytes) := rfl

@[simp] theorem on_peek (bytes : List UInt8) : peek.on bytes = (.ok bytes.head?, bytes) := rfl

@[simp] theorem on_skip (bytes : List UInt8) : skip.on bytes = (.ok (), bytes.tail) := rfl

@[simp] theorem on_next (bytes : List UInt8) : next.on bytes = (.ok bytes.head?, bytes.tail) := rfl

@[simp] theorem on_attempt (r : Reader α) (bytes : List UInt8) :
    r.attempt.on bytes = (.ok (r.on bytes).1, (r.on bytes).2) := rfl

/-! ### Loops -/

/-- Repeats a step until it has a result: at most once for each byte of `bound`, and once more. -/
def iterate {σ : Type} (step : σ → Reader (σ ⊕ α)) : List UInt8 → σ → Reader α
  | [], s => do
    match ← step s with
    | .inl _ => failHere .endInValue
    | .inr a => pure a
  | _ :: bound, s => do
    match ← step s with
    | .inl s' => iterate step bound s'
    | .inr a => pure a

/-- Repeats a step until it has a result. -/
def loop {σ : Type} (step : σ → Reader (σ ⊕ α)) (s : σ) : Reader α := do
  iterate step (← rest) s

/-! ### Tokens -/

/-- The four bytes that may stand between tokens. -/
def isBlank (b : UInt8) : Bool := b = 32 || b = 10 || b = 9 || b = 13

/-- The byte of a decimal digit. -/
def isDigit (b : UInt8) : Bool := 48 ≤ b && b ≤ 57

/-- Drops blanks; the byte behind them stays. -/
def peekToken : Reader (Option UInt8) := do
  modify (List.dropWhile isBlank)
  peek

/-- Takes the digits at the front away. -/
def digits : Reader (List UInt8) := do
  let ds := (← rest).takeWhile isDigit
  modify (List.dropWhile isDigit)
  return ds

/-- The bytes of a word are next; `expectedWord` otherwise. -/
def word : List UInt8 → Reader Unit
  | [] => pure ()
  | w :: ws => do
    match ← next with
    | none => failHere .endInValue
    | some b => if b = w then word ws else failHere .expectedWord

/-! ### Brackets -/

/-- Ends an array: only its closing bracket may follow. -/
def endList : Reader Unit := do
  match ← peekToken with
  | some 93 => skip
  | some 44 => do
    skip
    match ← peekToken with
    | some 93 => failNext .trailingComma
    | _ => failNext .trailingCharacters
  | some _ => failNext .trailingCharacters
  | none => failNext .endInList

/-- Ends an object: only its closing brace may follow. -/
def endObject : Reader Unit := do
  match ← peekToken with
  | some 125 => skip
  | some 44 => failNext .trailingComma
  | some _ => failNext .trailingCharacters
  | none => failNext .endInObject

/-- Moves to the next item of an array, over the comma unless it is the first; false at the closing
bracket, which stays. -/
def moveToItem (first : Bool) : Reader Bool := do
  match ← peekToken with
  | none => failNext .endInList
  | some 93 => return false
  | some b =>
    if first then return true
    else if b = 44 then do
      skip
      match ← peekToken with
      | some 93 => failNext .trailingComma
      | none => failNext .endInValue
      | some _ => return true
    else failNext .expectedListCommaOrEnd

/-- Moves to the next member of an object, over the comma unless it is the first; false at the
closing brace, which stays. -/
def moveToMember (first : Bool) : Reader Bool := do
  match ← peekToken with
  | none => failNext .endInObject
  | some 125 => return false
  | some b =>
    if first then if b = 34 then return true else failNext .keyNotString
    else if b = 44 then do
      skip
      match ← peekToken with
      | some 34 => return true
      | some 125 => failNext .trailingComma
      | some _ => failNext .keyNotString
      | none => failNext .endInValue
    else failNext .expectedObjectCommaOrEnd

/-- The colon between a name and its value. -/
def colon : Reader Unit := do
  match ← peekToken with
  | some 58 => skip
  | some _ => failNext .expectedColon
  | none => failNext .endInObject

/-- An array or object: its opening bracket, what `body` reads, and its end. The end is looked for
even if `body` fails, but the failure of `body` counts. `depth` is how many levels may still be
opened; `body` gets one less. -/
def enclosed (depth : Nat) (body : Nat → Reader α) (finish : Reader Unit) : Reader α := do
  match depth with
  | 0 => failNext .tooDeep
  | inner + 1 =>
    skip
    let outcome ← (body inner).attempt
    let ending ← finish.attempt
    match outcome, ending with
    | .ok a, .ok _ => pure a
    | .error f, _ => throw f
    | _, .error f => throw f

/-- The items of an array, up to its closing bracket. -/
def items (item : Reader α) : Reader (List α) :=
  loop (fun (done : List α) ↦ do
    if ← moveToItem done.isEmpty then return .inl ((← item) :: done)
    else return .inr done.reverse) []

/-- Reads a whole text. -/
def onText (r : Reader α) (text : List UInt8) : Except Complaint α :=
  match r.on text with
  | (.ok a, _) => .ok a
  | (.error f, left) =>
    let atEnd := f.left.getD left.length
    .error ⟨f.problem, Place.after (text.take (text.length - atEnd))⟩

/-- Nothing but blanks is left. -/
def finished : Reader Unit := do
  match ← peekToken with
  | none => pure ()
  | some _ => failNext .trailingCharacters

end Reader

end Parley.Json
