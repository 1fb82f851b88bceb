import Parley.Json.Reader

/-!
# Strings and numbers in a JSON text

Both readers start behind the byte that announced the literal: the opening quote of a string, the
minus sign of a negative number (a number without a sign starts at its first digit).

**Numbers.** Digits are gathered into a 64-bit significand and a decimal exponent; what does not
fit the significand only counts as a power of ten. The double is the significand, rounded, then
multiplied or divided by a power of ten, rounded again. So it is not always the double nearest to
the decimal, and this is the intended value.
-/

namespace Parley.Json.Reader

/-! ### Strings -/

/-- The value of a hexadecimal digit. -/
def hexValue? (b : UInt8) : Option Nat :=
  if 48 ≤ b && b ≤ 57 then some (b.toNat - 48)
  else if 65 ≤ b && b ≤ 70 then some (b.toNat - 55)
  else if 97 ≤ b && b ≤ 102 then some (b.toNat - 87)
  else none

/-- The value of four hexadecimal digits. -/
def hexValue4? (a b c d : UInt8) : Option Nat := do
  return ((← hexValue? a) * 16 + (← hexValue? b)) * 256 + (← hexValue? c) * 16 + (← hexValue? d)

/-- Four hexadecimal digits. -/
def hex4 : Reader Nat := do
  match ← rest with
  | a :: b :: c :: d :: left =>
    set left
    match hexValue4? a b c d with
    | some n => return n
    | none => failHere .invalidEscape
  | _ =>
    set ([] : List UInt8)
    failHere .endInString

/-- The next byte of a string, which stays. -/
def peekInString : Reader UInt8 := do
  match ← peek with
  | some b => return b
  | none => failHere .endInString

/-- Takes `b` away; a surrogate pair has to go on with it. -/
def pairContinues (b : UInt8) : Reader Unit := do
  let seen ← peekInString
  skip
  if seen = b then pure () else failHere .endOfHexEscape

/-- The character behind `\u`, from one escape or from the two of a surrogate pair. -/
def codePoint : Reader Char := do
  let n ← hex4
  if 0xDC00 ≤ n && n ≤ 0xDFFF then failHere .loneSurrogate
  else if 0xD800 ≤ n && n ≤ 0xDBFF then do
    pairContinues 92
    pairContinues 117
    let low ← hex4
    if 0xDC00 ≤ low && low ≤ 0xDFFF then
      return Char.ofNat (0x10000 + (n - 0xD800) * 0x400 + (low - 0xDC00))
    else failHere .loneSurrogate
  else return Char.ofNat n

/-- The byte that a backslash and one of these letters stand for. -/
def simpleEscape? (b : UInt8) : Option UInt8 :=
  if b = 34 then some 34
  else if b = 92 then some 92
  else if b = 47 then some 47
  else if b = 98 then some 8
  else if b = 102 then some 12
  else if b = 110 then some 10
  else if b = 114 then some 13
  else if b = 116 then some 9
  else none

/-- The bytes that an escape stands for, from behind its backslash. -/
def escaped : Reader (List UInt8) := do
  match ← next with
  | none => failHere .endInString
  | some b =>
    match simpleEscape? b with
    | some plain => return [plain]
    | none =>
      if b = 117 then return String.utf8EncodeChar (← codePoint) else failHere .invalidEscape

/-- A byte that stands for itself inside a string. -/
def isPlain (b : UInt8) : Bool := b != 34 && b != 92 && 32 ≤ b

/-- One stretch of a string: plain bytes and what follows them. The parts of the string that are
`done` are kept latest first. -/
def stretch (done : List (List UInt8)) : Reader (List (List UInt8) ⊕ List UInt8) := do
  let plain := (← rest).takeWhile isPlain
  modify (List.dropWhile isPlain)
  match ← next with
  | none => failHere .endInString
  | some 34 => return .inr (plain :: done).reverse.flatten
  | some 92 => return .inl ((← escaped) :: plain :: done)
  | some _ => failHere .controlCharacter

/-- Where the characters that stand one after the other from `start` on end: at the end of the
bytes, or at the first place where no character in UTF-8 begins. -/
def charactersEnd (bytes : ByteArray) (start : Nat) : Nat :=
  match h : bytes.utf8DecodeChar? start with
  | some c =>
    have : start < bytes.size := ByteArray.lt_size_of_isSome_utf8DecodeChar? (by rw [h]; rfl)
    have := c.utf8Size_pos
    charactersEnd bytes (start + c.utf8Size)
  | none => start
termination_by bytes.size - start

/-- A string, from behind its opening quote. If what it stands for is not UTF-8, the place of the
problem is found from the end of the string: as many bytes before it as the string stands for from
the first wrong one on. -/
def string : Reader String := do
  let bytes : ByteArray := ⟨(← loop stretch []).toArray⟩
  match String.fromUTF8? bytes with
  | some s => return s
  | none => throw ⟨.invalidCodePoint, some ((← rest).length + (bytes.size - charactersEnd bytes 0))⟩

/-! ### Numbers -/

/-- The greatest significand. -/
def significandBound : Nat := Nat.pow 2 64

/-- The value of a digit. -/
def digitValue (b : UInt8) : Nat := b.toNat - 48

/-- The power of ten, rounded to a double. -/
def powerOfTen (n : Nat) : Float := Float.ofScientific 1 false n

/-- Divides by a power of ten in steps of at most `10 ^ 308`. -/
def divideByPower (f : Float) (e : Nat) : Float :=
  if e ≤ 308 then f / powerOfTen e
  else if f == 0 then f
  else divideByPower (f / powerOfTen 308) (e - 308)
termination_by e

/-- The double `±significand · 10 ^ exponent`. -/
def scaled (negative : Bool) (significand : Nat) (exponent : Int) : Reader Number := do
  let signed (f : Float) : Number := .double (if negative then -f else f).toBits
  let f := significand.toUInt64.toFloat
  if exponent < 0 then return signed (divideByPower f exponent.natAbs)
  else if exponent ≤ 308 then
    let product := f * powerOfTen exponent.toNat
    if product.isInf then failHere .numberOutOfRange else return signed product
  else if f == 0 then return signed f
  else failHere .numberOutOfRange

/-- The digits of an exponent, from behind its first digit, as long as they fit 31 bits. -/
def exponentDigits : Nat → List UInt8 → Option Nat
  | e, [] => some e
  | e, d :: ds =>
    if Nat.pow 2 31 ≤ e * 10 + digitValue d then none else exponentDigits (e * 10 + digitValue d) ds

/-- The part of a number from its `e` on. -/
def exponentPart (negative : Bool) (significand : Nat) (start : Int) : Reader Number := do
  skip
  let downward ← (do
    match ← peek with
    | some 43 => skip; return false
    | some 45 => skip; return true
    | _ => return false : Reader Bool)
  match ← next with
  | none => failHere .endInValue
  | some first =>
    if isDigit first then
      let before ← rest
      let ds ← digits
      match exponentDigits (digitValue first) ds with
      | some e => scaled negative significand (if downward then start - e else start + e)
      | none =>
        if significand = 0 || downward then
          return .double (if negative then -(0 : Float) else 0).toBits
        else do
          set (before.drop (fitting (digitValue first) ds + 1))
          failHere .numberOutOfRange
    else failHere .invalidNumber
where
  /-- How many digits fit. -/
  fitting : Nat → List UInt8 → Nat
    | _, [] => 0
    | e, d :: ds =>
      if Nat.pow 2 31 ≤ e * 10 + digitValue d then 0 else fitting (e * 10 + digitValue d) ds + 1

/-- Takes digits into a significand as long as it fits 64 bits: the significand, how many digits
went in, and the digits that did not. -/
def gather : Nat → Nat → List UInt8 → Nat × Nat × List UInt8
  | s, n, [] => (s, n, [])
  | s, n, d :: ds =>
    if significandBound ≤ s * 10 + digitValue d then (s, n, d :: ds)
    else gather (s * 10 + digitValue d) (n + 1) ds

/-- The next byte is the `e` of an exponent. -/
def atExponent : Reader Bool := do
  let b ← peek
  return b = some 101 || b = some 69

/-- The part of a number from its point on. Digits that no longer fit the significand are
dropped. -/
def fractionPart (negative : Bool) (significand : Nat) (exponent : Int) : Reader Number := do
  skip
  let ds ← digits
  if ds.isEmpty then
    match ← peek with
    | some _ => failNext .invalidNumber
    | none => failNext .endInValue
  else
    let (s, n, _) := gather significand 0 ds
    let exponent := exponent - n
    if ← atExponent then exponentPart negative s exponent else scaled negative s exponent

/-- A number without point and exponent that fits the significand. -/
def wholeNumber (negative : Bool) (significand : Nat) : Number :=
  if negative then
    if significand = 0 || Nat.pow 2 63 < significand then
      .double (-(significand.toUInt64.toFloat)).toBits
    else .integer (-(significand : Int))
  else .integer significand

/-- A number, from behind its sign. -/
def number (negative : Bool) : Reader Number := do
  match ← next with
  | none => failHere .endInValue
  | some first =>
    if first = 48 then do
      if (← peek).any isDigit then failNext .invalidNumber else tail 0 0
    else if isDigit first then do
      let (s, _, surplus) := gather (digitValue first) 0 (← digits)
      tail s surplus.length
    else failHere .invalidNumber
where
  /-- What follows the digits before the point, `surplus` of which did not fit. -/
  tail (s surplus : Nat) : Reader Number := do
    match ← peek with
    | some 46 => fractionPart negative s surplus
    | _ =>
      if ← atExponent then exponentPart negative s surplus
      else if surplus = 0 then return wholeNumber negative s
      else scaled negative s surplus

end Parley.Json.Reader
