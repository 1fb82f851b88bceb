/-!
# Numbers in decimal digits

Integers are written with their decimal digits, without leading zeros, behind a minus sign if need
be. A finite double is kept as its 64 bits and written with the fewest digits that read back. The
text always shows that it is not an integer: it holds a point or an exponent.

**The shortest digits of a double.** A finite double is `m · 2 ^ q` with natural `m`. Every real
closer to it than to its neighbours reads back as it; the two midpoints do so exactly when `m` is
even. `Binary.shortest` looks for the coarsest decimal grid `10 ^ k` that has a point among those
reals and takes the point nearest to the double, the even one of two equally near.

Two candidates per grid suffice: if a grid has a point among those reals, then the grid's neighbours
of the double itself lie between that point and the double, so one of the two is among them as well.
-/

namespace Parley.Decimal

/-! ### Integers -/

/-- The decimal digits of a natural number. -/
def digitsOf (n : Nat) : List Char := Nat.toDigits 10 n

/-- A natural number in decimal digits. -/
def naturalText (n : Nat) : String := String.ofList (digitsOf n)

/-- An integer in decimal digits. -/
def integerText (n : Int) : List Char :=
  if n < 0 then '-' :: digitsOf n.natAbs else digitsOf n.natAbs

/-- The character is a decimal digit. -/
def isDigit (c : Char) : Bool := '0' ≤ c && c ≤ '9'

/-- The number that decimal digits stand for. -/
def valueOf (ds : List Char) : Nat := ds.foldl (fun n c ↦ n * 10 + (c.toNat - 48)) 0

/-! ### The shortest decimal of a double -/

/-- A finite double without its sign: `significand · 2 ^ exponent`. -/
structure Binary where
  /-- The integral significand. -/
  significand : Nat
  /-- The power of two that scales it. -/
  exponent : Int
  /-- The double below is nearer than the one above: the significand is the least of its binade. -/
  narrowBelow : Bool
  deriving DecidableEq, Repr

/-- Splits the 63 low bits of a finite double. -/
def Binary.ofBits (bits : UInt64) : Binary :=
  let biased : Nat := (bits.toNat / Nat.pow 2 52) % Nat.pow 2 11
  let fraction : Nat := bits.toNat % Nat.pow 2 52
  if biased = 0 then ⟨fraction, -1074, false⟩
  else ⟨Nat.pow 2 52 + fraction, (biased : Int) - 1075, fraction = 0 && 1 < biased⟩

/-- A positive decimal: `digits · 10 ^ exponent`. -/
structure Scaled where
  /-- The digits, read as one number. -/
  digits : Nat
  /-- The power of ten that scales them. -/
  exponent : Int
  deriving DecidableEq, Repr

/-- The nearest grid point of `10 ^ k` that reads back as `b`, if the grid has one. All four
quantities are scaled by the same power of two and of ten, so they are natural numbers. -/
def Binary.onGrid? (b : Binary) (k : Int) : Option Nat :=
  let twos : Int := b.exponent - 2
  let liftTwo := Nat.pow 2 twos.toNat
  let liftTen := Nat.pow 10 (-k).toNat
  let unit := liftTwo * liftTen
  let value := 4 * b.significand * unit
  let low := (4 * b.significand - if b.narrowBelow then 1 else 2) * unit
  let high := (4 * b.significand + 2) * unit
  let step := Nat.pow 2 (-twos).toNat * Nat.pow 10 k.toNat
  let inside (d : Nat) : Bool :=
    if b.significand % 2 = 0 then low ≤ d * step && d * step ≤ high
    else low < d * step && d * step < high
  let below := value / step
  let above := below + 1
  if inside below && inside above then
    let down := value - below * step
    let up := above * step - value
    some (if down < up then below else if up < down then above
      else if below % 2 = 0 then below else above)
  else if inside below then some below
  else if inside above then some above
  else none

/-- Searches the grids from `10 ^ k` down to finer ones. -/
def Binary.searchGrids (b : Binary) : Nat → Int → Scaled
  | 0, k => ⟨b.significand, k⟩
  | fuel + 1, k =>
    match b.onGrid? k with
    | some d => ⟨d, k⟩
    | none => b.searchGrids fuel (k - 1)

/-- The shortest decimal that reads back as `b`. The search starts one grid above the leading digit
of `b`; seventeen digits always suffice, so it ends within twenty-two grids. -/
def Binary.shortest (b : Binary) : Scaled :=
  let leadingBit : Int := (Nat.log2 b.significand : Int) + b.exponent
  b.searchGrids 24 (leadingBit * 30103 / 100000 + 2)

/-! ### Doubles as text -/

/-- How the digits of a double are laid out. -/
structure DoubleFormat where
  /-- The least decimal exponent written without an exponent part. -/
  leastFixed : Int
  /-- The greatest decimal exponent written without an exponent part. -/
  greatestFixed : Int

/-- Exponents from -5 to 15 are written out in digits; others follow an `e` with their sign. -/
def DoubleFormat.standard : DoubleFormat := ⟨-5, 15⟩

/-- Lays out `s`, whose leading digit stands for `10 ^ lead`. -/
def DoubleFormat.layout (f : DoubleFormat) (s : Scaled) : List Char :=
  let ds := digitsOf s.digits
  let lead : Int := s.exponent + ds.length - 1
  if f.leastFixed ≤ lead && lead ≤ f.greatestFixed then
    if lead < 0 then
      ['0', '.'] ++ List.replicate (-lead - 1).toNat '0' ++ ds
    else
      let whole := lead.toNat + 1
      if ds.length ≤ whole then ds ++ List.replicate (whole - ds.length) '0' ++ ['.', '0']
      else ds.take whole ++ '.' :: ds.drop whole
  else
    let mantissa :=
      match ds with
      | d :: e :: rest => d :: '.' :: e :: rest
      | short => short
    mantissa ++ 'e' :: (if lead < 0 then '-' else '+') :: digitsOf lead.natAbs

/-- The text of the finite double with these bits. -/
def doubleText (bits : UInt64) : List Char :=
  let b := Binary.ofBits bits
  let magnitude :=
    if b.significand = 0 then ['0', '.', '0'] else DoubleFormat.standard.layout b.shortest
  if bits.toNat < Nat.pow 2 63 then magnitude else '-' :: magnitude

end Parley.Decimal
