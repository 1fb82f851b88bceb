/-!
# Moments of time

A `Timestamp` is a moment in coordinated universal time, to the nanosecond: a day of the proleptic
Gregorian calendar, a second of that day, and the nanoseconds of that second. A leap second is the
second before it with a billion nanoseconds more.

**Order.** `Timestamp.rank` maps moments to integers, later moments to larger ones, and different
moments to different ones (`Timestamp.rank_injective`). The order of moments is that of ranks.

**Days without a day count.** Only the neighbours of a day are ever needed, for converting local
time; `Day.next?` and `Day.previous?` give them within the calendar's range.
-/

namespace Parley

/-! ### Days -/

/-- The first year of the calendar. -/
def leastYear : Int := -262143

/-- The last year of the calendar. -/
def greatestYear : Int := 262142

/-- The year has a 29th of February. -/
def isLeapYear (year : Int) : Bool :=
  year % 4 = 0 && (year % 100 != 0 || year % 400 = 0)

/-- How many days a month has; none if there is no such month. -/
def daysIn (year : Int) (month : Nat) : Nat :=
  match month with
  | 1 | 3 | 5 | 7 | 8 | 10 | 12 => 31
  | 4 | 6 | 9 | 11 => 30
  | 2 => if isLeapYear year then 29 else 28
  | _ => 0

/-- The numbers name a day of the calendar. -/
def IsDay (year : Int) (month day : Nat) : Prop :=
  leastYear ≤ year ∧ year ≤ greatestYear ∧ 1 ≤ day ∧ day ≤ daysIn year month

instance (year : Int) (month day : Nat) : Decidable (IsDay year month day) :=
  inferInstanceAs (Decidable (_ ∧ _ ∧ _ ∧ _))

/-- No month is longer than 31 days. -/
theorem daysIn_le (year : Int) (month : Nat) : daysIn year month ≤ 31 := by
  unfold daysIn
  split
  case h_12 => split <;> omega
  all_goals omega

/-- A month that has days is one of the twelve. -/
theorem month_le_of_daysIn_pos {year : Int} {month : Nat} (h : 0 < daysIn year month) :
    month ≤ 12 := by
  unfold daysIn at h
  split at h
  case h_13 => omega
  all_goals omega

/-- A day of the calendar. -/
structure Day where
  year : Int
  month : Nat
  day : Nat
  isDay : IsDay year month day
  deriving DecidableEq, Repr

namespace Day

/-- The day with these numbers, if the calendar has it. -/
def ofParts? (year : Int) (month day : Nat) : Option Day :=
  if h : IsDay year month day then some ⟨year, month, day, h⟩ else none

/-- The day after, if the calendar has it. -/
def next? (d : Day) : Option Day :=
  ofParts? d.year d.month (d.day + 1) <|> ofParts? d.year (d.month + 1) 1 <|>
    ofParts? (d.year + 1) 1 1

/-- The day before, if the calendar has it. -/
def previous? (d : Day) : Option Day :=
  ofParts? d.year d.month (d.day - 1) <|>
    ofParts? d.year (d.month - 1) (daysIn d.year (d.month - 1)) <|> ofParts? (d.year - 1) 12 31

theorem month_le (d : Day) : d.month ≤ 12 :=
  month_le_of_daysIn_pos (Nat.lt_of_lt_of_le d.isDay.2.2.1 d.isDay.2.2.2)

theorem day_le (d : Day) : d.day ≤ 31 :=
  Nat.le_trans d.isDay.2.2.2 (daysIn_le d.year d.month)

end Day

/-! ### Moments -/

/-- A moment of time. -/
structure Timestamp where
  day : Day
  /-- The second of the day. -/
  second : Nat
  /-- The nanoseconds since that second; a billion and more within a leap second. -/
  nano : Nat
  second_lt : second < 86400
  nano_lt : nano < 2000000000
  deriving DecidableEq, Repr

namespace Timestamp

/-- The place of a moment among all moments. -/
def rank (t : Timestamp) : Int :=
  (((t.day.year * 16 + t.day.month) * 32 + t.day.day) * 86400 + t.second) * 2000000000 + t.nano

/-- Moments of the same rank are the same: the rank tells day, second and nanosecond apart. -/
theorem rank_injective {s t : Timestamp} (h : s.rank = t.rank) : s = t := by
  obtain ⟨⟨y₁, m₁, d₁, hd₁⟩, s₁, n₁, hs₁, hn₁⟩ := s
  obtain ⟨⟨y₂, m₂, d₂, hd₂⟩, s₂, n₂, hs₂, hn₂⟩ := t
  have a₁ := Day.month_le ⟨y₁, m₁, d₁, hd₁⟩
  have a₂ := Day.month_le ⟨y₂, m₂, d₂, hd₂⟩
  have b₁ := Day.day_le ⟨y₁, m₁, d₁, hd₁⟩
  have b₂ := Day.day_le ⟨y₂, m₂, d₂, hd₂⟩
  dsimp only [rank] at h a₁ a₂ b₁ b₂
  obtain rfl : n₁ = n₂ := by omega
  obtain rfl : s₁ = s₂ := by omega
  obtain rfl : d₁ = d₂ := by omega
  obtain rfl : m₁ = m₂ := by omega
  obtain rfl : y₁ = y₂ := by omega
  rfl

/-- Earlier or at the same moment. -/
instance : LE Timestamp := ⟨fun s t ↦ s.rank ≤ t.rank⟩

/-- Strictly earlier. -/
instance : LT Timestamp := ⟨fun s t ↦ s.rank < t.rank⟩

instance (s t : Timestamp) : Decidable (s ≤ t) := inferInstanceAs (Decidable (s.rank ≤ t.rank))

instance (s t : Timestamp) : Decidable (s < t) := inferInstanceAs (Decidable (s.rank < t.rank))

/-- Moments compare as their ranks. -/
instance : Ord Timestamp := ⟨fun s t ↦ compare s.rank t.rank⟩

instance : Min Timestamp := ⟨fun s t ↦ if s ≤ t then s else t⟩

/-- The order of moments is that of their ranks. -/
theorem le_iff {s t : Timestamp} : s ≤ t ↔ s.rank ≤ t.rank := Iff.rfl

theorem lt_iff {s t : Timestamp} : s < t ↔ s.rank < t.rank := Iff.rfl

/-- Different moments are apart. -/
theorem lt_or_lt_of_ne {s t : Timestamp} (h : s ≠ t) : s < t ∨ t < s :=
  Int.lt_or_gt_of_ne fun he ↦ h (rank_injective he)

theorem not_lt_of_le {s t : Timestamp} (h : s ≤ t) : ¬t < s := Int.not_lt.mpr h

instance : Std.IsLinearOrder Timestamp where
  le_refl s := Int.le_refl s.rank
  le_trans _ _ _ := Int.le_trans
  le_antisymm _ _ h h' := rank_injective (Int.le_antisymm h h')
  le_total s t := Int.le_total s.rank t.rank

theorem min_def (s t : Timestamp) : min s t = if s ≤ t then s else t := rfl

instance : Std.LawfulOrderMin Timestamp where
  min_eq_or s t := by
    rw [min_def]
    split
    · exact Or.inl rfl
    · exact Or.inr rfl
  le_min_iff r s t := by
    rw [min_def]
    simp only [le_iff]
    split <;> omega

/-- Moves a moment by less than a day, leaving its nanoseconds; none where the calendar ends. -/
def shift? (t : Timestamp) (seconds : Int) : Option Timestamp :=
  let moved := (t.second : Int) + seconds
  let day? :=
    if moved < 0 then t.day.previous? else if moved < 86400 then some t.day else t.day.next?
  let second := (moved % 86400).toNat
  day?.map fun day ↦ ⟨day, second, t.nano, by omega, t.nano_lt⟩

/-! ### Text -/

/-- A number with at least `width` digits. -/
def padded (width n : Nat) : List Char :=
  let ds := Nat.toDigits 10 n
  List.replicate (width - ds.length) '0' ++ ds

/-- A year: four digits, and a sign if it is not one of the years 0 to 9999. -/
def yearText (year : Int) : List Char :=
  if 0 ≤ year && year ≤ 9999 then padded 4 year.natAbs
  else (if year < 0 then '-' else '+') :: padded 4 year.natAbs

/-- The date, like `2018-06-01`. -/
def dateText (t : Timestamp) : List Char :=
  yearText t.day.year ++ ('-' :: padded 2 t.day.month) ++ ('-' :: padded 2 t.day.day)

/-- Hours and minutes, like `09:05`. -/
def clockText (t : Timestamp) : List Char :=
  padded 2 (t.second / 3600) ++ (':' :: padded 2 (t.second / 60 % 60))

/-- The second of the minute; 60 within a leap second. -/
def secondText (t : Timestamp) : List Char :=
  padded 2 (t.second % 60 + t.nano / 1000000000)

/-- The fraction of the second: nothing, or a point and three, six or nine digits. -/
def fractionText (t : Timestamp) : List Char :=
  let n := t.nano % 1000000000
  if n = 0 then []
  else if n % 1000000 = 0 then '.' :: padded 3 (n / 1000000)
  else if n % 1000 = 0 then '.' :: padded 6 (n / 1000)
  else '.' :: padded 9 n

/-- The text of a moment, like `2018-06-01T09:05:00Z`. -/
def toText (t : Timestamp) : String :=
  String.ofList
    (t.dateText ++ ('T' :: t.clockText) ++ (':' :: t.secondText) ++ t.fractionText ++ ['Z'])

/-- The text of a moment to the minute, like `2018-06-01 09:05`. -/
def minuteText (t : Timestamp) : String := String.ofList (t.dateText ++ (' ' :: t.clockText))

end Timestamp

end Parley
