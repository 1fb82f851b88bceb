import Mathlib
import Parley.Timestamp.Reader

/-!
# Moments read back

The text of a moment is read as that moment (`Timestamp.ofText_toText`), whatever its year, its
fraction of a second and whether it lies in a leap second. The one condition is that leap seconds
stand at the end of a minute (`Timestamp.OnClock`), because only there a second can be numbered 60;
every moment that was read meets it, since offsets are whole minutes (`Timestamp.onClock_ofText`).

A `Scan` is followed in two directions. Forwards, `Scan.run_bind_ok` goes through a text whose parts
are at hand. Backwards, `Scan.Yields` says what is true of everything that a scan can give.
-/

namespace Parley

namespace Decimal

/-! ### Digits -/

theorem toNat_of_isDigit {c : Char} (h : isDigit c = true) : 48 ≤ c.toNat ∧ c.toNat ≤ 57 := by
  simp only [isDigit, Bool.and_eq_true, decide_eq_true_eq] at h
  exact h

/-- The value of digits is the one that the library computes, which has the lemmas. -/
theorem valueOf_eq_ofDigitChars (ds : List Char) : valueOf ds = Nat.ofDigitChars 10 ds 0 := by
  have hfold : ∀ n : Nat, ds.foldl (fun n c ↦ n * 10 + (c.toNat - 48)) n =
      Nat.ofDigitChars 10 ds n := by
    induction ds with
    | nil => exact fun n ↦ Nat.ofDigitChars_nil.symm
    | cons c ds ih =>
      intro n
      rw [List.foldl_cons, ih, Nat.ofDigitChars_cons, Nat.mul_comm]
      rfl
  exact hfold 0

/-- Digits stand for less than the power of ten with as many zeros. -/
theorem valueOf_lt {ds : List Char} (h : ∀ c ∈ ds, isDigit c = true) :
    valueOf ds < 10 ^ ds.length := by
  rw [valueOf_eq_ofDigitChars]
  induction ds with
  | nil => exact Nat.one_pos
  | cons c ds ih =>
    obtain ⟨hc, hds⟩ := List.forall_mem_cons.mp h
    have hdigit : c.toNat - '0'.toNat ≤ 9 := Nat.sub_le_sub_right (toNat_of_isDigit hc).2 48
    have hrest := ih hds
    have hlead := Nat.mul_le_mul_left (10 ^ ds.length) hdigit
    rw [Nat.ofDigitChars_cons, Nat.ofDigitChars_eq_ofDigitChars_zero, Nat.mul_zero, Nat.zero_add,
      List.length_cons, Nat.pow_succ]
    omega

end Decimal

namespace Timestamp

open Decimal (isDigit valueOf)

/-! ### Padded numbers -/

/-- A padded number is written in digits. -/
theorem isDigit_of_mem_padded {width n : Nat} {c : Char} (h : c ∈ padded width n) :
    isDigit c = true := by
  rcases List.mem_append.mp h with h | h
  · rw [List.eq_of_mem_replicate h]
    decide
  · exact Nat.isDigit_of_mem_toDigits (by decide) (by decide) h

/-- Zeros in front do not count. -/
theorem valueOf_padded (width n : Nat) : valueOf (padded width n) = n := by
  rw [Decimal.valueOf_eq_ofDigitChars, padded, Nat.ofDigitChars_append,
    Nat.ofDigitChars_replicate_zero, Nat.mul_zero, Nat.ofDigitChars_ten_toDigits]

/-- A number that fits the width is padded to it. -/
theorem length_padded {width n : Nat} (hwidth : 0 < width) (h : n < 10 ^ width) :
    (padded width n).length = width := by
  have hle := (Nat.length_toDigits_le_iff (by decide) hwidth).mpr h
  rw [padded, List.length_append, List.length_replicate, Nat.sub_add_cancel hle]

theorem padded_ne_nil (width n : Nat) : padded width n ≠ [] :=
  List.append_ne_nil_of_right_ne_nil _ Nat.toDigits_ne_nil

namespace Scan

variable {α β : Type}

/-! ### Scanning what is at hand -/

/-- After a scan that succeeds the next one goes on with what was left. -/
theorem run_bind_ok {s : Scan α} {next : α → Scan β} {cs left : List Char} {a : α}
    (h : s.run cs = .ok (a, left)) : (s >>= next).run cs = (next a).run left := by
  rw [StateT.run_bind, h]
  rfl

@[simp] theorem run_get (cs : List Char) : (get : Scan (List Char)).run cs = .ok (cs, cs) := rfl

@[simp] theorem run_set (cs left : List Char) : (set left : Scan Unit).run cs = .ok ((), left) :=
  rfl

@[simp] theorem run_modify (f : List Char → List Char) (cs : List Char) :
    (modify f : Scan Unit).run cs = .ok ((), f cs) := rfl

@[simp] theorem run_next (c : Char) (cs : List Char) : next.run (c :: cs) = .ok (c, cs) := rfl

theorem not_isBlank_of_isDigit {c : Char} (h : isDigit c = true) : Text.isBlank c = false := by
  have hbounds := Decimal.toNat_of_isDigit h
  simp only [Text.isBlank, Bool.or_eq_false_iff, Bool.and_eq_false_iff, decide_eq_false_iff_not]
  omega

/-- Where no blank is next, none is skipped. -/
theorem run_skipBlanks {c : Char} (h : Text.isBlank c = false) (cs : List Char) :
    skipBlanks.run (c :: cs) = .ok ((), c :: cs) := by
  have hdrop : Text.skipBlanks (c :: cs) = c :: cs := List.dropWhile_cons_of_neg (by simp [h])
  exact (run_modify _ _).trans (by rw [hdrop])

/-- A mark is read where it stands. -/
theorem run_mark {c : Char} (h : Text.isBlank c = false) (cs : List Char) :
    (mark c).run (c :: cs) = .ok ((), cs) := by
  refine (run_bind_ok (run_skipBlanks h cs)).trans ?_
  refine (run_bind_ok (run_next c cs)).trans ?_
  rw [if_pos rfl]
  rfl

/-- Digits are taken up to the first character that is none, or up to the greatest number of
them. -/
theorem run_digits {most : Nat} {ds rest : List Char} (hds : ∀ c ∈ ds, isDigit c = true)
    (hne : ds ≠ []) (hlength : ds.length ≤ most)
    (hrest : ∀ c ∈ (rest.take (most - ds.length)).head?, isDigit c = false) :
    (digits most).run (ds ++ rest) = .ok (ds, rest) := by
  have hbehind : (rest.take (most - ds.length)).takeWhile isDigit = [] := by
    cases htake : rest.take (most - ds.length) with
    | nil => rfl
    | cons c cs => exact List.takeWhile_cons_of_neg (by simp [hrest c (by rw [htake]; rfl)])
  have htake : ((ds ++ rest).take most).takeWhile isDigit = ds := by
    rw [List.take_append, List.take_of_length_le hlength, List.takeWhile_append_of_pos hds, hbehind,
      List.append_nil]
  have hdrop : (ds ++ rest).drop ds.length = rest := List.drop_left
  obtain ⟨c, cs, rfl⟩ := List.exists_cons_of_ne_nil hne
  refine (run_bind_ok (run_get _)).trans ?_
  dsimp only [List.cons_append] at htake hdrop ⊢
  rw [if_pos (hds c List.mem_cons_self), htake, hdrop]
  rfl

/-- As many digits as may be taken at most. -/
theorem run_digits_padded {width : Nat} (hwidth : 0 < width) {n : Nat} (hn : n < 10 ^ width)
    (rest : List Char) :
    (digits width).run (padded width n ++ rest) = .ok (padded width n, rest) := by
  have hlength := length_padded hwidth hn
  refine run_digits (fun c ↦ isDigit_of_mem_padded) (padded_ne_nil width n)
    (Nat.le_of_eq hlength) ?_
  simp [hlength]

/-- A padded number begins with a digit. -/
theorem exists_padded_eq_cons (width n : Nat) :
    ∃ c cs, padded width n = c :: cs ∧ isDigit c = true := by
  obtain ⟨c, cs, hcs⟩ := List.exists_cons_of_ne_nil (padded_ne_nil width n)
  exact ⟨c, cs, hcs, isDigit_of_mem_padded (hcs ▸ List.mem_cons_self)⟩

/-- A field of two digits is read back if it is within its bounds. -/
theorem run_field {low high n : Nat} (hlow : low ≤ n) (hhigh : n ≤ high) (hn : n < 100)
    (rest : List Char) : (field low high).run (padded 2 n ++ rest) = .ok (n, rest) := by
  have hdigits := run_digits_padded (Nat.zero_lt_two) hn rest
  obtain ⟨c, cs, hcs, hc⟩ := exists_padded_eq_cons 2 n
  have hskip := run_skipBlanks (not_isBlank_of_isDigit hc) (cs ++ rest)
  rw [← List.cons_append, ← hcs] at hskip
  refine (run_bind_ok hskip).trans ?_
  refine (run_bind_ok hdigits).trans ?_
  have hbounds : (low ≤ n && n ≤ high) = true := by simp [hlow, hhigh]
  dsimp only
  rw [valueOf_padded, if_pos hbounds]
  rfl

/-- All digits of a number, and a character behind them that is none. -/
theorem run_boundedNumber (width : Nat) {bound n : Nat} (hn : n ≤ bound) {c : Char}
    (hc : isDigit c = false) (rest : List Char) :
    (boundedNumber bound).run (padded width n ++ c :: rest) = .ok (n, c :: rest) := by
  have hdigits : (digits (padded width n ++ c :: rest).length).run (padded width n ++ c :: rest) =
      .ok (padded width n, c :: rest) := by
    refine run_digits (fun c ↦ isDigit_of_mem_padded) (padded_ne_nil width n) (by simp) ?_
    simp [hc]
  refine (run_bind_ok (run_get _)).trans ?_
  refine (run_bind_ok hdigits).trans ?_
  dsimp only
  rw [valueOf_padded, if_pos hn]
  rfl

/-- A year of four digits has no sign. -/
theorem run_year_four {n : Nat} (hn : n < 10000) (rest : List Char) :
    year.run (padded 4 n ++ rest) = .ok ((n : Int), rest) := by
  have hdigits := run_digits_padded (by decide : 0 < 4) hn rest
  obtain ⟨c, cs, hcs, hc⟩ := exists_padded_eq_cons 4 n
  have hvalue := valueOf_padded 4 n
  have hsign : ∀ {d : Char}, isDigit d = false → ∀ {l l' : List Char}, c :: l ≠ d :: l' := by
    rintro d hd l l' h
    cases h
    exact Bool.false_ne_true (hd.symm.trans hc)
  rw [hcs] at hdigits hvalue ⊢
  refine (run_bind_ok (run_skipBlanks (not_isBlank_of_isDigit hc) _)).trans ?_
  refine (run_bind_ok (run_get _)).trans ?_
  split
  · exact absurd ‹_› (hsign (by decide))
  · exact absurd ‹_› (hsign (by decide))
  · refine (run_bind_ok hdigits).trans ?_
    rw [hvalue]
    rfl

/-- A year is read back, with its sign where it has one. -/
theorem run_year {y : Int} (hlow : leastYear ≤ y) (hhigh : y ≤ greatestYear) (rest : List Char) :
    year.run (yearText y ++ '-' :: rest) = .ok (y, '-' :: rest) := by
  unfold leastYear at hlow
  unfold greatestYear at hhigh
  unfold yearText
  split
  · rename_i hfour
    simp only [Bool.and_eq_true, decide_eq_true_eq] at hfour
    have hyear := run_year_four (n := y.natAbs) (by omega) ('-' :: rest)
    rwa [Int.natAbs_of_nonneg hfour.1] at hyear
  · -- other years have a sign, and are bounded as numbers of 32 bits are
    rename_i hfour
    simp only [Bool.and_eq_true, decide_eq_true_eq] at hfour
    have hbound : y.natAbs ≤ 262143 := by omega
    split
    · rename_i hneg
      have hnumber := run_boundedNumber 4
        (Nat.le_trans hbound (by decide : 262143 ≤ Nat.pow 2 31)) (c := '-') (by decide) rest
      refine (run_bind_ok (run_skipBlanks (by decide) _)).trans ?_
      refine (run_bind_ok (run_get _)).trans ?_
      refine (run_bind_ok (run_set _ _)).trans ?_
      refine (run_bind_ok hnumber).trans ?_
      rw [Int.ofNat_natAbs_of_nonpos (Int.le_of_lt hneg), Int.neg_neg]
      rfl
    · rename_i hpos
      have hnumber := run_boundedNumber 4
        (Nat.le_trans hbound (by decide : 262143 ≤ Nat.pow 2 31 - 1)) (c := '-') (by decide) rest
      refine (run_bind_ok (run_skipBlanks (by decide) _)).trans ?_
      refine (run_bind_ok (run_get _)).trans ?_
      refine (run_bind_ok (run_set _ _)).trans ?_
      refine (run_bind_ok hnumber).trans ?_
      rw [Int.natAbs_of_nonneg (Int.not_lt.mp hpos)]
      rfl

/-- A date is read back, up to what follows it. -/
theorem run_date (t : Timestamp) (rest : List Char) :
    date.run (t.dateText ++ rest) = .ok ((t.day.year, t.day.month, t.day.day), rest) := by
  obtain ⟨⟨y, m, d, hlow, hhigh, hday, hdays⟩, -⟩ := t
  have hpos : 0 < daysIn y m := Nat.lt_of_lt_of_le hday hdays
  have hm : m ≤ 12 := month_le_of_daysIn_pos hpos
  have hm' : 1 ≤ m := by
    rcases Nat.eq_zero_or_pos m with rfl | h
    · exact absurd hpos (Nat.lt_irrefl 0)
    · exact h
  have hd : d ≤ 31 := Nat.le_trans hdays (daysIn_le y m)
  simp only [dateText, List.append_assoc, List.cons_append]
  refine (run_bind_ok (run_year hlow hhigh _)).trans ?_
  refine (run_bind_ok (run_mark (by decide) _)).trans ?_
  refine (run_bind_ok (run_field hm' hm (by omega) _)).trans ?_
  refine (run_bind_ok (run_mark (by decide) _)).trans ?_
  exact run_bind_ok (run_field hday hd (by omega) rest)

/-! ### The parts of a moment -/

/-- A point and the digits of a fraction, of which there are at most nine. -/
theorem run_fraction_padded {width : Nat} (hwidth : 0 < width) (hnine : width ≤ 9) {n : Nat}
    (hn : n < 10 ^ width) {rest : List Char} (hrest : ∀ c ∈ rest.head?, isDigit c = false) :
    fraction.run ('.' :: (padded width n ++ rest)) = .ok (n * 10 ^ (9 - width), rest) := by
  have hlength := length_padded hwidth hn
  have hhead : ∀ c ∈ (rest.take (9 - (padded width n).length)).head?, isDigit c = false := by
    intro c hc
    rw [List.head?_take] at hc
    split at hc
    · cases hc
    · exact hrest c hc
  have hdrop : rest.dropWhile isDigit = rest := by
    cases rest with
    | nil => rfl
    | cons c rest => exact List.dropWhile_cons_of_neg (by simp [hrest c rfl])
  have hdigits := run_digits (fun c ↦ isDigit_of_mem_padded) (padded_ne_nil width n)
    (Nat.le_trans (Nat.le_of_eq hlength) hnine) hhead
  refine (run_bind_ok (run_get _)).trans ?_
  refine (run_bind_ok (run_set _ _)).trans ?_
  refine (run_bind_ok hdigits).trans ?_
  refine (run_bind_ok (run_modify _ _)).trans ?_
  rw [hdrop, valueOf_padded, hlength]
  rfl

/-- The fraction that is written is that of the second. -/
theorem run_fraction (t : Timestamp) {c : Char} (hdigit : isDigit c = false) (hpoint : c ≠ '.')
    (rest : List Char) :
    fraction.run (t.fractionText ++ c :: rest) = .ok (t.nano % 1000000000, c :: rest) := by
  have hhead : ∀ d ∈ (c :: rest).head?, isDigit d = false := by simpa using hdigit
  have hpadded : ∀ {width n : Nat}, 0 < width → width ≤ 9 → n < 10 ^ width →
      n * 10 ^ (9 - width) = t.nano % 1000000000 →
      fraction.run (('.' :: padded width n) ++ c :: rest) =
        .ok (t.nano % 1000000000, c :: rest) := by
    intro width n hwidth hnine hn hvalue
    rw [List.cons_append, run_fraction_padded hwidth hnine hn hhead, hvalue]
  unfold fractionText
  dsimp only
  split
  · rename_i hzero
    rw [hzero]
    refine (run_bind_ok (run_get _)).trans ?_
    split
    · rename_i heq
      cases heq
      exact absurd rfl hpoint
    · rfl
  · -- three, six or nine digits, as many as are needed
    split
    · exact hpadded (by decide) (by decide) (by omega) (by omega)
    · split
      · exact hpadded (by decide) (by decide) (by omega) (by omega)
      · exact hpadded (by decide) (by decide) (by omega) (by omega)

end Scan

/-- A leap second stands at the end of a minute. -/
def OnClock (t : Timestamp) : Prop := 1000000000 ≤ t.nano → t.second % 60 = 59

namespace Scan

/-- A time of day is read back with its fraction, if what follows cannot go on with it. `OnClock` is
for a leap second, which is written as second 60. -/
theorem run_time {t : Timestamp} (h : t.OnClock) {c : Char} (hdigit : isDigit c = false)
    (hpoint : c ≠ '.') (rest : List Char) :
    time.run (t.clockText ++ (':' :: t.secondText) ++ t.fractionText ++ c :: rest) =
      .ok ((t.second, t.nano), c :: rest) := by
  have hsecond := t.second_lt
  have hnano := t.nano_lt
  unfold OnClock at h
  simp only [clockText, secondText, List.append_assoc, List.cons_append]
  refine (run_bind_ok (run_field (Nat.zero_le _) (by omega) (by omega) _)).trans ?_
  refine (run_bind_ok (run_mark (by decide) _)).trans ?_
  refine (run_bind_ok (run_field (Nat.zero_le _) (by omega) (by omega) _)).trans ?_
  refine (run_bind_ok (run_mark (by decide) _)).trans ?_
  refine (run_bind_ok (run_field (Nat.zero_le _) (by omega) (by omega) _)).trans ?_
  refine (run_bind_ok (run_fraction t hdigit hpoint rest)).trans ?_
  dsimp only
  split
  · -- the last second of the minute has been written as its sixtieth
    rename_i hleap
    have hwhole : t.second / 3600 * 3600 + t.second / 60 % 60 * 60 + 59 = t.second := by omega
    have hfraction : t.nano % 1000000000 + 1000000000 = t.nano := by omega
    rw [hwhole, hfraction]
    rfl
  · rename_i hordinary
    have hwhole : t.second / 3600 * 3600 + t.second / 60 % 60 * 60 +
        (t.second % 60 + t.nano / 1000000000) = t.second := by omega
    have hfraction : t.nano % 1000000000 = t.nano := by omega
    rw [hwhole, hfraction]
    rfl

end Scan

/-- **The text of a moment** is scanned into its parts, with no offset and nothing left. -/
theorem run_scan {t : Timestamp} (h : t.OnClock) :
    scan.run t.toText.toList =
      .ok (((t.day.year, t.day.month, t.day.day), (t.second, t.nano), 0), []) := by
  have htext : t.toText.toList =
      t.dateText ++ 'T' :: (t.clockText ++ (':' :: t.secondText) ++ t.fractionText ++ ['Z']) := by
    rw [toText, String.toList_ofList]
    simp only [List.append_assoc, List.cons_append]
  rw [htext]
  refine (Scan.run_bind_ok (Scan.run_date t _)).trans ?_
  refine (Scan.run_bind_ok (rfl : Scan.separator.run ('T' :: _) = .ok ((), _))).trans ?_
  refine (Scan.run_bind_ok (Scan.run_time h (by decide) (by decide) [])).trans ?_
  refine (Scan.run_bind_ok (rfl : Scan.offset.run ['Z'] = .ok (0, []))).trans ?_
  exact Scan.run_bind_ok rfl

/-- Moving a moment by nothing. -/
theorem shift?_zero (t : Timestamp) : t.shift? 0 = some t := by
  have hsecond := t.second_lt
  have hmod : ((t.second : Int) % 86400).toNat = t.second := by omega
  unfold shift?
  simp only [Int.add_zero, hmod]
  rw [if_neg (by omega), if_pos (by omega)]
  rfl

/-- The parts of a moment, with no offset, are the moment. -/
theorem ofLocal_self (t : Timestamp) :
    ofLocal (t.day.year, t.day.month, t.day.day) (t.second, t.nano) 0 = .ok t := by
  have hday : Day.ofParts? t.day.year t.day.month t.day.day = some t.day := dif_pos t.day.isDay
  unfold ofLocal
  dsimp only
  rw [hday]
  dsimp only
  split
  · rw [Int.neg_zero, shift?_zero]
    rfl
  · rename_i hclock
    exact absurd ⟨t.second_lt, t.nano_lt, by simp⟩ hclock

/-- The text of a moment is read as that moment. -/
theorem ofText_toText {t : Timestamp} (h : t.OnClock) : ofText t.toText = .ok t := by
  unfold ofText
  rw [run_scan h]
  exact ofLocal_self t

/-! ### Moments that were read -/

namespace Scan

variable {α β : Type} {P : α → Prop} {Q : β → Prop}

/-- Whatever the scan gives has the property. -/
def Yields (s : Scan α) (P : α → Prop) : Prop := ∀ cs a left, s.run cs = .ok (a, left) → P a

namespace Yields

theorem always (s : Scan α) : Yields s fun _ ↦ True := fun _ _ _ _ ↦ trivial

theorem pure {a : α} (h : P a) : Yields (Pure.pure a) P := by
  intro cs a' left hs
  cases hs
  exact h

theorem throw (r : Refusal) : Yields (MonadExcept.throw r : Scan α) P := fun _ _ _ hs ↦ nomatch hs

theorem bind {s : Scan α} {next : α → Scan β} (hs : Yields s P)
    (hnext : ∀ a, P a → Yields (next a) Q) : Yields (s >>= next) Q := by
  intro cs b left h
  rw [StateT.run_bind] at h
  cases hrun : s.run cs with
  | error r =>
    rw [hrun] at h
    cases h
  | ok out =>
    rw [hrun] at h
    exact hnext out.1 (hs cs out.1 out.2 hrun) out.2 b left h

/-- What comes first does not matter. -/
theorem after {s : Scan α} {next : α → Scan β} (hnext : ∀ a, Yields (next a) Q) :
    Yields (s >>= next) Q := (always s).bind fun a _ ↦ hnext a

end Yields

/-- Digits are read, and no more of them than asked for. -/
theorem yields_digits (most : Nat) :
    Yields (digits most) fun ds ↦ ds.length ≤ most ∧ ∀ c ∈ ds, isDigit c = true := by
  refine .after fun cs ↦ ?_
  split
  · exact .throw _
  · rename_i c cs
    split
    · refine .after fun _ ↦ .pure ⟨?_, fun d hd ↦ ?_⟩
      · exact Nat.le_trans (List.takeWhile_sublist _).length_le (List.length_take_le most (c :: cs))
      · exact List.all_eq_true.mp List.all_takeWhile d hd
    · exact .throw _

/-- A fraction is less than a second. -/
theorem yields_fraction : Yields fraction (· < 1000000000) := by
  refine .after fun cs ↦ ?_
  split
  · refine .after fun _ ↦ (yields_digits 9).bind fun ds hds ↦ .after fun _ ↦ .pure ?_
    have hvalue := Decimal.valueOf_lt hds.2
    have hpow : 10 ^ ds.length * 10 ^ (9 - ds.length) = 1000000000 := by
      rw [← Nat.pow_add, Nat.add_sub_cancel' hds.1]
    exact hpow ▸ Nat.mul_lt_mul_of_pos_right hvalue (Nat.pow_pos (by decide))
  · exact .pure (by decide)

/-- A leap second is read only where the seconds say sixty. -/
theorem yields_time : Yields time fun clock ↦ 1000000000 ≤ clock.2 → clock.1 % 60 = 59 := by
  refine .after fun hour ↦ .after fun _ ↦ .after fun minute ↦ .after fun _ ↦ .after fun second ↦
    yields_fraction.bind fun nano hnano ↦ ?_
  dsimp only
  split
  · exact .pure fun _ ↦ by dsimp only; omega
  · exact .pure fun h ↦ absurd h (Nat.not_le.mpr hnano)

/-- An offset is a number of minutes. -/
theorem yields_offset : Yields offset (· % 60 = 0) := by
  have hdigits : Yields offsetDigits (· % 60 = 0) := by
    refine .after fun hs ↦ .after fun _ ↦ .after fun ms ↦ ?_
    dsimp only
    split
    · exact .pure (by omega)
    · exact .throw _
  refine .after fun _ ↦ .after fun cs ↦ ?_
  split
  · exact .after fun _ ↦ .pure rfl
  · refine .after fun c ↦ ?_
    split
    · exact .pure rfl
    · split
      · exact hdigits
      · split
        · exact hdigits.bind fun n hn ↦ .pure (by omega)
        · exact .throw _

/-- The parts of a text have a leap second at the end of a minute, and an offset of whole
minutes. -/
theorem yields_scan : Yields scan fun parts ↦
    (1000000000 ≤ parts.2.1.2 → parts.2.1.1 % 60 = 59) ∧ parts.2.2 % 60 = 0 :=
  .after fun _ ↦ .after fun _ ↦ yields_time.bind fun _ hclock ↦
    yields_offset.bind fun _ hoffset ↦ .after fun _ ↦ .pure ⟨hclock, hoffset⟩

end Scan

/-- Moving a moment leaves its nanoseconds and moves its second around the day. -/
theorem parts_shift? {t t' : Timestamp} {n : Int} (h : t.shift? n = some t') :
    t'.nano = t.nano ∧ t'.second = ((t.second + n) % 86400).toNat := by
  obtain ⟨day, -, rfl⟩ := Option.map_eq_some_iff.mp h
  exact ⟨rfl, rfl⟩

/-- Nanoseconds are not touched by an offset, and the second is shifted within the day. -/
theorem parts_ofLocal {ymd : Int × Nat × Nat} {clock : Nat × Nat} {offset : Int} {t : Timestamp}
    (h : ofLocal ymd clock offset = .ok t) :
    t.nano = clock.2 ∧ t.second = ((clock.1 - offset) % 86400).toNat := by
  unfold ofLocal at h
  split at h
  · cases h
  · split at h
    · split at h
      · rename_i t' hshift
        cases h
        exact parts_shift? hshift
      · cases h
    · cases h

/-- Every moment that was read has its leap seconds at the end of a minute. -/
theorem onClock_ofText {s : String} {t : Timestamp} (h : ofText s = .ok t) : t.OnClock := by
  unfold ofText at h
  cases hrun : scan.run s.toList with
  | error r =>
    rw [hrun] at h
    cases h
  | ok out =>
    obtain ⟨⟨ymd, clock, offset⟩, left⟩ := out
    rw [hrun] at h
    obtain ⟨hclock, hoffset⟩ := Scan.yields_scan _ _ _ hrun
    obtain ⟨hnano, hsecond⟩ := parts_ofLocal h
    intro hleap
    rw [hnano] at hleap
    have hend := hclock hleap
    dsimp only at hend hoffset
    omega

end Timestamp

end Parley
