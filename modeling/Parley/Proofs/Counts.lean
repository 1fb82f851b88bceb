import Parley.Options
import Parley.Proofs.Moments

/-!
# Counts in arguments

What `Options.count?` reads as a number of messages is a decimal numeral (`Options.IsCount`): a
positive number that fits 64 bits, whose digits may stand behind zeros and a plus sign.

That digits are the numeral of the number they stand for (`Timestamp.padded_valueOf`) is shown digit
by digit. Zeros at the front are places without a digit, and from the first other digit on each
digit continues the number before it (`Decimal.digitsOf_append`).
-/

namespace Parley

namespace Decimal

/-! ### Digits -/

theorem digitsOf_toNat_sub {c : Char} (h : isDigit c = true) : digitsOf (c.toNat - 48) = [c] := by
  have hbounds := toNat_of_isDigit h
  have hchar : (c.toNat - 48).digitChar = c := by
    apply Char.toNat_inj.mp
    rw [Nat.toNat_digitChar_of_lt_ten (by omega)]
    omega
  rw [digitsOf, Nat.toDigits_of_lt_base (by omega), hchar]

/-- Digits behind a number that is not zero are the digits of the number they continue. -/
theorem digitsOf_append {n : Nat} (hn : 0 < n) {ds : List Char} (h : ∀ c ∈ ds, isDigit c = true) :
    digitsOf n ++ ds = digitsOf (Nat.ofDigitChars 10 ds n) := by
  induction ds generalizing n with
  | nil => rw [List.append_nil, Nat.ofDigitChars_nil]
  | cons c ds ih =>
    obtain ⟨hc, hds⟩ := List.forall_mem_cons.mp h
    have hbounds := toNat_of_isDigit hc
    have hlast : digitsOf n ++ [c] = digitsOf (10 * n + (c.toNat - 48)) := by
      rw [← digitsOf_toNat_sub hc]
      exact Nat.toDigits_append_toDigits (by decide) hn (by omega)
    calc digitsOf n ++ c :: ds
        = (digitsOf n ++ [c]) ++ ds := List.append_cons ..
      _ = digitsOf (10 * n + (c.toNat - 48)) ++ ds := by rw [hlast]
      _ = digitsOf (Nat.ofDigitChars 10 ds (10 * n + (c.toNat - 48))) := ih (by omega) hds
      _ = digitsOf (Nat.ofDigitChars 10 (c :: ds) n) := by rw [Nat.ofDigitChars_cons]; rfl

end Decimal

namespace Timestamp

open Decimal (isDigit valueOf digitsOf)

/-- One more place is one more zero, once the digits have their places. -/
theorem padded_succ {width n : Nat} (h : (digitsOf n).length ≤ width) :
    padded (width + 1) n = '0' :: padded width n := by
  show List.replicate (width + 1 - (digitsOf n).length) '0' ++ digitsOf n = _
  rw [Nat.succ_sub h]
  rfl

/-- Digits are those of the number they stand for, behind as many zeros as fill their places. -/
theorem padded_valueOf {ds : List Char} (hne : ds ≠ []) (h : ∀ c ∈ ds, isDigit c = true) :
    padded ds.length (valueOf ds) = ds := by
  induction ds with
  | nil => exact absurd rfl hne
  | cons c ds ih =>
    obtain ⟨hc, hds⟩ := List.forall_mem_cons.mp h
    have hvalue : valueOf (c :: ds) = Nat.ofDigitChars 10 ds (c.toNat - 48) := by
      rw [Decimal.valueOf_eq_ofDigitChars, Nat.ofDigitChars_cons, Nat.mul_zero, Nat.zero_add]
      rfl
    rcases Nat.eq_zero_or_pos (c.toNat - 48) with hzero | hpos
    · have hchar : '0' = c := by
        have hdigits := Decimal.digitsOf_toNat_sub hc
        rw [hzero] at hdigits
        exact (List.cons.inj hdigits).1
      rw [hvalue, hzero, ← Decimal.valueOf_eq_ofDigitChars]
      rcases eq_or_ne ds [] with rfl | hne'
      · rw [← hchar]
        rfl
      · have hplaces : (digitsOf (valueOf ds)).length ≤ ds.length := by
          have hlength := congrArg List.length (ih hne' hds)
          have hsum : (padded ds.length (valueOf ds)).length =
              ds.length - (digitsOf (valueOf ds)).length + (digitsOf (valueOf ds)).length := by
            rw [padded, List.length_append, List.length_replicate]
            rfl
          omega
        rw [List.length_cons, padded_succ hplaces, ih hne' hds, ← hchar]
    · have hdigits : digitsOf (valueOf (c :: ds)) = c :: ds := by
        rw [hvalue, ← Decimal.digitsOf_append hpos hds, Decimal.digitsOf_toNat_sub hc]
        rfl
      show List.replicate ((c :: ds).length - (digitsOf (valueOf (c :: ds))).length) '0' ++
        digitsOf (valueOf (c :: ds)) = _
      rw [hdigits, Nat.sub_self]
      rfl

end Timestamp

namespace Options

open Timestamp (padded)

/-! ### Counts -/

/-- The text says that the count is `n`: it is the numeral of a positive number that fits 64 bits,
with any number of zeros and perhaps a plus sign before its digits. -/
structure IsCount (text : String) (n : Nat) : Prop where
  pos : 0 < n
  fits : n < 2 ^ 64
  digits : ∃ width, text.toList = padded width n ∨ text.toList = '+' :: padded width n

/-- What is read as a number, its plus sign aside, are the digits of a number of 64 bits. -/
theorem digits_eq_some_iff {ds : List Char} {n : Nat} :
    (if ds.isEmpty || !ds.all Decimal.isDigit then none
      else some (Decimal.valueOf ds) |>.filter (· < Nat.pow 2 64)) = some n ↔
      n < 2 ^ 64 ∧ ∃ width, ds = padded width n := by
  constructor
  · intro h
    split at h
    · exact absurd h nofun
    · next hds =>
      simp only [Bool.or_eq_true, Bool.not_eq_true', not_or, Bool.not_eq_false, List.isEmpty_iff,
        List.all_eq_true] at hds
      obtain ⟨hvalue, hfits⟩ := Option.filter_eq_some_iff.mp h
      have hvalue := Option.some.inj hvalue
      refine ⟨of_decide_eq_true hfits, ds.length, ?_⟩
      rw [← hvalue, Timestamp.padded_valueOf hds.1 hds.2]
  · rintro ⟨hfits, width, rfl⟩
    have hdigits : (padded width n).all Decimal.isDigit = true :=
      List.all_eq_true.mpr fun _ ↦ Timestamp.isDigit_of_mem_padded
    have hne : (padded width n).isEmpty = false :=
      List.isEmpty_eq_false_iff.mpr (Timestamp.padded_ne_nil width n)
    rw [hdigits, hne, if_neg (by decide), Timestamp.valueOf_padded]
    exact Option.filter_eq_some_iff.mpr ⟨rfl, decide_eq_true hfits⟩

/-- A text is read as a number just if it is a padded numeral, perhaps behind a plus sign, of a
number that fits 64 bits. -/
theorem number?_eq_some_iff {text : String} {n : Nat} :
    number? text = some n ↔ n < 2 ^ 64 ∧
      ∃ width, text.toList = padded width n ∨ text.toList = '+' :: padded width n := by
  rw [number?]
  generalize text.toList = cs
  have hsign : ∀ {width : Nat} {ds : List Char}, '+' :: ds ≠ padded width n := fun {width ds} h ↦ by
    have hmem : '+' ∈ padded width n := h ▸ List.mem_cons_self
    exact absurd (Timestamp.isDigit_of_mem_padded hmem) (by decide)
  split
  · next ds =>
    refine digits_eq_some_iff.trans (and_congr_right fun _ ↦ exists_congr fun width ↦ ?_)
    exact ⟨fun h ↦ .inr (h ▸ rfl), fun h ↦ h.elim (absurd · hsign) fun h ↦ (List.cons.inj h).2⟩
  · next cs hplus =>
    refine digits_eq_some_iff.trans (and_congr_right fun _ ↦ exists_congr fun width ↦ ?_)
    exact ⟨.inl, fun h ↦ h.elim id fun h ↦ absurd h (hplus _)⟩

/-- A text is read as a count just if it is one. What the grammar of the arguments says of counts
rests on this. -/
theorem count?_eq_some_iff {text : String} {n : Nat} : count? text = some n ↔ IsCount text n := by
  rw [count?, Option.filter_eq_some_iff, number?_eq_some_iff]
  exact ⟨fun h ↦ ⟨of_decide_eq_true h.2, h.1.1, h.1.2⟩,
    fun h ↦ ⟨⟨h.fits, h.digits⟩, decide_eq_true h.pos⟩⟩

end Options

end Parley
