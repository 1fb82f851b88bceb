import Mathlib.Tactic.IntervalCases
import Parley.Json.Printer
import Parley.Proofs.Reading

/-!
# Strings and integers read back

A string that was written is read as itself (`Reader.on_string`): stretches of plain bytes and
single escapes come back as the characters they stand for. So does an integer of 64 bits, signed or
unsigned, if nothing behind it goes on with it (`Reader.on_number`).
-/

namespace Parley.Json

/-! ### Characters in strings -/

/-- The character stands for itself in a string. -/
def IsPlainChar (c : Char) : Prop := c ≠ '"' ∧ c ≠ '\\' ∧ 32 ≤ c.toNat

instance (c : Char) : Decidable (IsPlainChar c) := inferInstanceAs (Decidable (_ ∧ _ ∧ _))

theorem escape_of_isPlainChar {c : Char} (h : IsPlainChar c) : escape c = [c] := by
  have hcontrol : ∀ d : Char, d.toNat < 32 → c ≠ d := by
    rintro d hd rfl
    exact absurd hd (Nat.not_lt.mpr h.2.2)
  unfold escape
  rw [if_neg h.1, if_neg h.2.1, if_neg (hcontrol _ (by decide)), if_neg (hcontrol _ (by decide)),
    if_neg (hcontrol _ (by decide)), if_neg (hcontrol _ (by decide)),
    if_neg (hcontrol _ (by decide)), if_neg (Nat.not_lt.mpr h.2.2)]

/-- Beyond one byte, every byte of a character is at least 128. -/
theorem le_of_mem_utf8EncodeChar {c : Char} (hc : 128 ≤ c.toNat) {b : UInt8}
    (hb : b ∈ String.utf8EncodeChar c) : 128 ≤ b.toNat := by
  have hlt : ¬c.val.toNat ≤ 0x7f := Nat.not_le.mpr hc
  have hbound : c.val.toNat < 0x110000 := by
    rcases c.valid with h | h
    · exact Nat.lt_trans h (by decide)
    · exact h.2
  unfold String.utf8EncodeChar at hb
  simp only [if_neg hlt] at hb
  split at hb
  · simp only [List.mem_cons, List.not_mem_nil, or_false] at hb
    rcases hb with rfl | rfl <;> simp only [UInt8.toNat_ofNat'] <;> omega
  · split at hb
    · simp only [List.mem_cons, List.not_mem_nil, or_false] at hb
      rcases hb with rfl | rfl | rfl <;> simp only [UInt8.toNat_ofNat'] <;> omega
    · simp only [List.mem_cons, List.not_mem_nil, or_false] at hb
      rcases hb with rfl | rfl | rfl | rfl <;> simp only [UInt8.toNat_ofNat'] <;> omega

/-- A byte is plain if it is neither a quote nor a backslash nor a control character. -/
theorem isPlain_of_toNat {b : UInt8} (h : b.toNat ≠ 34 ∧ b.toNat ≠ 92 ∧ 32 ≤ b.toNat) :
    Reader.isPlain b = true := by
  have hquote : b ≠ 34 := fun e ↦ h.1 (congrArg UInt8.toNat e)
  have hbackslash : b ≠ 92 := fun e ↦ h.2.1 (congrArg UInt8.toNat e)
  have hcontrol : (32 : UInt8) ≤ b := h.2.2
  simp [Reader.isPlain, hquote, hbackslash, hcontrol]

/-- The bytes of a plain character are plain: those of a longer encoding are far above the special
ones. -/
theorem isPlain_of_mem_utf8EncodeChar {c : Char} (h : IsPlainChar c) {b : UInt8}
    (hb : b ∈ String.utf8EncodeChar c) : Reader.isPlain b = true := by
  rcases Nat.lt_or_ge c.toNat 128 with hascii | hhigh
  · have hbyte : String.utf8EncodeChar c = [UInt8.ofNat c.toNat] := by
      simpa [utf8] using utf8_cons_ascii hascii []
    rw [hbyte, List.mem_singleton] at hb
    have hnat : b.toNat = c.toNat := by
      rw [hb, UInt8.toNat_ofNat']
      exact Nat.mod_eq_of_lt (Nat.lt_trans hascii (by decide))
    refine isPlain_of_toNat ⟨fun e ↦ h.1 ?_, fun e ↦ h.2.1 ?_, hnat ▸ h.2.2⟩
    · exact Char.toNat_inj.mp (hnat.symm.trans e)
    · exact Char.toNat_inj.mp (hnat.symm.trans e)
  · have h128 := le_of_mem_utf8EncodeChar hhigh hb
    exact isPlain_of_toNat (by omega)

namespace Reader

/-! ### Strings -/

/-- An escape that was written stands for the bytes of its character. -/
theorem on_escaped {c : Char} (h : ¬IsPlainChar c) (rest : List UInt8) :
    ∃ letters, escape c = '\\' :: letters ∧
      escaped.on (utf8 letters ++ rest) = (.ok (String.utf8EncodeChar c), rest) := by
  by_cases hquote : c = '"'
  · subst hquote
    exact ⟨['"'], rfl, rfl⟩
  by_cases hbackslash : c = '\\'
  · subst hbackslash
    exact ⟨['\\'], rfl, rfl⟩
  have hcontrol : c.toNat < 32 := Nat.not_le.mp fun h32 ↦ h ⟨hquote, hbackslash, h32⟩
  rw [← Char.ofNat_toNat c]
  generalize c.toNat = n at hcontrol
  interval_cases n <;> exact ⟨_, rfl, rfl⟩

/-- Where the bytes with a property end. -/
theorem takeWhile_append_eq {p : UInt8 → Bool} {front rest : List UInt8}
    (h : ∀ b ∈ front, p b = true) (hrest : ∀ b ∈ rest.head?, p b = false) :
    (front ++ rest).takeWhile p = front ∧ (front ++ rest).dropWhile p = rest := by
  rw [List.takeWhile_append_of_pos h, List.dropWhile_append_of_pos h]
  cases rest with
  | nil => exact ⟨List.append_nil front, rfl⟩
  | cons b rest =>
    have hb : ¬p b = true := by simp [hrest b rfl]
    rw [List.takeWhile_cons_of_neg hb, List.dropWhile_cons_of_neg hb]
    exact ⟨List.append_nil front, rfl⟩

/-- The stretch that ends a string. -/
theorem on_stretch_end {plain : List UInt8} (h : ∀ b ∈ plain, isPlain b = true)
    (done : List (List UInt8)) (rest : List UInt8) :
    (stretch done).on (plain ++ 34 :: rest) =
      (.ok (.inr (plain :: done).reverse.flatten), rest) := by
  have hquote : ∀ b ∈ (34 :: rest).head?, isPlain b = false := by simp [isPlain]
  obtain ⟨htake, hdrop⟩ := takeWhile_append_eq h hquote
  unfold stretch
  rw [on_bind_ok (on_rest _), on_bind_ok (on_modify _ _), htake, hdrop, on_bind_ok (on_next _)]
  rfl

/-- A stretch up to an escape, and the escape. -/
theorem on_stretch_escape {plain : List UInt8} (h : ∀ b ∈ plain, isPlain b = true)
    (done : List (List UInt8)) {bytes stood rest : List UInt8}
    (hescaped : escaped.on bytes = (.ok stood, rest)) :
    (stretch done).on (plain ++ 92 :: bytes) = (.ok (.inl (stood :: plain :: done)), rest) := by
  have hbackslash : ∀ b ∈ (92 :: bytes).head?, isPlain b = false := by simp [isPlain]
  obtain ⟨htake, hdrop⟩ := takeWhile_append_eq h hbackslash
  unfold stretch
  rw [on_bind_ok (on_rest _), on_bind_ok (on_modify _ _), htake, hdrop, on_bind_ok (on_next _)]
  exact on_bind_ok hescaped

/-- The induction is on the characters; `plain` are the bytes of those before them back to the last
escape, which the next stretch takes in one go. -/
theorem runs_stretch (cs : List Char) :
    ∀ (done : List (List UInt8)) (plain rest : List UInt8), (∀ b ∈ plain, isPlain b = true) →
      Runs stretch done (plain ++ (utf8 (cs.flatMap escape) ++ 34 :: rest))
        (done.reverse.flatten ++ (plain ++ utf8 cs)) rest := by
  induction cs with
  | nil =>
    intro done plain rest h
    have hstretch := on_stretch_end h done rest
    rw [List.reverse_cons, List.flatten_append, List.flatten_singleton] at hstretch
    rw [utf8_nil, List.append_nil]
    exact .stop hstretch
  | cons c cs ih =>
    intro done plain rest h
    rw [List.flatMap_cons, utf8_append, utf8_cons]
    by_cases hc : IsPlainChar c
    -- the character goes on with the stretch, or its escape ends the stretch
    · have hplain : ∀ b ∈ plain ++ String.utf8EncodeChar c, isPlain b = true := fun b hb ↦
        (List.mem_append.mp hb).elim (h b) (isPlain_of_mem_utf8EncodeChar hc)
      have hruns := ih done (plain ++ String.utf8EncodeChar c) rest hplain
      rw [escape_of_isPlainChar hc, utf8_cons, utf8_nil, List.append_nil]
      simpa only [List.append_assoc] using hruns
    · obtain ⟨letters, hescape, hescaped⟩ :=
        on_escaped hc (utf8 (cs.flatMap escape) ++ 34 :: rest)
      have hstretch := on_stretch_escape h done hescaped
      have hruns := ih (String.utf8EncodeChar c :: plain :: done) [] rest (by simp)
      simp only [List.reverse_cons, List.flatten_append, List.flatten_singleton,
        List.append_assoc, List.nil_append] at hruns
      rw [hescape, utf8_cons_ascii (by decide), List.append_assoc, List.cons_append]
      refine .go hstretch ?_ hruns
      simp only [List.length_append, List.length_cons]
      omega

/-- A string that was written reads back, from behind its opening quote. -/
theorem on_string (s : String) (rest : List UInt8) :
    string.on (utf8 (s.toList.flatMap escape) ++ 34 :: rest) = (.ok s, rest) := by
  have hruns := runs_stretch s.toList [] [] rest (by simp)
  have hloop := on_loop hruns
  unfold string
  rw [List.nil_append] at hloop
  rw [on_bind_ok hloop]
  simp only [List.reverse_nil, List.flatten_nil, List.nil_append, fromUTF8?_utf8]
  rfl

/-! ### Integers -/

/-- The byte of a digit. -/
def digitByte (c : Char) : UInt8 := UInt8.ofNat c.toNat

theorem toNat_bounds_of_isDigit {c : Char} (h : c.isDigit = true) :
    48 ≤ c.toNat ∧ c.toNat ≤ 57 := by
  simp only [Char.isDigit, Bool.and_eq_true, decide_eq_true_eq] at h
  exact h

theorem toNat_digitByte {c : Char} (h : c.isDigit = true) : (digitByte c).toNat = c.toNat := by
  have hbounds := toNat_bounds_of_isDigit h
  rw [digitByte, UInt8.toNat_ofNat']
  exact Nat.mod_eq_of_lt (by omega)

theorem isDigit_digitByte {c : Char} (h : c.isDigit = true) : isDigit (digitByte c) = true := by
  have hbounds := toNat_bounds_of_isDigit h
  rw [← toNat_digitByte h] at hbounds
  have hlow : (48 : UInt8) ≤ digitByte c := hbounds.1
  have hhigh : digitByte c ≤ (57 : UInt8) := hbounds.2
  simp [isDigit, hlow, hhigh]

/-- A numeral goes out digit by digit. -/
theorem utf8_digits {cs : List Char} (h : ∀ c ∈ cs, c.isDigit = true) :
    utf8 cs = cs.map digitByte := by
  induction cs with
  | nil => rfl
  | cons c cs ih =>
    obtain ⟨hc, hcs⟩ := List.forall_mem_cons.mp h
    have hbounds := toNat_bounds_of_isDigit hc
    rw [utf8_cons_ascii (by omega), ih hcs, List.map_cons]
    rfl

/-- The digits of a number: those of a positive one do not start with zero. -/
theorem exists_toDigits_eq_cons (n : Nat) (hn : 0 < n) :
    ∃ c cs, Nat.toDigits 10 n = c :: cs ∧ c ≠ '0' := by
  induction n using Nat.strongRecOn with
  | _ n ih =>
    rcases Nat.lt_or_ge n 10 with hlt | hge
    · refine ⟨n.digitChar, [], Nat.toDigits_of_lt_base hlt, ?_⟩
      interval_cases n <;> decide
    · obtain ⟨c, cs, hcs, hc⟩ := ih (n / 10) (by omega) (by omega)
      refine ⟨c, cs ++ [(n % 10).digitChar], ?_, hc⟩
      rw [Nat.toDigits_of_base_le (by decide) hge, hcs, List.cons_append]

/-- Digits of a number that fits the significand are all taken. -/
theorem gather_digits {cs : List Char} (h : ∀ c ∈ cs, c.isDigit = true) :
    ∀ (s n : Nat), Nat.ofDigitChars 10 cs s < significandBound →
      gather s n (cs.map digitByte) = (Nat.ofDigitChars 10 cs s, n + cs.length, []) := by
  induction cs with
  | nil =>
    intro s n _
    rw [Nat.ofDigitChars_nil]
    rfl
  | cons c cs ih =>
    intro s n hbound
    obtain ⟨hc, hcs⟩ := List.forall_mem_cons.mp h
    have hvalue : s * 10 + digitValue (digitByte c) = 10 * s + (c.toNat - '0'.toNat) := by
      rw [digitValue, toNat_digitByte hc, Nat.mul_comm]
      rfl
    rw [Nat.ofDigitChars_cons] at hbound ⊢
    have hless : 10 * s + (c.toNat - '0'.toNat) < significandBound := by
      refine Nat.lt_of_le_of_lt ?_ hbound
      rw [Nat.ofDigitChars_eq_ofDigitChars_zero]
      exact Nat.le_trans (Nat.le_mul_of_pos_left _ (by positivity)) (Nat.le_add_right _ _)
    rw [List.map_cons, gather, hvalue, if_neg (Nat.not_le.mpr hless), ih hcs _ _ hbound,
      List.length_cons, Nat.add_right_comm]
    rfl

/-- Digits are read up to what cannot go on with them. -/
theorem on_digits {ds rest : List UInt8} (h : ∀ b ∈ ds, isDigit b = true) (hrest : Ends rest) :
    digits.on (ds ++ rest) = (.ok ds, rest) := by
  obtain ⟨htake, hdrop⟩ := takeWhile_append_eq h fun b hb ↦ (hrest b hb).1
  unfold digits
  rw [on_bind_ok (on_rest _), on_bind_ok (on_modify _ _), htake, hdrop, on_pure]

/-- Nothing behind the digits goes on with the number. -/
theorem on_tail (negative : Bool) (s : Nat) {rest : List UInt8} (hrest : Ends rest) :
    (number.tail negative s 0).on rest = (.ok (wholeNumber negative s), rest) := by
  have hexponent : atExponent.on rest = (.ok false, rest) := by
    refine (on_bind_ok (on_peek rest)).trans ?_
    rw [on_pure]
    cases rest with
    | nil => rfl
    | cons b rest =>
      obtain ⟨-, -, he, hE⟩ := hrest b rfl
      simp [he, hE]
  unfold number.tail
  rw [on_bind_ok (on_peek rest)]
  split
  · rename_i h
    exact absurd rfl (hrest 46 h).2.1
  · exact on_bind_ok hexponent

/-- A natural number that was written reads back, from behind its sign. -/
theorem on_number (negative : Bool) {n : Nat} (hn : n < significandBound) {rest : List UInt8}
    (hrest : Ends rest) :
    (number negative).on (utf8 (Decimal.digitsOf n) ++ rest) =
      (.ok (wholeNumber negative n), rest) := by
  have hdigits : ∀ c ∈ Nat.toDigits 10 n, c.isDigit = true := fun c hc ↦
    Nat.isDigit_of_mem_toDigits (by decide) (by decide) hc
  have hvalue := Nat.ofDigitChars_ten_toDigits (n := n)
  unfold number
  rw [Decimal.digitsOf, utf8_digits hdigits]
  -- a zero is never followed by digits, so it is read on its own
  rcases Nat.eq_zero_or_pos n with rfl | hpos
  · rw [Nat.toDigits_zero]
    refine (on_bind_ok (on_next _)).trans ?_
    refine (on_bind_ok (on_peek _)).trans ?_
    have hany : ¬rest.head?.any isDigit = true := by
      rw [Option.any_eq_true]
      rintro ⟨b, hb, hdigit⟩
      exact Bool.false_ne_true ((hrest b hb).1.symm.trans hdigit)
    exact (congrFun (congrArg on (if_neg hany)) _).trans (on_tail negative 0 hrest)
  · obtain ⟨c, cs, hcs, hc⟩ := exists_toDigits_eq_cons n hpos
    rw [hcs] at hdigits hvalue ⊢
    obtain ⟨hcdigit, hcsdigits⟩ := List.forall_mem_cons.mp hdigits
    have hcs' : ∀ b ∈ cs.map digitByte, isDigit b = true := by
      simpa using fun c hc ↦ isDigit_digitByte (hcsdigits c hc)
    have hfirst : digitByte c ≠ 48 := fun e ↦
      hc (Char.toNat_inj.mp ((toNat_digitByte hcdigit).symm.trans (congrArg UInt8.toNat e)))
    have hstart : digitValue (digitByte c) = 10 * 0 + (c.toNat - '0'.toNat) := by
      rw [digitValue, toNat_digitByte hcdigit, Nat.mul_zero, Nat.zero_add]
      rfl
    rw [Nat.ofDigitChars_cons, ← hstart] at hvalue
    have hgather := gather_digits hcsdigits (digitValue (digitByte c)) 0 (hvalue.symm ▸ hn)
    refine (on_bind_ok (on_next _)).trans ?_
    refine (congrFun (congrArg on (if_neg hfirst)) _).trans ?_
    refine (congrFun (congrArg on (if_pos (isDigit_digitByte hcdigit))) _).trans ?_
    refine (on_bind_ok (on_digits hcs' hrest)).trans ?_
    rw [hgather, hvalue]
    exact on_tail negative n hrest

/-! ### Integers of 64 bits -/

theorem wholeNumber_of_nonneg (n : Nat) : wholeNumber false n = .integer n := rfl

/-- A number with a sign is read as its negative, as long as 64 bits can hold it. -/
theorem wholeNumber_of_neg {n : Nat} (hpos : 0 < n) (hbound : n ≤ Nat.pow 2 63) :
    wholeNumber true n = .integer (-(n : Int)) := by
  have h : ¬(decide (n = 0) || decide (Nat.pow 2 63 < n)) = true := by
    simp only [Bool.or_eq_true, decide_eq_true_eq]
    omega
  unfold wholeNumber
  rw [if_pos rfl, if_neg h]

end Reader

end Parley.Json
