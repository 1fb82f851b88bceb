import Parley.Json.Skip
import Parley.Proofs.DocumentSteps

/-!
# Passing over strings and numbers

Whatever reads as a string or as a number is passed over as one, and ends at the same byte
(`Reader.on_skipString_of_string`, `Reader.on_skipNumber_of_number`). Passing over is laxer: it
checks neither the code points that are spelled by escapes nor the size of a number.

Readers that never give bytes back (`Reader.Shrinks`) and readers that take at least one
(`Reader.Consumes`) are told apart, since a loop whose rounds take bytes is never cut short
(`Reader.on_loop_of_rounds`).
-/

namespace Parley.Json.Reader

variable {α β σ : Type}

/-! ### Readers that never give bytes back -/

/-- What is left is no longer than what was there. -/
def Shrinks (r : Reader α) : Prop :=
  ∀ bytes a left, r.on bytes = (.ok a, left) → left.length ≤ bytes.length

namespace Shrinks

theorem pure (a : α) : Shrinks (Pure.pure a) := by
  rintro bytes _ _ ⟨⟩
  exact Nat.le_refl _

theorem failHere (p : Problem) : Shrinks (failHere p : Reader α) := fun _ _ _ h ↦ nomatch h

theorem failNext (p : Problem) : Shrinks (failNext p : Reader α) := fun _ _ _ h ↦ nomatch h

/-- Two readers in a row leave no more than they found, if each of them does so. -/
theorem bind {r : Reader α} {next : α → Reader β} (hr : Shrinks r)
    (hnext : ∀ a, Shrinks (next a)) : Shrinks (r >>= next) := by
  intro bytes b left h
  obtain ⟨a, mid, ha, hb⟩ := exists_of_on_bind h
  exact (hnext a mid b left hb).trans (hr bytes a mid ha)

theorem rest : Shrinks rest := by
  rintro bytes _ _ ⟨⟩
  exact Nat.le_refl _

theorem peek : Shrinks peek := by
  rintro bytes _ _ ⟨⟩
  exact Nat.le_refl _

theorem skip : Shrinks skip := by
  rintro bytes _ _ ⟨⟩
  rw [List.length_tail]
  exact Nat.sub_le ..

theorem next : Shrinks next := by
  rintro bytes _ _ ⟨⟩
  rw [List.length_tail]
  exact Nat.sub_le ..

theorem dropWhile (p : UInt8 → Bool) :
    Shrinks (modify (List.dropWhile p) : Reader Unit) := by
  rintro bytes _ _ ⟨⟩
  exact List.length_dropWhile_le ..

theorem peekToken : Shrinks peekToken := (dropWhile _).bind fun _ ↦ peek

theorem digits : Shrinks digits := rest.bind fun _ ↦ (dropWhile _).bind fun _ ↦ pure _

theorem atExponent : Shrinks atExponent := peek.bind fun _ ↦ pure _

theorem word (ws : List UInt8) : Shrinks (word ws) := by
  induction ws with
  | nil => exact pure ()
  | cons w ws ih =>
    refine next.bind fun b ↦ ?_
    split
    · exact failHere _
    · split
      · exact ih
      · exact failHere _

theorem hex4 : Shrinks hex4 := by
  intro bytes n left h
  rw [Reader.hex4, on_bind_ok (on_rest bytes)] at h
  split at h
  · obtain ⟨_, mid, hset, h⟩ := exists_of_on_bind h
    cases hset
    split at h
    · cases h
      simp only [List.length_cons]
      omega
    · cases h
  · obtain ⟨_, mid, -, h⟩ := exists_of_on_bind h
    cases h

theorem colon : Shrinks colon := by
  refine peekToken.bind fun b ↦ ?_
  split
  · exact skip
  · exact failNext _
  · exact failNext _

/-- A loop leaves no more than what each of its rounds leaves. -/
theorem loop {step : σ → Reader (σ ⊕ α)} (hstep : ∀ s, Shrinks (step s)) (s : σ) :
    Shrinks (loop step s) := by
  intro bytes a left h
  obtain ⟨n, -, hrounds⟩ := on_loop_iff.mp h
  clear h
  induction hrounds with
  | stop h => exact hstep _ _ _ _ h
  | go h _ ih => exact ih.trans (hstep _ _ _ _ h)

end Shrinks

/-- The first byte that is there is not left. -/
def Consumes (r : Reader α) : Prop :=
  ∀ b rest a left, r.on (b :: rest) = (.ok a, left) → left.length ≤ rest.length

namespace Consumes

/-- What is skipped is not left. -/
theorem skip : Consumes skip := by
  rintro b rest _ _ ⟨⟩
  exact Nat.le_refl _

/-- What is taken as the next byte is not left. -/
theorem next : Consumes next := by
  rintro b rest _ _ ⟨⟩
  exact Nat.le_refl _

theorem failNext (p : Problem) : Consumes (failNext p : Reader α) := fun _ _ _ _ h ↦ nomatch h

/-- It is enough that the first of two readers consumes something. -/
theorem bind {r : Reader α} {next : α → Reader β} (hr : Consumes r)
    (hnext : ∀ a, Shrinks (next a)) : Consumes (r >>= next) := by
  intro b rest a left h
  obtain ⟨_, mid, ha, hb⟩ := exists_of_on_bind h
  exact (hnext _ _ _ _ hb).trans (hr _ _ _ _ ha)

end Consumes

/-- If each round but the last one consumes something, the bound of a loop is never met. -/
theorem on_loop_of_rounds {step : σ → Reader (σ ⊕ α)}
    (hstep : ∀ {s bytes s' mid}, (step s).on bytes = (.ok (.inl s'), mid) →
      mid.length < bytes.length) {n : Nat} {s : σ} {bytes left : List UInt8} {a : α}
    (h : Rounds step n s bytes a left) : (loop step s).on bytes = (.ok a, left) := by
  have hruns : Runs step s bytes a left := by
    induction h with
    | stop h => exact .stop h
    | go h _ ih => exact .go h (hstep h) ih
  exact on_loop hruns

/-! ### Strings -/

/-- Skipping an escape leaves no more than it found. -/
theorem shrinks_skipEscape : Shrinks skipEscape := by
  refine .bind .next fun b ↦ ?_
  split
  · exact .failHere _
  · split
    · exact .bind .hex4 fun _ ↦ .pure ()
    · split
      · exact .pure ()
      · exact .failHere _

/-- A stretch that ends with a quote is the last one. -/
theorem on_skipStretch_quote {bytes left : List UInt8}
    (h : bytes.dropWhile isPlain = 34 :: left) :
    (skipStretch ()).on bytes = (.ok (.inr ()), left) := by
  rw [skipStretch, on_bind_ok (on_modify _ bytes), on_bind_ok (on_peek _), h]
  rfl

/-- A stretch that ends with an escape is followed by another. -/
theorem on_skipStretch_escape {bytes rest left : List UInt8}
    (h : bytes.dropWhile isPlain = 92 :: rest) (hescape : skipEscape.on rest = (.ok (), left)) :
    (skipStretch ()).on bytes = (.ok (.inl ()), left) := by
  rw [skipStretch, on_bind_ok (on_modify _ bytes), on_bind_ok (on_peek _), h]
  exact on_skip_bind_iff.mpr ⟨_, hescape, rfl⟩

/-- Every stretch consumes something: the quote or the backslash behind it. -/
theorem skipStretch_consumes {bytes left : List UInt8} {out : Unit ⊕ Unit}
    (h : (skipStretch ()).on bytes = (.ok out, left)) : left.length < bytes.length := by
  have hplain : (bytes.dropWhile isPlain).length ≤ bytes.length := List.length_dropWhile_le ..
  rw [skipStretch, on_bind_ok (on_modify _ bytes), on_bind_ok (on_peek _)] at h
  rcases hbytes : bytes.dropWhile isPlain with - | ⟨b, rest⟩
  · rw [hbytes] at h
    cases h
  · rw [hbytes, List.length_cons] at hplain
    rw [hbytes] at h
    split at h
    · cases h
    · cases h
      exact hplain
    · rw [on_bind_ok (on_skip _)] at h
      obtain ⟨_, mid, hescape, h⟩ := exists_of_on_bind h
      cases h
      exact (shrinks_skipEscape _ _ _ hescape).trans_lt hplain
    · cases h

/-- Skipping a string leaves no more than it found. -/
theorem shrinks_skipString : Shrinks skipString :=
  .loop (fun _ _ _ _ h ↦ (skipStretch_consumes h).le) ()

/-- What a stretch of a string is: it goes up to the quote at the end, or over an escape. -/
theorem exists_of_stretch {done : List (List UInt8)} {bytes left : List UInt8}
    {out : List (List UInt8) ⊕ List UInt8} (h : (stretch done).on bytes = (.ok out, left)) :
    ((∃ s, out = .inr s) ∧ bytes.dropWhile isPlain = 34 :: left) ∨
      ∃ rest cs, bytes.dropWhile isPlain = 92 :: rest ∧ escaped.on rest = (.ok cs, left) ∧
        ∃ done', out = .inl done' := by
  rw [stretch, on_bind_ok (on_rest bytes), on_bind_ok (on_modify _ bytes), on_bind_ok (on_next _)]
    at h
  rcases hbytes : bytes.dropWhile isPlain with - | ⟨b, rest⟩
  · rw [hbytes] at h
    cases h
  · rw [hbytes] at h
    split at h
    · cases h
    · rename_i heq
      cases heq
      cases h
      exact .inl ⟨⟨_, rfl⟩, rfl⟩
    · rename_i heq
      cases heq
      obtain ⟨cs, mid, hescaped, h⟩ := exists_of_on_bind h
      cases h
      exact .inr ⟨rest, cs, rfl, hescaped, _, rfl⟩
    · cases h

/-- A byte that has to continue a pair is the next one. -/
theorem eq_of_pairContinues {b : UInt8} {bytes left : List UInt8}
    (h : (pairContinues b).on bytes = (.ok (), left)) : bytes = b :: left := by
  cases bytes with
  | nil => cases h
  | cons seen rest =>
    have h : (if seen = b then pure () else failHere .endOfHexEscape : Reader Unit).on rest =
        (.ok (), left) := h
    split at h
    · rename_i hseen
      cases h
      rw [hseen]
    · cases h

/-- A code point is spelled by one escape or by the two of a surrogate pair. -/
theorem exists_of_codePoint {bytes left : List UInt8} {c : Char}
    (h : codePoint.on bytes = (.ok c, left)) :
    ∃ n mid, hex4.on bytes = (.ok n, mid) ∧
      (mid = left ∨ ∃ rest low, mid = 92 :: 117 :: rest ∧ hex4.on rest = (.ok low, left)) := by
  obtain ⟨n, mid, hhex, h⟩ := exists_of_on_bind h
  refine ⟨n, mid, hhex, ?_⟩
  split at h
  · cases h
  · split at h
    · obtain ⟨_, _, hslash, h⟩ := exists_of_on_bind h
      obtain ⟨_, _, hletter, h⟩ := exists_of_on_bind h
      obtain ⟨low, _, hlow, h⟩ := exists_of_on_bind h
      rw [eq_of_pairContinues hslash, eq_of_pairContinues hletter]
      split at h
      · rw [on_pure] at h
        rw [(Prod.mk.inj h).2] at hlow
        exact .inr ⟨_, low, rfl, hlow⟩
      · cases h
    · exact .inl (Prod.mk.inj h).2

/-- Four hexadecimal digits behind a `u` are an escape, whatever they stand for. -/
theorem on_skipEscape_hex4 {bytes left : List UInt8} {n : Nat} (h : hex4.on bytes = (.ok n, left)) :
    skipEscape.on (117 :: bytes) = (.ok (), left) := on_bind_ok h

/-- An escape is passed over at once, the two escapes of a surrogate pair one after the other. -/
theorem on_skipEscape_of_escaped {bytes left : List UInt8} {cs : List UInt8}
    (h : escaped.on bytes = (.ok cs, left)) :
    skipEscape.on bytes = (.ok (), left) ∨
      ∃ rest, skipEscape.on bytes = (.ok (), 92 :: rest) ∧ skipEscape.on rest = (.ok (), left) := by
  rw [escaped, on_bind_ok (on_next _)] at h
  rcases bytes with - | ⟨b, rest⟩
  · cases h
  · rw [List.head?_cons] at h
    dsimp only at h
    split at h
    · rename_i plain hplain
      cases h
      have hb : b ≠ 117 := by
        rintro rfl
        cases hplain
      left
      rw [skipEscape, on_bind_ok (on_next _), List.head?_cons]
      dsimp only
      rw [if_neg hb, hplain]
      rfl
    · split at h
      · rename_i hb
        subst hb
        obtain ⟨c, mid, hpoint, h⟩ := exists_of_on_bind h
        cases h
        obtain ⟨n, mid, hhex, rfl | ⟨rest, low, rfl, hlow⟩⟩ := exists_of_codePoint hpoint
        · exact .inl (on_skipEscape_hex4 hhex)
        · exact .inr ⟨_, on_skipEscape_hex4 hhex, on_skipEscape_hex4 hlow⟩
      · cases h

/-- Whatever reads as a string is passed over as one. -/
theorem on_skipString_of_string {bytes left : List UInt8} {s : String}
    (h : string.on bytes = (.ok s, left)) : skipString.on bytes = (.ok (), left) := by
  obtain ⟨_, mid, hloop, hutf8⟩ := exists_of_on_bind h
  have hmid : mid = left := by
    dsimp only at hutf8
    split at hutf8
    · cases hutf8
      rfl
    · obtain ⟨_, _, -, hutf8⟩ := exists_of_on_bind hutf8
      cases hutf8
  subst hmid
  obtain ⟨n, -, hrounds⟩ := on_loop_iff.mp hloop
  obtain ⟨n', hskip⟩ : ∃ n', Rounds skipStretch n' () bytes () mid := by
    clear h hloop hutf8
    generalize ([] : List (List UInt8)) = done at hrounds
    induction hrounds with
    | stop h =>
      obtain ⟨-, hquote⟩ | ⟨_, _, -, -, _, hout⟩ := exists_of_stretch h
      · exact ⟨0, .stop (on_skipStretch_quote hquote)⟩
      · cases hout
    | go h _ ih =>
      obtain ⟨n', hskip⟩ := ih
      obtain ⟨⟨_, hout⟩, -⟩ | ⟨rest, cs, hslash, hescaped, -⟩ := exists_of_stretch h
      · cases hout
      · obtain hone | ⟨rest', hfirst, hsecond⟩ := on_skipEscape_of_escaped hescaped
        · exact ⟨_, .go (on_skipStretch_escape hslash hone) hskip⟩
        · -- the second half of the pair is a round of its own
          have hagain : (92 :: rest').dropWhile isPlain = 92 :: rest' := rfl
          exact ⟨_, .go (on_skipStretch_escape hslash hfirst)
            (.go (on_skipStretch_escape hagain hsecond) hskip)⟩
  exact on_loop_of_rounds (fun h ↦ skipStretch_consumes h) hskip

/-! ### Numbers -/

/-- Scaling a number reads nothing. -/
theorem eq_of_scaled {negative : Bool} {significand : Nat} {exponent : Int}
    {bytes left : List UInt8} {n : Number}
    (h : (scaled negative significand exponent).on bytes = (.ok n, left)) : left = bytes := by
  rw [scaled] at h
  dsimp only at h
  split at h
  · cases h
    rfl
  · split at h
    · split at h
      · cases h
      · cases h
        rfl
    · split at h
      · cases h
        rfl
      · cases h

/-- An exponent is passed over, behind its sign. -/
def skipPower : Reader Unit := do
  match ← next with
  | none => failHere .invalidNumber
  | some b => if isDigit b then let _ ← digits else failHere .invalidNumber

/-- The bytes behind a sign, if there is one. -/
def unsigned (bytes : List UInt8) : List UInt8 :=
  if bytes.head? = some 43 ∨ bytes.head? = some 45 then bytes.tail else bytes

/-- An exponent is passed over with its sign or without. -/
theorem on_skipExponent (bytes : List UInt8) :
    skipExponent.on bytes = skipPower.on (unsigned bytes.tail) := by
  rw [skipExponent, on_bind_ok (on_skip _), on_bind_ok (on_peek _), unsigned]
  generalize bytes.tail = behind
  dsimp only
  split
  · rename_i h
    rw [if_pos (.inl h)]
    rfl
  · rename_i h
    rw [if_pos (.inr h)]
    rfl
  · rename_i hplus hminus
    rw [if_neg (not_or.mpr ⟨hplus, hminus⟩)]
    rfl

/-- The digits of an exponent are passed over, however large it is. -/
theorem on_skipExponent_of_exponentPart {negative : Bool} {significand : Nat} {start : Int}
    {bytes left : List UInt8} {n : Number}
    (h : (exponentPart negative significand start).on bytes = (.ok n, left)) :
    skipExponent.on bytes = (.ok (), left) := by
  rw [exponentPart, on_bind_ok (on_skip _)] at h
  obtain ⟨downward, behind, hsign, h⟩ := exists_of_on_bind h
  obtain rfl : behind = unsigned bytes.tail := by
    rw [on_bind_ok (on_peek _)] at hsign
    rw [unsigned]
    split at hsign
    · rename_i hplus
      cases hsign
      rw [if_pos (.inl hplus)]
    · rename_i hminus
      cases hsign
      rw [if_pos (.inr hminus)]
    · rename_i hplus hminus
      cases hsign
      rw [if_neg (not_or.mpr ⟨hplus, hminus⟩)]
  rw [on_skipExponent, skipPower]
  rw [on_bind_ok (on_next _)] at h ⊢
  generalize (unsigned bytes.tail).head? = seen at h ⊢
  cases seen with
  | none => cases h
  | some first =>
    dsimp only at h
    split at h
    · rename_i hdigit
      rw [on_bind_ok (on_rest _)] at h
      obtain ⟨ds, mid, hdigits, h⟩ := exists_of_on_bind h
      have hmid : left = mid := by
        split at h
        · exact eq_of_scaled h
        · split at h
          · cases h
            rfl
          · obtain ⟨_, _, -, h⟩ := exists_of_on_bind h
            cases h
      dsimp only
      rw [if_pos hdigit, on_bind_ok hdigits, hmid]
      rfl
    · cases h

/-- An exponent is passed over, if there is one. -/
def skipPowerOfTen : Reader Unit := do
  if ← atExponent then skipExponent else pure ()

/-- What comes behind the digits before the point is passed over. -/
def skipTail : Reader Unit := do
  if (← peek) = some 46 then skipFraction else pure ()
  skipPowerOfTen

/-- A number is passed over in two parts, as it is read. -/
theorem skipNumber_eq : skipNumber = skipWhole >>= fun _ ↦ skipTail := rfl

/-- Where a power of ten is read, one is passed over. -/
theorem on_skipPowerOfTen {negative : Bool} {significand : Nat} {exponent : Int}
    {done : Reader Number} {bytes left : List UInt8} {n : Number}
    (h : (do if ← atExponent then exponentPart negative significand exponent else done).on bytes =
      (.ok n, left)) (hdone : done.on bytes = (.ok n, left) → left = bytes) :
    skipPowerOfTen.on bytes = (.ok (), left) := by
  obtain ⟨more, mid, hmore, hpart⟩ := exists_of_on_bind h
  obtain rfl : bytes = mid := (Prod.mk.inj hmore).2
  rw [skipPowerOfTen, on_bind_ok hmore]
  cases more with
  | true => exact on_skipExponent_of_exponentPart hpart
  | false =>
    rw [hdone hpart]
    rfl

/-- What is read behind the digits of a number is passed over. -/
theorem on_skipTail_of_tail {negative : Bool} {significand surplus : Nat}
    {bytes left : List UInt8} {n : Number}
    (h : (number.tail negative significand surplus).on bytes = (.ok n, left)) :
    skipTail.on bytes = (.ok (), left) := by
  rw [number.tail, on_bind_ok (on_peek _)] at h
  rw [skipTail, on_bind_ok (on_peek _)]
  dsimp only
  split at h
  · rename_i hpoint
    rw [if_pos hpoint]
    rw [fractionPart, on_bind_ok (on_skip _)] at h
    obtain ⟨ds, mid, hdigits, h⟩ := exists_of_on_bind h
    split at h
    · obtain ⟨_, _, -, h⟩ := exists_of_on_bind h
      split at h <;> cases h
    · rename_i hds
      have hfraction : skipFraction.on bytes = (.ok (), mid) := by
        rw [skipFraction, on_bind_ok (on_skip _), on_bind_ok hdigits, if_neg hds, on_pure]
      exact (on_bind_ok hfraction).trans (on_skipPowerOfTen h eq_of_scaled)
  · rename_i hpoint
    rw [if_neg hpoint]
    refine on_skipPowerOfTen h fun h ↦ ?_
    split at h
    · cases h
      rfl
    · exact eq_of_scaled h

/-- Whatever reads as a number is passed over as one. -/
theorem on_skipNumber_of_number {negative : Bool} {bytes left : List UInt8} {n : Number}
    (h : (number negative).on bytes = (.ok n, left)) : skipNumber.on bytes = (.ok (), left) := by
  rw [number, on_bind_ok (on_next _)] at h
  have hwhole : ∃ mid, skipWhole.on bytes = (.ok (), mid) ∧
      ∃ s surplus, (number.tail negative s surplus).on mid = (.ok n, left) := by
    rw [skipWhole, on_bind_ok (on_next _)]
    rcases bytes with - | ⟨b, rest⟩
    · cases h
    · rw [List.head?_cons] at h ⊢
      dsimp only at h ⊢
      split at h
      · rename_i hzero
        subst hzero
        rw [on_bind_ok (on_peek _)] at h
        split at h
        · cases h
        · rename_i hdigit
          exact ⟨rest, (on_bind_ok (on_peek _)).trans (by rw [if_neg hdigit]; rfl), 0, 0, h⟩
      · rename_i hzero
        split at h
        · rename_i hdigit
          obtain ⟨ds, mid, hdigits, h⟩ := exists_of_on_bind h
          refine ⟨mid, ?_, _, _, h⟩
          split
          · rename_i heq
            exact absurd (Option.some.inj heq) hzero
          · rename_i heq
            cases heq
            rw [if_pos hdigit]
            exact (on_bind_ok hdigits).trans rfl
          · rename_i heq
            cases heq
        · cases h
  obtain ⟨mid, hwhole, s, surplus, htail⟩ := hwhole
  rw [skipNumber_eq, on_bind_ok hwhole]
  exact on_skipTail_of_tail htail

/-! ### Numbers take bytes -/

/-- Skipping an exponent leaves no more than it found. -/
theorem shrinks_skipExponent : Shrinks skipExponent := by
  intro bytes a left h
  rw [on_skipExponent] at h
  have hpower : Shrinks skipPower := by
    refine .bind .next fun b ↦ ?_
    split
    · exact .failHere _
    · split
      · exact .bind .digits fun _ ↦ .pure ()
      · exact .failHere _
  have hsign : (unsigned bytes.tail).length ≤ bytes.tail.length := by
    rw [unsigned]
    split
    · exact Shrinks.skip _ _ _ (on_skip _)
    · exact Nat.le_refl _
  exact (hpower _ _ _ h).trans (hsign.trans (Shrinks.skip _ _ _ (on_skip _)))

/-- Skipping the tail of a number leaves no more than it found. -/
theorem shrinks_skipTail : Shrinks skipTail := by
  have hfraction : Shrinks skipFraction := by
    refine .bind .skip fun _ ↦ .bind .digits fun ds ↦ ?_
    split
    · exact .failNext _
    · exact .pure ()
  have hend : Shrinks skipPowerOfTen := by
    refine .bind .atExponent fun more ↦ ?_
    split
    · exact shrinks_skipExponent
    · exact .pure ()
  refine .bind .peek fun b ↦ ?_
  split
  · exact .bind hfraction fun _ ↦ hend
  · exact hend

/-- Skipping a number consumes something: there is a digit at least. -/
theorem consumes_skipNumber : Consumes skipNumber := by
  rw [skipNumber_eq]
  refine .bind (.bind .next fun b ↦ ?_) fun _ ↦ shrinks_skipTail
  split
  · refine .bind .peek fun b ↦ ?_
    split
    · exact .failNext _
    · exact .pure ()
  · split
    · exact .bind .digits fun _ ↦ .pure ()
    · exact .failHere _
  · exact .failHere _

/-- In particular it leaves no more than it found. -/
theorem shrinks_skipNumber : Shrinks skipNumber := by
  rintro (_ | ⟨b, rest⟩) _ left h
  · cases h
  · exact (consumes_skipNumber b rest () left h).trans (Nat.le_succ _)

end Parley.Json.Reader
