import Mathlib.Data.List.TakeWhile
import Parley.Json.Document

/-!
# What readers do

Facts about `Reader`s in general, in two directions. Forwards: what a reader makes of bytes that are
at hand, token by token; `Reader.Runs` follows a loop round by round, so that its bound on the
number of rounds never has to be looked at again (`Reader.on_loop`). Backwards: what is true of
everything a reader can give, whatever the bytes (`Reader.Yields`).

`utf8` is the text as bytes. `Ends` says that the bytes behind a value do not go on with it, which
only a number could do.
-/

namespace Parley.Json

/-! ### Characters as bytes -/

/-- Some characters as bytes. -/
def utf8 (cs : List Char) : List UInt8 := cs.flatMap String.utf8EncodeChar

@[simp] theorem utf8_nil : utf8 [] = [] := rfl

@[simp] theorem utf8_append (cs ds : List Char) : utf8 (cs ++ ds) = utf8 cs ++ utf8 ds :=
  List.flatMap_append

theorem utf8_cons (c : Char) (cs : List Char) :
    utf8 (c :: cs) = String.utf8EncodeChar c ++ utf8 cs := List.flatMap_cons

/-- A character of one byte stands for itself. -/
theorem utf8_cons_ascii {c : Char} (h : c.toNat < 128) (cs : List Char) :
    utf8 (c :: cs) = UInt8.ofNat c.toNat :: utf8 cs := by
  have hle : c.val.toNat ≤ 0x7f := Nat.le_of_lt_succ h
  rw [utf8_cons, String.utf8EncodeChar]
  simp only [hle, if_true, List.singleton_append]
  rfl

/-- The loop by which a byte array is listed gives the list it holds. It counts an index up, so the
induction is on the bytes that are still to come. -/
theorem toList_byteArray (bytes : ByteArray) : bytes.toList = bytes.data.toList := by
  have hloop : ∀ (n i : Nat) (done : List UInt8), bytes.size - i = n →
      ByteArray.toList.loop bytes i done = done.reverse ++ bytes.data.toList.drop i := by
    intro n
    induction n with
    | zero =>
      intro i done hn
      have hsize : bytes.data.toList.length ≤ i := by
        rw [Array.length_toList]
        exact Nat.le_of_sub_eq_zero hn
      rw [ByteArray.toList.loop, if_neg (Nat.not_lt.mpr (Nat.le_of_sub_eq_zero hn)),
        List.drop_eq_nil_of_le hsize, List.append_nil]
    | succ n ih =>
      intro i done hn
      have hi : i < bytes.size := Nat.lt_of_sub_eq_succ hn
      have hlist : i < bytes.data.toList.length := by rwa [Array.length_toList]
      have hget : bytes.get! i = bytes.data.toList[i] := by
        rw [Array.getElem_toList]
        exact getElem!_pos bytes.data i hi
      rw [ByteArray.toList.loop, if_pos hi, ih (i + 1) _ (by omega),
        List.drop_eq_getElem_cons hlist, hget, List.reverse_cons, List.append_assoc]
      rfl
  have h := hloop (bytes.size - 0) 0 [] rfl
  exact h

/-- The bytes of a text are those of its characters. -/
theorem toByteArray_eq_utf8 (s : String) : s.toByteArray = (utf8 s.toList).toByteArray := by
  rw [← String.utf8Encode_toList, List.utf8Encode]
  rfl

/-- A text goes out as the bytes of its characters, one after the other. -/
theorem toList_toUTF8 (s : String) : s.toUTF8.toList = utf8 s.toList := by
  rw [String.toUTF8_eq_toByteArray, toByteArray_eq_utf8, toList_byteArray,
    List.toList_data_toByteArray]

/-- The bytes of a text spell it. -/
theorem fromUTF8?_utf8 (s : String) : String.fromUTF8? ⟨(utf8 s.toList).toArray⟩ = some s := by
  have hbytes : (⟨(utf8 s.toList).toArray⟩ : ByteArray) = s.toByteArray := by
    apply ByteArray.ext
    rw [toByteArray_eq_utf8, List.data_toByteArray]
  rw [hbytes, String.fromUTF8?, dif_pos s.isValidUTF8]
  rfl

/-- The bytes cannot go on with a number: neither a digit nor a point nor an exponent is next. -/
def Ends (rest : List UInt8) : Prop :=
  ∀ b ∈ rest.head?, Reader.isDigit b = false ∧ b ≠ 46 ∧ b ≠ 101 ∧ b ≠ 69

theorem ends_nil : Ends [] := fun _ h ↦ nomatch h

theorem ends_cons {b : UInt8} {rest : List UInt8}
    (h : Reader.isDigit b = false ∧ b ≠ 46 ∧ b ≠ 101 ∧ b ≠ 69) : Ends (b :: rest) := by
  intro b' hb'
  cases hb'
  exact h

namespace Reader

variable {α β σ : Type}

/-! ### One reader after another -/

/-- After a reader that succeeds, the next one starts on what was left. -/
theorem on_bind_ok {r : Reader α} {next : α → Reader β} {bytes left : List UInt8} {a : α}
    (h : r.on bytes = (.ok a, left)) : (r >>= next).on bytes = (next a).on left := by
  rw [on_bind, h]

/-- A function of what was read changes the value and not the bytes. -/
theorem on_map_ok {r : Reader α} {bytes left : List UInt8} {a : α} (f : α → β)
    (h : r.on bytes = (.ok a, left)) : (f <$> r).on bytes = (.ok (f a), left) := by
  rw [map_eq_pure_bind, on_bind_ok h, on_pure]

/-- Placing a failure does not matter where there is none. -/
theorem on_placed_ok {r : Reader α} {bytes left : List UInt8} {a : α}
    (h : r.on bytes = (.ok a, left)) : (placed r).on bytes = (.ok a, left) := by
  unfold placed
  rw [on_bind, on_attempt, h]
  rfl

/-- Both parts of two readers in a row have succeeded if the whole has. -/
theorem exists_of_on_bind {r : Reader α} {next : α → Reader β} {bytes left : List UInt8} {b : β}
    (h : (r >>= next).on bytes = (.ok b, left)) :
    ∃ a mid, r.on bytes = (.ok a, mid) ∧ (next a).on mid = (.ok b, left) := by
  rw [on_bind] at h
  rcases hr : r.on bytes with ⟨_ | a, mid⟩
  · rw [hr] at h
    cases h
  · rw [hr] at h
    exact ⟨a, mid, rfl, h⟩

/-- A placed reader succeeds only where the reader itself does. -/
theorem on_of_on_placed {r : Reader α} {bytes left : List UInt8} {a : α}
    (h : (placed r).on bytes = (.ok a, left)) : r.on bytes = (.ok a, left) := by
  unfold placed at h
  rw [on_bind, on_attempt] at h
  rcases hr : r.on bytes with ⟨_ | a', mid⟩
  · rw [hr] at h
    cases h
  · rw [hr] at h
    exact h

/-! ### Loops -/

/-- A step, repeated from `s` on, turns the bytes into the result `a` and the bytes `left`. Each
round but the last one consumes something. -/
inductive Runs (step : σ → Reader (σ ⊕ α)) : σ → List UInt8 → α → List UInt8 → Prop
  | stop {s : σ} {bytes : List UInt8} {a : α} {left : List UInt8} :
    (step s).on bytes = (.ok (.inr a), left) → Runs step s bytes a left
  | go {s : σ} {bytes : List UInt8} {s' : σ} {mid : List UInt8} {a : α} {left : List UInt8} :
    (step s).on bytes = (.ok (.inl s'), mid) → mid.length < bytes.length →
      Runs step s' mid a left → Runs step s bytes a left

/-- A run of a step is followed by its iteration as soon as the bound is as long as the bytes. The
induction is on the run; each round shortens both. -/
theorem on_iterate {step : σ → Reader (σ ⊕ α)} {s : σ} {bytes : List UInt8} {a : α}
    {left : List UInt8} (h : Runs step s bytes a left) :
    ∀ bound : List UInt8, bytes.length ≤ bound.length →
      (iterate step bound s).on bytes = (.ok a, left) := by
  induction h with
  | stop hstep =>
    intro bound _
    cases bound <;> exact on_bind_ok hstep
  | go hstep hless _ ih =>
    intro bound hbound
    cases bound with
    -- a round has consumed something, so the bound is not used up before the bytes are
    | nil => exact absurd hless (Nat.not_lt_of_le (Nat.le_trans hbound (Nat.zero_le _)))
    | cons b bound =>
      have hmid := Nat.le_of_lt_succ (Nat.lt_of_lt_of_le hless hbound)
      exact (on_bind_ok hstep).trans (ih bound hmid)

/-- A loop starts with the bytes themselves for a bound, and that is long enough for every run. -/
theorem on_loop {step : σ → Reader (σ ⊕ α)} {s : σ} {bytes : List UInt8} {a : α}
    {left : List UInt8} (h : Runs step s bytes a left) :
    (loop step s).on bytes = (.ok a, left) :=
  (on_bind_ok (on_rest bytes)).trans (on_iterate h bytes (Nat.le_refl _))

/-! ### Tokens -/

@[simp] theorem on_modify (f : List UInt8 → List UInt8) (bytes : List UInt8) :
    (modify f : Reader Unit).on bytes = (.ok (), f bytes) := rfl

/-- Peeking drops the blanks in front and leaves the token that it shows. -/
theorem on_peekToken (bytes : List UInt8) :
    peekToken.on bytes = (.ok (bytes.dropWhile isBlank).head?, bytes.dropWhile isBlank) := rfl

/-- A byte that is not blank is next at once. -/
theorem on_peekToken_cons {b : UInt8} (h : isBlank b = false) (rest : List UInt8) :
    peekToken.on (b :: rest) = (.ok (some b), b :: rest) := by
  rw [on_peekToken, List.dropWhile_cons_of_neg (by simp [h]), List.head?_cons]

/-- A gap makes no difference to what is next. -/
theorem on_peekToken_gap {gap : List UInt8} (h : ∀ b ∈ gap, isBlank b = true)
    (rest : List UInt8) : peekToken.on (gap ++ rest) = peekToken.on rest := by
  rw [on_peekToken, on_peekToken, List.dropWhile_append_of_pos h]

/-- The first byte behind a gap. -/
theorem on_peekToken_start {gap : List UInt8} (hgap : ∀ b ∈ gap, isBlank b = true) {b : UInt8}
    (hb : isBlank b = false) (rest : List UInt8) :
    peekToken.on (gap ++ b :: rest) = (.ok (some b), b :: rest) :=
  (on_peekToken_gap hgap _).trans (on_peekToken_cons hb rest)

/-- A word is read from its own bytes, whatever follows it. -/
theorem on_word (ws rest : List UInt8) : (word ws).on (ws ++ rest) = (.ok (), rest) := by
  induction ws with
  | nil => rfl
  | cons w ws ih =>
    unfold word
    rw [List.cons_append, on_bind_ok (on_next _)]
    simp only [List.head?_cons, List.tail_cons, if_true]
    exact ih

theorem on_colon (rest : List UInt8) : colon.on (58 :: rest) = (.ok (), rest) := by
  unfold colon
  rw [on_bind_ok (on_peekToken_cons (by decide) rest)]
  rfl

/-- A text is at its end when only blanks remain. -/
theorem on_finished {gap : List UInt8} (h : ∀ b ∈ gap, isBlank b = true) :
    finished.on gap = (.ok (), []) := by
  have hpeek : peekToken.on gap = (.ok none, []) := by
    rw [on_peekToken, List.dropWhile_eq_nil_iff.mpr h, List.head?_nil]
  exact on_bind_ok hpeek

/-! ### Brackets -/

/-- Between brackets: one level of depth is used up, the opener is skipped, and the finish takes the
closer. -/
theorem on_enclosed {body : Nat → Reader α} {finish : Reader Unit} {depth : Nat} {a : α}
    {opener : UInt8} {bytes mid left : List UInt8} (hbody : (body depth).on bytes = (.ok a, mid))
    (hfinish : finish.on mid = (.ok (), left)) :
    (enclosed (depth + 1) body finish).on (opener :: bytes) = (.ok a, left) := by
  unfold enclosed
  rw [on_bind_ok (on_skip _), List.tail_cons, on_bind, on_attempt, hbody]
  dsimp only
  rw [on_bind, on_attempt, hfinish]
  rfl

theorem on_endList (rest : List UInt8) : endList.on (93 :: rest) = (.ok (), rest) := by
  unfold endList
  rw [on_bind_ok (on_peekToken_cons (by decide) rest)]
  rfl

theorem on_endObject (rest : List UInt8) : endObject.on (125 :: rest) = (.ok (), rest) := by
  unfold endObject
  rw [on_bind_ok (on_peekToken_cons (by decide) rest)]
  rfl

/-- What comes before an item or member: blanks, and a comma if it is not the first. -/
def lead (first : Bool) (gap : List UInt8) : List UInt8 := if first then gap else 44 :: gap

theorem lead_true (gap : List UInt8) : lead true gap = gap := rfl

theorem lead_false (gap : List UInt8) : lead false gap = 44 :: gap := rfl

/-- An item is there to be moved to, behind the gap and the comma that come before it. -/
theorem on_moveToItem (first : Bool) {gap : List UInt8} (hgap : ∀ b ∈ gap, isBlank b = true)
    {b : UInt8} (hb : isBlank b = false) (hne : b ≠ 93) (rest : List UInt8) :
    (moveToItem first).on (lead first gap ++ b :: rest) = (.ok true, b :: rest) := by
  have hpeek := on_peekToken_start hgap hb rest
  unfold moveToItem
  cases first with
  | true =>
    rw [lead, if_pos rfl, on_bind_ok hpeek]
    split
    · rename_i h
      cases h
    · rename_i h
      exact absurd (Option.some.inj h) hne
    · rfl
  | false =>
    refine (on_bind_ok (on_peekToken_cons (by decide) _)).trans ?_
    refine (on_bind_ok (on_skip _)).trans ?_
    refine (on_bind_ok hpeek).trans ?_
    split
    · rename_i h
      exact absurd (Option.some.inj h) hne
    · rename_i h
      cases h
    · rfl

/-- Behind the last item the closing bracket says that there is none further, and is left in
place. -/
theorem on_moveToItem_end (first : Bool) {gap : List UInt8}
    (hgap : ∀ b ∈ gap, isBlank b = true) (rest : List UInt8) :
    (moveToItem first).on (gap ++ 93 :: rest) = (.ok false, 93 :: rest) := by
  unfold moveToItem
  exact on_bind_ok (on_peekToken_start hgap (by decide) rest)

/-- A member is there to be moved to when the quote that opens its name is next. -/
theorem on_moveToMember (first : Bool) {gap : List UInt8}
    (hgap : ∀ b ∈ gap, isBlank b = true) (rest : List UInt8) :
    (moveToMember first).on (lead first gap ++ 34 :: rest) = (.ok true, 34 :: rest) := by
  have hpeek : peekToken.on (gap ++ 34 :: rest) = (.ok (some 34), 34 :: rest) :=
    on_peekToken_start hgap (by decide) rest
  unfold moveToMember
  cases first with
  | true =>
    rw [lead, if_pos rfl, on_bind_ok hpeek]
    rfl
  | false =>
    refine (on_bind_ok (on_peekToken_cons (by decide) _)).trans ?_
    refine (on_bind_ok (on_skip _)).trans ?_
    exact on_bind_ok hpeek

/-- Behind the last member the closing brace is left in place. -/
theorem on_moveToMember_end (first : Bool) {gap : List UInt8}
    (hgap : ∀ b ∈ gap, isBlank b = true) (rest : List UInt8) :
    (moveToMember first).on (gap ++ 125 :: rest) = (.ok false, 125 :: rest) := by
  unfold moveToMember
  exact on_bind_ok (on_peekToken_start hgap (by decide) rest)

/-- One round in an object: moves to the next member, of which `body` reads what comes behind the
quote that opens its name. -/
def objectStep (body : σ → Reader σ) (s : Bool × σ) : Reader (Bool × σ ⊕ σ) := do
  if ← moveToMember s.1 then
    skip
    return .inl (false, ← body s.2)
  else return .inr s.2

/-- A member, from behind the quote that opens its name, put among those that are `done`. -/
def putMember (value : Reader Json) (done : List (String × Json)) :
    Reader (List (String × Json)) := do
  let name ← string
  colon
  return KeyedList.put name (← value) done

/-- The members of an object are read by a loop of `objectStep`, so that facts about such loops
serve for objects of any kind. -/
theorem members_eq (value : Reader Json) :
    members value = loop (objectStep (putMember value)) (true, []) := by
  unfold members
  congr
  funext s
  simp only [objectStep, putMember, bind_assoc, pure_bind]

/-! ### What a reader can give -/

/-- Whatever the reader gives has the property. -/
def Yields (r : Reader α) (P : α → Prop) : Prop :=
  ∀ bytes a left, r.on bytes = (.ok a, left) → P a

namespace Yields

variable {P : α → Prop} {Q : β → Prop}

theorem always (r : Reader α) : Yields r fun _ ↦ True := fun _ _ _ _ ↦ trivial

/-- A weaker property holds as well. -/
theorem mono {r : Reader α} {P' : α → Prop} (h : Yields r P) (himp : ∀ a, P a → P' a) :
    Yields r P' := fun bytes a left hr ↦ himp a (h bytes a left hr)

theorem pure {a : α} (h : P a) : Yields (Pure.pure a) P := by
  intro bytes a' left hr
  cases hr
  exact h

theorem throw (f : Failure) : Yields (MonadExcept.throw f : Reader α) P :=
  fun _ _ _ hr ↦ nomatch hr

/-- What comes second has to give the property for whatever the first can give. -/
theorem bind {r : Reader α} {next : α → Reader β} (hr : Yields r P)
    (hnext : ∀ a, P a → Yields (next a) Q) : Yields (r >>= next) Q := by
  intro bytes b left h
  obtain ⟨a, mid, ha, hb⟩ := exists_of_on_bind h
  exact hnext a (hr bytes a mid ha) mid b left hb

/-- What comes first does not matter. -/
theorem after {r : Reader α} {next : α → Reader β} (hnext : ∀ a, Yields (next a) Q) :
    Yields (r >>= next) Q := (always r).bind fun a _ ↦ hnext a

/-- Mapping gives the property when the function makes it of whatever is read. -/
theorem map {r : Reader α} {f : α → β} (hr : Yields r fun a ↦ Q (f a)) : Yields (f <$> r) Q := by
  rw [map_eq_pure_bind]
  exact hr.bind fun a ha ↦ pure ha

/-- Placing a failure changes no value. -/
theorem placed {r : Reader α} (hr : Yields r P) : Yields (placed r) P :=
  fun bytes a left h ↦ hr bytes a left (on_of_on_placed h)

theorem failHere (p : Problem) : Yields (failHere p : Reader α) P := after fun _ ↦ throw _

theorem failNext (p : Problem) : Yields (failNext p : Reader α) P := after fun _ ↦ throw _

theorem failUnplaced (p : Problem) : Yields (failUnplaced p : Reader α) P := throw _

/-- An invariant that every round keeps is there at the end, whichever bound the loop was given. -/
theorem iterate {step : σ → Reader (σ ⊕ α)} {I : σ → Prop}
    (hstep : ∀ s, I s → Yields (step s) (Sum.elim I P)) :
    ∀ (bound : List UInt8) (s : σ), I s → Yields (iterate step bound s) P
  | [], s, hs => (hstep s hs).bind fun
    | .inl _, _ => failHere _
    | .inr _, ha => pure ha
  | _ :: bound, s, hs => (hstep s hs).bind fun
    | .inl s', hs' => iterate hstep bound s' hs'
    | .inr _, ha => pure ha

/-- A loop gives what its step keeps an invariant for. -/
theorem loop {step : σ → Reader (σ ⊕ α)} {I : σ → Prop} {s : σ} (hs : I s)
    (hstep : ∀ s, I s → Yields (step s) (Sum.elim I P)) : Yields (loop step s) P :=
  after fun bound ↦ iterate hstep bound s hs

/-- The outcome of an attempt has the property where it is a success. -/
theorem attempt {r : Reader α} (hr : Yields r P) :
    Yields r.attempt fun outcome ↦ ∀ a, outcome = .ok a → P a := by
  intro bytes outcome left h a ha
  rw [on_attempt] at h
  cases h
  exact hr bytes a _ (Prod.ext ha rfl)

/-- What stands in brackets is what its body gives, one level further in. -/
theorem enclosed {depth : Nat} {body : Nat → Reader α} {finish : Reader Unit}
    (hbody : ∀ inner, depth = inner + 1 → Yields (body inner) P) :
    Yields (enclosed depth body finish) P := by
  unfold Reader.enclosed
  cases depth with
  | zero => exact failNext _
  | succ inner =>
    refine after fun _ ↦ (hbody inner rfl).attempt.bind fun outcome houtcome ↦ after fun ending ↦ ?_
    cases outcome with
    | error f => exact throw f
    | ok a =>
      cases ending with
      | error f => exact throw f
      | ok _ => exact pure (houtcome a rfl)

/-- Every item of a list has what items have. -/
theorem items {item : Reader α} (hitem : Yields item P) :
    Yields (items item) fun l ↦ ∀ a ∈ l, P a := by
  refine loop (I := fun done ↦ ∀ a ∈ done, P a) (by simp) fun done hdone ↦ after fun
    | true => hitem.bind fun a ha ↦ pure (List.forall_mem_cons.mpr ⟨ha, hdone⟩)
    | false => pure (by simpa using hdone)

/-- The members of an object leave what holds before them and what each of them keeps. -/
theorem objectLoop {body : σ → Reader σ} {I : σ → Prop} {s : σ} (hs : I s)
    (hbody : ∀ s, I s → Yields (body s) I) :
    Yields (Reader.loop (objectStep body) (true, s)) I := by
  refine loop (I := fun s ↦ I s.2) hs fun s hs ↦ after fun more ↦ ?_
  cases more with
  | true => exact after fun _ ↦ (hbody s.2 hs).bind fun _ hs' ↦ pure hs'
  | false => exact pure hs

/-- What a whole text gives, the reader gives. -/
theorem whole {r : Reader α} (hr : Yields r P) : Yields (whole r) P :=
  hr.bind fun _ ha ↦ after fun _ ↦ pure ha

/-- A whole text holds nothing but what its reader can give. -/
theorem of_onText {r : Reader α} (hr : Yields r P) {text : List UInt8} {a : α}
    (h : r.onText text = .ok a) : P a := by
  unfold onText at h
  split at h
  · rename_i left hon
    cases h
    exact hr text a left hon
  · cases h

end Yields

end Reader
end Parley.Json
