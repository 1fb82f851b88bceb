import Mathlib.Data.List.DropRight
import Parley.Proofs.Documents
import Parley.Proofs.JsonText

/-!
# How a document is read

Reading a document is taken apart here, so that other readers can be followed through the same
bytes. `Starts` says what can be behind the first byte of a document (`starts_of_document`);
`ItemsAt` and `MembersAt` go through the items of an array and the members of an object, one comma
after the other.

The bound on the rounds of a loop does not get in the way: `Rounds` counts them, and two loops that
go through the same items take equally many (`on_loop_iff`).
-/

namespace Parley.Json.Reader

variable {α β σ : Type}

/-! ### Success, step by step -/

theorem on_bind_iff {r : Reader α} {next : α → Reader β} {bytes left : List UInt8} {b : β} :
    (r >>= next).on bytes = (.ok b, left) ↔
      ∃ a mid, r.on bytes = (.ok a, mid) ∧ (next a).on mid = (.ok b, left) :=
  ⟨exists_of_on_bind, fun ⟨_, _, ha, hb⟩ ↦ (on_bind_ok ha).trans hb⟩

theorem on_map_iff {f : α → β} {r : Reader α} {bytes left : List UInt8} {b : β} :
    (f <$> r).on bytes = (.ok b, left) ↔ ∃ a, r.on bytes = (.ok a, left) ∧ f a = b := by
  rw [on_map]
  rcases r.on bytes with ⟨e | a, mid⟩
  · exact ⟨nofun, nofun⟩
  · constructor
    · rintro ⟨⟩
      exact ⟨a, rfl, rfl⟩
    · rintro ⟨_, ⟨⟩, rfl⟩
      rfl

/-- Behind its first byte a value is read, and something is made of it. -/
theorem on_skip_bind_iff {r : Reader α} {f : α → β} {first : UInt8} {rest left : List UInt8}
    {b : β} : (do skip; return f (← r)).on (first :: rest) = (.ok b, left) ↔
      ∃ a, r.on rest = (.ok a, left) ∧ f a = b := by
  rw [on_bind_ok (on_skip _), ← map_eq_pure_bind, on_map_iff]
  rfl

theorem on_placed_iff {r : Reader α} {bytes left : List UInt8} {a : α} :
    (placed r).on bytes = (.ok a, left) ↔ r.on bytes = (.ok a, left) :=
  ⟨on_of_on_placed, on_placed_ok⟩

/-- Readers that agree still agree when their failures are placed. -/
theorem on_placed_congr {r s : Reader α} {bytes bytes' : List UInt8}
    (h : r.on bytes = s.on bytes') : (placed r).on bytes = (placed s).on bytes' := by
  rw [placed, placed, on_bind, on_bind, on_attempt, on_attempt, h]

/-- What is enclosed is read just if the body and then the finish are. Where the failure is reported
from makes no difference here. -/
theorem on_enclosed_iff {body : Nat → Reader α} {finish : Reader Unit} {inner : Nat} {a : α}
    {opener : UInt8} {bytes left : List UInt8} :
    (enclosed (inner + 1) body finish).on (opener :: bytes) = (.ok a, left) ↔
      ∃ mid, (body inner).on bytes = (.ok a, mid) ∧ finish.on mid = (.ok (), left) := by
  constructor
  · intro h
    rw [enclosed, on_bind_ok (on_skip _), List.tail_cons, on_bind, on_attempt] at h
    rcases hbody : (body inner).on bytes with ⟨_ | a', mid⟩
    · rw [hbody] at h
      dsimp only at h
      rw [on_bind, on_attempt] at h
      cases h
    · rw [hbody] at h
      dsimp only at h
      rw [on_bind, on_attempt] at h
      rcases hfinish : finish.on mid with ⟨_ | _, left'⟩
      · rw [hfinish] at h
        cases h
      · rw [hfinish] at h
        cases h
        exact ⟨mid, rfl, hfinish⟩
  · rintro ⟨mid, hbody, hfinish⟩
    exact on_enclosed hbody hfinish

/-! ### Loops -/

/-- A step, repeated from `s` on, turns the bytes into the result `a` and the bytes `left`, going on
`n` times. -/
inductive Rounds (step : σ → Reader (σ ⊕ α)) : Nat → σ → List UInt8 → α → List UInt8 → Prop
  | stop {s : σ} {bytes : List UInt8} {a : α} {left : List UInt8} :
    (step s).on bytes = (.ok (.inr a), left) → Rounds step 0 s bytes a left
  | go {n : Nat} {s : σ} {bytes : List UInt8} {s' : σ} {mid : List UInt8} {a : α}
    {left : List UInt8} :
    (step s).on bytes = (.ok (.inl s'), mid) → Rounds step n s' mid a left →
      Rounds step (n + 1) s bytes a left

/-- An iteration succeeds just if the step stops within the bound. In contrast to `on_iterate` this
asks nothing of the rounds, so it also tells what a success was made of. -/
theorem on_iterate_iff {step : σ → Reader (σ ⊕ α)} {a : α} {left : List UInt8} :
    ∀ {bound : List UInt8} {s : σ} {bytes : List UInt8},
      (iterate step bound s).on bytes = (.ok a, left) ↔
        ∃ n ≤ bound.length, Rounds step n s bytes a left := by
  intro bound
  induction bound with
  | nil =>
    intro s bytes
    rw [iterate, on_bind_iff]
    constructor
    · rintro ⟨out, mid, hstep, hout⟩
      cases out with
      | inl s' => cases hout
      | inr a' =>
        cases hout
        exact ⟨0, Nat.le_refl _, .stop hstep⟩
    · rintro ⟨n, hn, hrounds⟩
      cases hrounds with
      | stop hstep => exact ⟨_, _, hstep, rfl⟩
      | go => cases hn
  | cons b bound ih =>
    intro s bytes
    rw [iterate, on_bind_iff]
    constructor
    · rintro ⟨out, mid, hstep, hout⟩
      cases out with
      | inl s' =>
        obtain ⟨n, hn, hrounds⟩ := ih.mp hout
        exact ⟨n + 1, Nat.succ_le_succ hn, .go hstep hrounds⟩
      | inr a' =>
        cases hout
        exact ⟨0, Nat.zero_le _, .stop hstep⟩
    · rintro ⟨n, hn, hrounds⟩
      cases hrounds with
      | stop hstep => exact ⟨_, _, hstep, rfl⟩
      | go hstep hrounds => exact ⟨_, _, hstep, ih.mpr ⟨_, Nat.le_of_succ_le_succ hn, hrounds⟩⟩

/-- A loop may go on once for each byte that it starts from. -/
theorem on_loop_iff {step : σ → Reader (σ ⊕ α)} {s : σ} {bytes : List UInt8} {a : α}
    {left : List UInt8} :
    (loop step s).on bytes = (.ok a, left) ↔
      ∃ n ≤ bytes.length, Rounds step n s bytes a left := by
  rw [loop, on_bind_ok (on_rest bytes), on_iterate_iff]

/-! ### Items -/

/-- The items `as` come next, up to a closing bracket, where `left` begins. -/
inductive ItemsAt (item : Reader α) : Bool → List UInt8 → List α → List UInt8 → Prop
  | done {first : Bool} {bytes left : List UInt8} :
    (moveToItem first).on bytes = (.ok false, left) → ItemsAt item first bytes [] left
  | more {first : Bool} {bytes start mid left : List UInt8} {a : α} {as : List α} :
    (moveToItem first).on bytes = (.ok true, start) → item.on start = (.ok a, mid) →
      ItemsAt item false mid as left → ItemsAt item first bytes (a :: as) left

/-- The rounds of reading a list are its items, one for each round. -/
theorem rounds_itemStep_iff {item : Reader α} {out : List α} {left : List UInt8} {n : Nat} :
    ∀ {done : List α} {bytes : List UInt8}, Rounds (itemStep item) n done bytes out left ↔
      ∃ as, out = done.reverse ++ as ∧ as.length = n ∧
        ItemsAt item done.isEmpty bytes as left := by
  induction n with
  | zero =>
    intro done bytes
    constructor
    · rintro (hstep | _)
      obtain ⟨more, start, hmove, hstep⟩ := exists_of_on_bind hstep
      cases more with
      | false =>
        cases hstep
        exact ⟨[], (List.append_nil _).symm, rfl, .done hmove⟩
      | true =>
        obtain ⟨a, mid, -, hstep⟩ := exists_of_on_bind hstep
        cases hstep
    · rintro ⟨as, rfl, hlength, hitems⟩
      cases hitems with
      | done hmove =>
        refine .stop ((on_bind_ok hmove).trans ?_)
        rw [List.append_nil]
        rfl
      | more => cases hlength
  | succ n ih =>
    intro done bytes
    constructor
    · rintro (_ | ⟨hstep, hrounds⟩)
      obtain ⟨more, start, hmove, hstep⟩ := exists_of_on_bind hstep
      cases more with
      | false => cases hstep
      | true =>
        obtain ⟨a, mid, hitem, hstep⟩ := exists_of_on_bind hstep
        cases hstep
        obtain ⟨as, rfl, hlength, hitems⟩ := ih.mp hrounds
        refine ⟨a :: as, ?_, congrArg (· + 1) hlength, .more hmove hitem hitems⟩
        rw [List.reverse_cons, List.append_assoc, List.singleton_append]
    · rintro ⟨as, rfl, hlength, hitems⟩
      cases hitems with
      | done => cases hlength
      | @more _ _ start mid _ a as hmove hitem hitems =>
        have hstep : (itemStep item done).on bytes = (.ok (.inl (a :: done)), mid) :=
          (on_bind_ok hmove).trans ((on_bind_ok hitem).trans rfl)
        refine .go hstep (ih.mpr ⟨as, ?_, Nat.succ.inj hlength, hitems⟩)
        rw [List.reverse_cons, List.append_assoc, List.singleton_append]

/-- Items are read just if they come next, and there are no more of them than bytes. -/
theorem on_items_iff {item : Reader α} {bytes left : List UInt8} {as : List α} :
    (items item).on bytes = (.ok as, left) ↔
      as.length ≤ bytes.length ∧ ItemsAt item true bytes as left := by
  have hitems : items item = loop (itemStep item) [] := rfl
  rw [hitems, on_loop_iff]
  constructor
  · rintro ⟨n, hn, hrounds⟩
    obtain ⟨as, rfl, rfl, hitems⟩ := rounds_itemStep_iff.mp hrounds
    exact ⟨hn, hitems⟩
  · rintro ⟨hn, hitems⟩
    exact ⟨as.length, hn, rounds_itemStep_iff.mpr ⟨as, rfl, rfl, hitems⟩⟩

/-! ### Tokens -/

/-- Peeking first drops the blanks, so blanks that were dropped already make no difference. -/
theorem on_peekToken_bind_gap (next : Option UInt8 → Reader α) (bytes : List UInt8) :
    (peekToken >>= next).on (bytes.dropWhile isBlank) = (peekToken >>= next).on bytes := by
  rw [on_bind_ok (on_peekToken bytes), on_bind_ok (on_peekToken _), List.dropWhile_idempotent]

theorem on_endObject_iff {bytes left : List UInt8} :
    endObject.on bytes = (.ok (), left) ↔ bytes.dropWhile isBlank = 125 :: left := by
  rw [endObject, on_bind_ok (on_peekToken bytes)]
  rcases bytes.dropWhile isBlank with - | ⟨b, rest⟩
  · exact ⟨nofun, nofun⟩
  · constructor
    · intro h
      split at h
      · rename_i heq
        cases heq
        cases h
        rfl
      · cases h
      · cases h
      · cases h
    · rintro ⟨⟩
      rfl

theorem on_endList_iff {bytes left : List UInt8} :
    endList.on bytes = (.ok (), left) ↔ bytes.dropWhile isBlank = 93 :: left := by
  rw [endList, on_bind_ok (on_peekToken bytes)]
  rcases bytes.dropWhile isBlank with - | ⟨b, rest⟩
  · exact ⟨nofun, nofun⟩
  · constructor
    · intro h
      split at h
      · rename_i heq
        cases heq
        cases h
        rfl
      · -- behind a comma an array cannot end
        obtain ⟨_, mid, -, h⟩ := exists_of_on_bind h
        obtain ⟨_, mid, -, h⟩ := exists_of_on_bind h
        split at h <;> cases h
      · cases h
      · cases h
    · rintro ⟨⟩
      rfl

/-- `start` is what comes next: behind blanks, and behind a comma unless it is the first. -/
def Leads (first : Bool) (bytes start : List UInt8) : Prop :=
  if first then bytes.dropWhile isBlank = start
  else ∃ gap, bytes.dropWhile isBlank = 44 :: gap ∧ gap.dropWhile isBlank = start

/-- There is no further item just if the closing bracket is next; it is left in place. -/
theorem on_moveToItem_false_iff {first : Bool} {bytes left : List UInt8} :
    (moveToItem first).on bytes = (.ok false, left) ↔
      bytes.dropWhile isBlank = left ∧ left.head? = some 93 := by
  rw [moveToItem, on_bind_ok (on_peekToken bytes)]
  rcases hbytes : bytes.dropWhile isBlank with - | ⟨b, rest⟩
  · exact ⟨nofun, fun ⟨h, h'⟩ ↦ by rw [← h] at h'; cases h'⟩
  · constructor
    · intro h
      split at h
      · cases h
      · rename_i heq
        cases heq
        cases h
        exact ⟨rfl, rfl⟩
      · split at h
        · cases h
        · split at h
          · obtain ⟨_, mid, -, h⟩ := exists_of_on_bind h
            obtain ⟨_, mid, -, h⟩ := exists_of_on_bind h
            split at h <;> cases h
          · cases h
    · rintro ⟨rfl, h⟩
      cases h
      rfl

/-- A further item begins where `Leads` says, and not with a closing bracket. -/
theorem leads_of_moveToItem {first : Bool} {bytes start : List UInt8}
    (h : (moveToItem first).on bytes = (.ok true, start)) :
    Leads first bytes start ∧ ∃ b rest, start = b :: rest ∧ b ≠ 93 := by
  rw [moveToItem, on_bind_ok (on_peekToken bytes)] at h
  rcases hbytes : bytes.dropWhile isBlank with - | ⟨b, rest⟩
  · rw [hbytes] at h
    cases h
  · rw [hbytes] at h
    split at h
    · cases h
    · cases h
    · rename_i hne heq
      cases heq
      split at h
      · rename_i hfirst
        cases h
        exact ⟨by rw [Leads, if_pos hfirst, hbytes], b, rest, rfl, hne⟩
      · rename_i hfirst
        split at h
        · rename_i hcomma
          cases hcomma
          obtain ⟨_, mid, hskip, h⟩ := exists_of_on_bind h
          cases hskip
          rw [List.tail_cons, on_bind_ok (on_peekToken rest)] at h
          have hlead : Leads first bytes (rest.dropWhile isBlank) := by
            rw [Leads, if_neg hfirst]
            exact ⟨rest, hbytes, rfl⟩
          rcases hrest : rest.dropWhile isBlank with - | ⟨b, behind⟩
          · rw [hrest] at h
            cases h
          · rw [hrest] at h hlead
            split at h
            · cases h
            · cases h
            · rename_i hne' heq
              cases heq
              cases h
              exact ⟨hlead, b, behind, rfl, hne'⟩
        · cases h

/-- An array that goes on does not end. -/
theorem not_endList_of_leads {first : Bool} {bytes rest left : List UInt8} {b : UInt8}
    (hlead : Leads first bytes (b :: rest)) (hb : b ≠ 93) :
    endList.on bytes ≠ (.ok (), left) := by
  rw [Ne, on_endList_iff]
  intro hend
  cases first with
  | true =>
    have hbytes : bytes.dropWhile isBlank = b :: rest := hlead
    exact hb (List.cons.inj (hbytes.symm.trans hend)).1
  | false =>
    obtain ⟨gap, hcomma, -⟩ := hlead
    cases hcomma.symm.trans hend

/-- An array ends where its items do, so at once only if there are none. -/
theorem on_endList_of_itemsAt {item : Reader α} {first : Bool} {bytes mid left : List UInt8}
    {as : List α} (hitems : ItemsAt item first bytes as mid)
    (hend : endList.on mid = (.ok (), left)) {l : List UInt8} :
    endList.on bytes = (.ok (), l) ↔ as = [] ∧ l = left := by
  cases hitems with
  | done hmove =>
    obtain ⟨hbytes, -⟩ := on_moveToItem_false_iff.mp hmove
    rw [on_endList_iff, ← hbytes, List.dropWhile_idempotent] at hend
    rw [on_endList_iff, hend]
    constructor
    · rintro ⟨⟩
      exact ⟨rfl, rfl⟩
    · rintro ⟨-, rfl⟩
      rfl
  | more hmove =>
    obtain ⟨hlead, b, rest, rfl, hb⟩ := leads_of_moveToItem hmove
    constructor
    · intro h
      exact absurd h (not_endList_of_leads hlead hb)
    · rintro ⟨⟨⟩, -⟩

theorem on_moveToMember_false_iff {first : Bool} {bytes left : List UInt8} :
    (moveToMember first).on bytes = (.ok false, left) ↔
      bytes.dropWhile isBlank = left ∧ left.head? = some 125 := by
  rw [moveToMember, on_bind_ok (on_peekToken bytes)]
  rcases hbytes : bytes.dropWhile isBlank with - | ⟨b, rest⟩
  · exact ⟨nofun, fun ⟨h, h'⟩ ↦ by rw [← h] at h'; cases h'⟩
  · constructor
    · intro h
      split at h
      · cases h
      · rename_i heq
        cases heq
        cases h
        exact ⟨rfl, rfl⟩
      · split at h
        · split at h <;> cases h
        · split at h
          · obtain ⟨_, mid, -, h⟩ := exists_of_on_bind h
            obtain ⟨_, mid, -, h⟩ := exists_of_on_bind h
            split at h <;> cases h
          · cases h
    · rintro ⟨rfl, h⟩
      cases h
      rfl

/-- A further member begins where `Leads` says, and with the quote of its name. -/
theorem leads_of_moveToMember {first : Bool} {bytes start : List UInt8}
    (h : (moveToMember first).on bytes = (.ok true, start)) :
    Leads first bytes start ∧ ∃ rest, start = 34 :: rest := by
  rw [moveToMember, on_bind_ok (on_peekToken bytes)] at h
  rcases hbytes : bytes.dropWhile isBlank with - | ⟨b, rest⟩
  · rw [hbytes] at h
    cases h
  · rw [hbytes] at h
    split at h
    · cases h
    · cases h
    · rename_i hne heq
      cases heq
      split at h
      · rename_i hfirst
        split at h
        · rename_i hquote
          cases hquote
          cases h
          exact ⟨by rw [Leads, if_pos hfirst, hbytes], rest, rfl⟩
        · cases h
      · rename_i hfirst
        split at h
        · rename_i hcomma
          cases hcomma
          obtain ⟨_, mid, hskip, h⟩ := exists_of_on_bind h
          cases hskip
          rw [List.tail_cons, on_bind_ok (on_peekToken rest)] at h
          have hlead : Leads first bytes (rest.dropWhile isBlank) := by
            rw [Leads, if_neg hfirst]
            exact ⟨rest, hbytes, rfl⟩
          rcases hrest : rest.dropWhile isBlank with - | ⟨b, behind⟩
          · rw [hrest] at h
            cases h
          · rw [hrest] at h hlead
            split at h
            · rename_i hquote
              cases hquote
              cases h
              exact ⟨hlead, behind, rfl⟩
            · cases h
            · cases h
            · cases h
        · cases h

/-! ### Members -/

/-- What `body` makes of a state, member after member: it takes `n` members from behind the quotes
that open their names, up to a closing brace, where `left` begins. -/
inductive MemberRounds (body : σ → Reader σ) :
    Nat → Bool → σ → List UInt8 → σ → List UInt8 → Prop
  | done {first : Bool} {s : σ} {bytes left : List UInt8} :
    (moveToMember first).on bytes = (.ok false, left) → MemberRounds body 0 first s bytes s left
  | more {n : Nat} {first : Bool} {s s' s'' : σ} {bytes start mid left : List UInt8} :
    (moveToMember first).on bytes = (.ok true, 34 :: start) →
      (body s).on start = (.ok s', mid) → MemberRounds body n false s' mid s'' left →
        MemberRounds body (n + 1) first s bytes s'' left

/-- The rounds of reading an object are its members, one for each round. -/
theorem rounds_objectStep_iff {body : σ → Reader σ} {n : Nat} {out : σ} {left : List UInt8} :
    ∀ {first : Bool} {s : σ} {bytes : List UInt8},
      Rounds (objectStep body) n (first, s) bytes out left ↔
        MemberRounds body n first s bytes out left := by
  induction n with
  | zero =>
    intro first s bytes
    constructor
    · rintro (hstep | _)
      obtain ⟨more, start, hmove, hstep⟩ := exists_of_on_bind hstep
      cases more with
      | false =>
        cases hstep
        exact .done hmove
      | true =>
        obtain ⟨_, _, -, hstep⟩ := exists_of_on_bind hstep
        obtain ⟨_, _, -, hstep⟩ := exists_of_on_bind hstep
        cases hstep
    · rintro (hmove | _)
      exact .stop ((on_bind_ok hmove).trans rfl)
  | succ n ih =>
    intro first s bytes
    constructor
    · rintro (_ | ⟨hstep, hrounds⟩)
      obtain ⟨more, start, hmove, hstep⟩ := exists_of_on_bind hstep
      cases more with
      | false => cases hstep
      | true =>
        obtain ⟨-, rest, rfl⟩ := leads_of_moveToMember hmove
        obtain ⟨_, _, hskip, hstep⟩ := exists_of_on_bind hstep
        cases hskip
        obtain ⟨s', mid, hbody, hstep⟩ := exists_of_on_bind hstep
        cases hstep
        exact .more hmove hbody (ih.mp hrounds)
    · rintro (_ | ⟨hmove, hbody, hrounds⟩)
      refine .go ((on_bind_ok hmove).trans ?_) (ih.mpr hrounds)
      exact (on_bind_ok (on_skip _)).trans ((on_bind_ok hbody).trans rfl)

/-- An object is read just if its members come next, and there are no more of them than bytes. -/
theorem on_objectLoop_iff {body : σ → Reader σ} {s out : σ} {bytes left : List UInt8} :
    (loop (objectStep body) (true, s)).on bytes = (.ok out, left) ↔
      ∃ n ≤ bytes.length, MemberRounds body n true s bytes out left := by
  simp only [on_loop_iff, rounds_objectStep_iff]

/-- The members `ms` come next, up to a closing brace, where `left` begins. -/
inductive MembersAt (value : Reader Json) :
    Bool → List UInt8 → List (String × Json) → List UInt8 → Prop
  | done {first : Bool} {bytes left : List UInt8} :
    (moveToMember first).on bytes = (.ok false, left) → MembersAt value first bytes [] left
  | more {first : Bool} {bytes start behind inside mid left : List UInt8} {name : String} {j : Json}
    {ms : List (String × Json)} :
    (moveToMember first).on bytes = (.ok true, 34 :: start) →
      string.on start = (.ok name, behind) → colon.on behind = (.ok (), inside) →
        value.on inside = (.ok j, mid) → MembersAt value false mid ms left →
          MembersAt value first bytes ((name, j) :: ms) left

/-- Reading members in order collects what comes next behind what was there. -/
theorem membersAt_of_memberRounds {value : Reader Json} {n : Nat} {first : Bool}
    {done out : List (String × Json)} {bytes left : List UInt8}
    (h : MemberRounds (appendMember value) n first done bytes out left) :
    ∃ ms, out = done ++ ms ∧ ms.length = n ∧ MembersAt value first bytes ms left := by
  induction h with
  | done hmove => exact ⟨[], (List.append_nil _).symm, rfl, .done hmove⟩
  | more hmove hbody _ ih =>
    obtain ⟨ms, rfl, rfl, hmembers⟩ := ih
    obtain ⟨name, behind, hname, hbody⟩ := exists_of_on_bind hbody
    obtain ⟨_, inside, hcolon, hbody⟩ := exists_of_on_bind hbody
    obtain ⟨j, mid, hvalue, hbody⟩ := exists_of_on_bind hbody
    cases hbody
    exact ⟨(name, j) :: ms, List.append_assoc .., rfl, .more hmove hname hcolon hvalue hmembers⟩

/-- An object that was read had its members in the text, in that order. -/
theorem membersAt_of_membersInOrder {value : Reader Json} {ms : List (String × Json)}
    {bytes left : List UInt8} (h : (membersInOrder value).on bytes = (.ok ms, left)) :
    ms.length ≤ bytes.length ∧ MembersAt value true bytes ms left := by
  obtain ⟨n, hn, hrounds⟩ := on_objectLoop_iff.mp h
  obtain ⟨ms, rfl, rfl, hmembers⟩ := membersAt_of_memberRounds hrounds
  exact ⟨hn, hmembers⟩

/-! ### Documents -/

/-- A document that starts with the byte `b`, behind which comes `rest`. -/
inductive Starts : Nat → UInt8 → List UInt8 → Json → List UInt8 → Prop
  | null {depth : Nat} {rest left : List UInt8} :
    (word [117, 108, 108]).on rest = (.ok (), left) → Starts depth 110 rest .null left
  | true {depth : Nat} {rest left : List UInt8} :
    (word [114, 117, 101]).on rest = (.ok (), left) → Starts depth 116 rest (.bool true) left
  | false {depth : Nat} {rest left : List UInt8} :
    (word [97, 108, 115, 101]).on rest = (.ok (), left) → Starts depth 102 rest (.bool false) left
  | negative {depth : Nat} {rest left : List UInt8} {n : Number} :
    (number Bool.true).on rest = (.ok n, left) → Starts depth 45 rest (.number n) left
  | number {depth : Nat} {b : UInt8} {rest left : List UInt8} {n : Number} :
    isDigit b = Bool.true → (Reader.number Bool.false).on (b :: rest) = (.ok n, left) →
      Starts depth b rest (.number n) left
  | string {depth : Nat} {rest left : List UInt8} {s : String} :
    Reader.string.on rest = (.ok s, left) → Starts depth 34 rest (.string s) left
  | array {depth : Nat} {rest mid left : List UInt8} {js : List Json} :
    js.length ≤ rest.length → ItemsAt (document depth) Bool.true rest js mid →
      endList.on mid = (.ok (), left) → Starts (depth + 1) 91 rest (.array js) left
  | object {depth : Nat} {rest mid left : List UInt8} {ms : List (String × Json)} :
    ms.length ≤ rest.length → MembersAt (document depth) Bool.true rest ms mid →
      endObject.on mid = (.ok (), left) → Starts (depth + 1) 123 rest (.object ms) left

/-- **What a value starts with.** The first byte that is not blank decides what kind of value it is,
so a success has one of these forms. -/
theorem starts_of_valueWith {depth : Nat} {list object : Reader Json} {bytes left : List UInt8}
    {j : Json} (h : (valueWith list object).on bytes = (.ok j, left))
    (hlist : ∀ rest, list.on (91 :: rest) = (.ok j, left) → Starts depth 91 rest j left)
    (hobject : ∀ rest, object.on (123 :: rest) = (.ok j, left) → Starts depth 123 rest j left) :
    ∃ b rest, bytes.dropWhile isBlank = b :: rest ∧ Starts depth b rest j left := by
  have h := on_of_on_placed h
  rw [on_bind_ok (on_peekToken bytes)] at h
  rcases hbytes : bytes.dropWhile isBlank with - | ⟨b, rest⟩
  · rw [hbytes] at h
    cases h
  · refine ⟨b, rest, rfl, ?_⟩
    rw [hbytes, List.head?_cons] at h
    split at h
    · cases h
    · rename_i heq
      cases heq
      obtain ⟨_, hword, rfl⟩ := on_skip_bind_iff.mp h
      exact .null hword
    · rename_i heq
      cases heq
      obtain ⟨_, hword, rfl⟩ := on_skip_bind_iff.mp h
      exact .true hword
    · rename_i heq
      cases heq
      obtain ⟨_, hword, rfl⟩ := on_skip_bind_iff.mp h
      exact .false hword
    · rename_i heq
      cases heq
      obtain ⟨_, hnumber, rfl⟩ := on_skip_bind_iff.mp h
      exact .negative hnumber
    · rename_i heq
      cases heq
      obtain ⟨_, hstring, rfl⟩ := on_skip_bind_iff.mp h
      exact .string hstring
    · rename_i heq
      cases heq
      exact hlist rest h
    · rename_i heq
      cases heq
      exact hobject rest h
    · rename_i heq
      cases heq
      split at h
      · rename_i hdigit
        obtain ⟨_, _, hnumber, h⟩ := exists_of_on_bind h
        cases h
        exact .number hdigit hnumber
      · cases h

/-- What is behind the first byte of a document. -/
theorem starts_of_document {depth : Nat} {bytes left : List UInt8} {j : Json}
    (h : (document depth).on bytes = (.ok j, left)) :
    ∃ b rest, bytes.dropWhile isBlank = b :: rest ∧ Starts depth b rest j left := by
  cases depth with
  | zero =>
    exact starts_of_valueWith h (fun _ h ↦ nomatch h) (fun _ h ↦ nomatch h)
  | succ depth =>
    refine starts_of_valueWith h (fun rest hlist ↦ ?_) (fun rest hobject ↦ ?_)
    · obtain ⟨js, hjs, rfl⟩ := on_map_iff.mp hlist
      obtain ⟨mid, hitems, hend⟩ := on_enclosed_iff.mp hjs
      obtain ⟨hlength, hitems⟩ := on_items_iff.mp hitems
      exact .array hlength hitems hend
    · obtain ⟨ms, hms, rfl⟩ := on_map_iff.mp hobject
      obtain ⟨mid, hmembers, hend⟩ := on_enclosed_iff.mp hms
      obtain ⟨hlength, hmembers⟩ := membersAt_of_membersInOrder hmembers
      exact .object hlength hmembers hend

/-- Blanks in front of a document make no difference. -/
theorem on_document_gap (depth : Nat) (bytes : List UInt8) :
    (document depth).on (bytes.dropWhile isBlank) = (document depth).on bytes := by
  cases depth with
  | zero => exact on_placed_congr (on_peekToken_bind_gap ..)
  | succ depth => exact on_placed_congr (on_peekToken_bind_gap ..)

end Parley.Json.Reader
