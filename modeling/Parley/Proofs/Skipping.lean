import Parley.Proofs.SkippedLiterals

/-!
# Passing over documents

Passing over a value is laxer than reading it: whatever is the document of a value is passed over
as well, and both end at the same byte (`Reader.skipValue_of_document`). The values inside a bracket
are passed over in a loop that keeps the open brackets on a stack, so a document at any depth is
followed by what the loop does from one state to the next (`Reader.Skips`).
-/

namespace Parley.Json.Reader

/-! ### Each round takes a byte -/

/-- The start of a value consumes something, whichever value it is. -/
theorem consumes_skipStart (stack : List Bracket) (b : UInt8) : Consumes (skipStart stack b) := by
  rw [skipStart.eq_def]
  split
  · exact .bind .skip fun _ ↦ .bind (.word _) fun _ ↦ .pure _
  · exact .bind .skip fun _ ↦ .bind (.word _) fun _ ↦ .pure _
  · exact .bind .skip fun _ ↦ .bind (.word _) fun _ ↦ .pure _
  · exact .bind .skip fun _ ↦ .bind shrinks_skipNumber fun _ ↦ .pure _
  · exact .bind .skip fun _ ↦ .bind shrinks_skipString fun _ ↦ .pure _
  · exact .bind .skip fun _ ↦ .pure _
  · exact .bind .skip fun _ ↦ .pure _
  · split
    · exact .bind consumes_skipNumber fun _ ↦ .pure _
    · exact .failNext _

/-- A value that comes next is there. -/
theorem skipNext_consumes {stack : List Bracket} {bytes left : List UInt8} {out : Skipping ⊕ Unit}
    (h : (skipNext stack).on bytes = (.ok out, left)) : left.length < bytes.length := by
  have hblank : (bytes.dropWhile isBlank).length ≤ bytes.length := List.length_dropWhile_le ..
  rw [skipNext, on_bind_ok (on_peekToken bytes)] at h
  rcases hbytes : bytes.dropWhile isBlank with - | ⟨b, rest⟩
  · rw [hbytes] at h
    cases h
  · rw [hbytes] at h hblank
    exact (Nat.lt_succ_of_le (consumes_skipStart stack b _ _ _ _ h)).trans_le hblank

theorem shrinks_enter (bracket : Bracket) : Shrinks (enter bracket) := by
  have hname : Shrinks (do skipString; colon) :=
    shrinks_skipString.bind fun _ ↦ .colon
  cases bracket with
  | list => exact .pure ()
  | object =>
    refine .bind .peekToken fun b ↦ ?_
    split
    · exact .bind .skip fun _ ↦ hname
    · exact .bind (.failNext _) fun _ ↦ hname
    · exact .bind (.failNext _) fun _ ↦ hname

/-- Every step consumes something, so the loop has rounds enough. -/
theorem skipStep_consumes {s : Skipping} {bytes left : List UInt8} {out : Skipping ⊕ Unit}
    (h : (skipStep s).on bytes = (.ok out, left)) : left.length < bytes.length := by
  rw [skipStep] at h
  split at h
  · exact skipNext_consumes h
  · rename_i bracket outer _
    have hblank : (bytes.dropWhile isBlank).length ≤ bytes.length := List.length_dropWhile_le ..
    have hvalue : ∀ {bytes left : List UInt8} {out : Skipping ⊕ Unit},
        (do enter bracket; skipNext (bracket :: outer)).on bytes = (.ok out, left) →
          left.length < bytes.length := by
      intro bytes left out h
      obtain ⟨_, mid, henter, hnext⟩ := exists_of_on_bind h
      exact (skipNext_consumes hnext).trans_le (shrinks_enter bracket _ _ _ henter)
    rw [on_bind_ok (on_peekToken bytes)] at h
    rcases hbytes : bytes.dropWhile isBlank with - | ⟨b, rest⟩
    · rw [hbytes] at h
      cases h
    · rw [hbytes] at h hblank
      dsimp only [List.head?_cons] at h
      split at h
      · cases h
        exact hblank
      · split at h
        · exact (hvalue h).trans_le hblank
        · split at h
          · rw [on_bind_ok (on_skip _)] at h
            exact (hvalue h).trans hblank
          · cases h

/-! ### From one state to the next -/

/-- Some steps lead from one state to another; each state comes with the bytes that are left. -/
inductive Skips : Skipping ⊕ Unit → List UInt8 → Skipping ⊕ Unit → List UInt8 → Prop
  | refl (out : Skipping ⊕ Unit) (bytes : List UInt8) : Skips out bytes out bytes
  | step {s : Skipping} {out out' : Skipping ⊕ Unit} {bytes mid left : List UInt8} :
    (skipStep s).on bytes = (.ok out, mid) → Skips out mid out' left →
      Skips (.inl s) bytes out' left

theorem Skips.trans {out out' out'' : Skipping ⊕ Unit} {bytes mid left : List UInt8}
    (h : Skips out bytes out' mid) (h' : Skips out' mid out'' left) :
    Skips out bytes out'' left := by
  induction h with
  | refl => exact h'
  | step hstep _ ih => exact .step hstep (ih h')

/-- Steps that end the loop are its rounds. -/
theorem Skips.rounds {out : Skipping ⊕ Unit} {bytes left : List UInt8}
    (h : Skips out bytes (.inr ()) left) :
    out.elim (fun s ↦ ∃ n, Rounds skipStep n s bytes () left) fun _ ↦ bytes = left := by
  generalize hend : (Sum.inr () : Skipping ⊕ Unit) = end' at h
  induction h with
  | refl =>
    rw [← hend]
    rfl
  | @step s out _ _ mid left hstep _ ih =>
    rcases out with s' | _
    · obtain ⟨n, hn⟩ := ih hend
      exact ⟨n + 1, .go hstep hn⟩
    · obtain rfl : mid = left := ih hend
      exact ⟨0, .stop hstep⟩

theorem on_loop_of_skips {s : Skipping} {bytes left : List UInt8}
    (h : Skips (.inl s) bytes (.inr ()) left) :
    (loop skipStep s).on bytes = (.ok (), left) := by
  obtain ⟨n, hn⟩ := h.rounds
  exact on_loop_of_rounds skipStep_consumes hn

/-- The next value, behind what has to come before it inside a bracket. -/
def enterNext (bracket : Bracket) (stack : List Bracket) : Reader (Skipping ⊕ Unit) := do
  enter bracket
  skipNext (bracket :: stack)

/-- Blanks that were dropped already make no difference to what comes next. -/
theorem on_enterNext_gap (bracket : Bracket) (stack : List Bracket) (bytes : List UInt8) :
    (enterNext bracket stack).on (bytes.dropWhile isBlank) =
      (enterNext bracket stack).on bytes := by
  cases bracket with
  | list =>
    have hnext : (skipNext (.list :: stack)).on (bytes.dropWhile isBlank) =
        (skipNext (.list :: stack)).on bytes := on_peekToken_bind_gap ..
    exact hnext
  | object =>
    have hname : skipName.on (bytes.dropWhile isBlank) = skipName.on bytes :=
      on_peekToken_bind_gap ..
    rw [enterNext, enter, on_bind, on_bind, hname]

/-- Where a value stands in a bracket. -/
def phaseAt (first : Bool) : Phase := if first then .opened else .ended

/-- In front of an item or a member the step goes on to it. -/
theorem on_skipStep_lead {bracket : Bracket} {outer : List Bracket} {first : Bool} {b : UInt8}
    {bytes rest : List UInt8} (hlead : Leads first bytes (b :: rest)) (hb : b ≠ bracket.closer) :
    (skipStep ⟨bracket :: outer, phaseAt first⟩).on bytes =
      (enterNext bracket outer).on (b :: rest) := by
  rw [skipStep]
  dsimp only
  rw [on_bind_ok (on_peekToken bytes)]
  cases first with
  | true =>
    have hbytes : bytes.dropWhile isBlank = b :: rest := hlead
    rw [hbytes]
    dsimp only [List.head?_cons]
    rw [if_neg hb]
    rfl
  | false =>
    obtain ⟨gap, hcomma, hgap⟩ := hlead
    have hclose : (44 : UInt8) ≠ bracket.closer := by cases bracket <;> decide
    rw [hcomma, ← hgap, on_enterNext_gap]
    dsimp only [List.head?_cons]
    rw [if_neg hclose]
    rfl

/-- In front of the closer the step leaves the bracket. -/
theorem on_skipStep_close {bracket : Bracket} {outer : List Bracket} {phase : Phase}
    {bytes left : List UInt8} (hclose : bytes.dropWhile isBlank = bracket.closer :: left) :
    (skipStep ⟨bracket :: outer, phase⟩).on bytes =
      (.ok (Skipping.afterValue outer), left) := by
  rw [skipStep]
  dsimp only
  rw [on_bind_ok (on_peekToken bytes), hclose]
  dsimp only [List.head?_cons]
  rw [if_pos rfl]
  rfl

/-- Documents of some depth are passed over, wherever they stand. -/
def PassesOver (value : Reader Json) : Prop :=
  ∀ {bytes left : List UInt8} {j : Json}, value.on bytes = (.ok j, left) →
    ∀ stack, ∃ out mid, (skipNext stack).on bytes = (.ok out, mid) ∧
      Skips out mid (Skipping.afterValue stack) left

/-- The items of a list are passed over one by one. The induction is on the items, the closer ends
it. -/
theorem skips_items {value : Reader Json} (hvalue : PassesOver value) {first : Bool}
    {bytes mid left : List UInt8} {js : List Json} (h : ItemsAt value first bytes js mid)
    (hend : endList.on mid = (.ok (), left)) (outer : List Bracket) :
    Skips (.inl ⟨.list :: outer, phaseAt first⟩) bytes (Skipping.afterValue outer) left := by
  induction h with
  | done hmove =>
    obtain ⟨hbytes, -⟩ := on_moveToItem_false_iff.mp hmove
    refine .step (on_skipStep_close ?_) (.refl _ _)
    rw [on_endList_iff, ← hbytes, List.dropWhile_idempotent] at hend
    exact hend
  | @more _ _ start _ _ _ _ hmove hitem _ ih =>
    obtain ⟨hlead, b, rest, rfl, hb⟩ := leads_of_moveToItem hmove
    obtain ⟨out, mid', hnext, hskips⟩ := hvalue hitem (.list :: outer)
    refine .step ?_ (hskips.trans (ih hend))
    have hclose : b ≠ Bracket.list.closer := hb
    exact (on_skipStep_lead hlead hclose).trans hnext

/-- A name is passed over with the colon behind it. -/
theorem on_skipName {start behind inside : List UInt8} {name : String}
    (hname : string.on start = (.ok name, behind)) (hcolon : colon.on behind = (.ok (), inside)) :
    skipName.on (34 :: start) = (.ok (), inside) := by
  rw [skipName, on_bind_ok (on_peekToken_cons (by decide) start)]
  refine (on_bind_ok (on_skip _)).trans ?_
  exact (on_bind_ok (on_skipString_of_string hname)).trans hcolon

/-- The members of an object are passed over one by one. -/
theorem skips_members {value : Reader Json} (hvalue : PassesOver value) {first : Bool}
    {bytes mid left : List UInt8} {ms : List (String × Json)}
    (h : MembersAt value first bytes ms mid) (hend : endObject.on mid = (.ok (), left))
    (outer : List Bracket) :
    Skips (.inl ⟨.object :: outer, phaseAt first⟩) bytes (Skipping.afterValue outer) left := by
  induction h with
  | done hmove =>
    obtain ⟨hbytes, -⟩ := on_moveToMember_false_iff.mp hmove
    refine .step (on_skipStep_close ?_) (.refl _ _)
    rw [on_endObject_iff, ← hbytes, List.dropWhile_idempotent] at hend
    exact hend
  | more hmove hname hcolon hitem _ ih =>
    obtain ⟨hlead, -⟩ := leads_of_moveToMember hmove
    obtain ⟨out, mid', hnext, hskips⟩ := hvalue hitem (.object :: outer)
    refine .step ?_ (hskips.trans (ih hend))
    have hclose : (34 : UInt8) ≠ Bracket.object.closer := by decide
    refine (on_skipStep_lead hlead hclose).trans ?_
    exact (on_bind_ok (on_skipName hname hcolon)).trans hnext

/-- A document is passed over if those inside it are. -/
theorem passesOver_of_inner {depth : Nat}
    (hinner : ∀ inner, depth = inner + 1 → PassesOver (document inner)) :
    PassesOver (document depth) := by
  intro bytes left j h stack
  obtain ⟨b, rest, hbytes, hstarts⟩ := starts_of_document h
  rw [skipNext, on_bind_ok (on_peekToken bytes), hbytes]
  cases hstarts with
  | null hword | true hword | false hword =>
    exact ⟨_, _, on_skip_bind_iff.mpr ⟨_, hword, rfl⟩, .refl _ _⟩
  | negative hnumber =>
    exact ⟨_, _, on_skip_bind_iff.mpr ⟨_, on_skipNumber_of_number hnumber, rfl⟩, .refl _ _⟩
  | string hstring =>
    exact ⟨_, _, on_skip_bind_iff.mpr ⟨_, on_skipString_of_string hstring, rfl⟩, .refl _ _⟩
  | number hdigit hnumber =>
    have hskip := on_skipNumber_of_number hnumber
    have hstart : skipStart stack b = do
        skipNumber
        return Skipping.afterValue stack := by
      rw [skipStart, if_pos hdigit] <;> exact ne_of_isDigit hdigit rfl
    refine ⟨_, _, ?_, .refl _ _⟩
    dsimp only [List.head?_cons]
    rw [hstart, on_bind_ok hskip]
    rfl
  | array _ hitems hend =>
    exact ⟨_, _, (on_bind_ok (on_skip _)).trans rfl, skips_items (hinner _ rfl) hitems hend stack⟩
  | object _ hmembers hend =>
    exact ⟨_, _, (on_bind_ok (on_skip _)).trans rfl,
      skips_members (hinner _ rfl) hmembers hend stack⟩

/-- **Every document is passed over.** The induction is on the depth: what is nested has been dealt
with when a bracket is. -/
theorem passesOver_document (depth : Nat) : PassesOver (document depth) := by
  induction depth with
  | zero =>
    refine passesOver_of_inner fun inner h ↦ ?_
    cases h
  | succ depth ih =>
    refine passesOver_of_inner fun inner h ↦ ?_
    cases h
    exact ih

/-- **Passing over a document.** Whatever has a document is passed over, and ends where the document
ends. -/
theorem skipValue_of_document {depth : Nat} {bytes left : List UInt8} {j : Json}
    (h : (document depth).on bytes = (.ok j, left)) : skipValue.on bytes = (.ok (), left) := by
  obtain ⟨out, mid, hnext, hskips⟩ := passesOver_document depth h []
  exact on_loop_of_skips (.step hnext hskips)

end Parley.Json.Reader
