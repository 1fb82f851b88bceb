import Parley.Proofs.FetchEvents
import Parley.Proofs.Fetching
import Parley.Proofs.Markers

/-!
# Conversations at rest

Between the calls of a `Sync` no fetch of a conversation is in flight, and data that counts as
loaded is there. `Conversation.AtRest` says so, together with the truth of markers. Every call on a
conversation at rest ends, with the data or with a fault, and leaves it at rest again, as long as
the source delivers no marked record (`Source.Unmarked`).
-/

namespace Parley

/-! ### Data at rest -/

namespace Fetched

variable {α : Type}

/-- No fetch is in flight, and what counts as loaded is there. -/
def AtRest (x : Fetched α) : Prop :=
  x.progress = .notLoaded ∨ x.progress = .loaded ∧ x.data.isSome = true

/-- A failed fetch comes to rest: in `loaded` with what it had, in `notLoaded` otherwise. -/
theorem atRest_fail (x : Fetched α) : x.fail.AtRest := by
  unfold AtRest fail
  cases h : x.data.isSome <;> simp

theorem AtRest.progress_ne_loading {x : Fetched α} (h : x.AtRest) : x.progress ≠ .loading := by
  rcases h with h | ⟨h, -⟩ <;> simp [h]

/-- Expiring puts the fetch back to `notLoaded`, and what was retained stays. -/
theorem AtRest.expire {x : Fetched α} (h : x.AtRest) : x.expire.AtRest := by
  rw [Fetched.expire, if_neg h.progress_ne_loading]
  exact Or.inl rfl

/-- Fetched data at rest that left `notLoaded` holds a value. -/
theorem AtRest.eq_of_ne_notLoaded {x : Fetched α} (h : x.AtRest) (hne : x.progress ≠ .notLoaded) :
    ∃ a, x = ⟨some a, .loaded⟩ := by
  obtain ⟨hloaded, hsome⟩ := h.resolve_left hne
  obtain ⟨a, ha⟩ := Option.isSome_iff_exists.mp hsome
  exact ⟨a, by rw [← ha, ← hloaded]⟩

end Fetched

/-- The records that a source delivers carry no marker. -/
structure Source.Unmarked {σ : Type} (source : Source σ) : Prop where
  message : ∀ {m}, Sync.Found source m → m.upToDate = false
  messages : ∀ {batch}, Sync.Delivered source batch → ∀ m ∈ batch, m.upToDate = false

namespace Conversation

/-- No fetch is in flight, what counts as loaded is there, and every marker tells the truth. -/
structure AtRest (c : Conversation) : Prop extends MarkersHold c where
  idle : c.isLoading = false
  agreement : c.agreement.AtRest
  petriNet : c.petriNet.AtRest

variable {c d : Conversation}

/-- A failed page of messages leaves no fetch in flight. -/
theorem isLoading_failMessages (c : Conversation) : c.failMessages.isLoading = false := by
  rw [isLoading, failMessages]
  cases c.isEmpty <;> rfl

/-- A new conversation is at rest: it has no messages, and nothing was fetched for it. -/
theorem atRest_new (uri : String) (s : Connection) : (new uri s).AtRest where
  toMarkersHold := markersHold_new uri s
  idle := rfl
  agreement := Or.inl rfl
  petriNet := Or.inl rfl

namespace AtRest

/-- A change of the connection keeps a conversation at rest, whether the fetched data expires with
it or not. -/
theorem setConnection (h : c.AtRest) (s : Connection) : (c.setConnection s).AtRest := by
  obtain ⟨-, hagreement, hprocesses⟩ := c.fetched_setConnection s
  refine ⟨h.toMarkersHold.of_sameCore (sameCore_setConnection c s), ?_, ?_, ?_⟩
  · rw [isLoading, Conversation.setConnection]
    split
    · exact h.idle
    · split <;> exact h.idle
  · rw [hagreement]
    split
    · exact h.agreement.expire
    · exact h.agreement
  · rw [hprocesses]
    split
    · exact h.petriNet.expire
    · exact h.petriNet

/-- Other messages with true markers do not start a fetch. -/
theorem of_eq_withMessages (h : c.AtRest) {ms : OrderedMap Message} (hd : d = c.withMessages ms)
    (hmarkers : d.MarkersHold) : d.AtRest := by
  subst hd
  exact ⟨hmarkers, h.idle, h.agreement, h.petriNet⟩

/-- Records that come unmarked keep a conversation at rest. -/
theorem upsertAll (h : c.AtRest) {l : List Message} (hl : ∀ m ∈ l, m.upToDate = false) :
    (c.upsertAll l).1.AtRest := by
  obtain ⟨ms, hms⟩ := exists_upsertAll_eq l c
  exact h.of_eq_withMessages hms
    (upsertAll_preserves (fun m hm hc ↦ hc.upsert (hl m hm)) h.toMarkersHold)

/-- Reconciling keeps a conversation at rest: it marks a message only where the snapshot is
loaded. -/
theorem reconcile (h : c.AtRest) : (Sync.reconcile c).1.AtRest := by
  obtain ⟨ms, hms⟩ := Sync.exists_reconcile_eq c
  refine h.of_eq_withMessages hms ?_
  unfold Sync.reconcile
  split
  · exact h.toMarkersHold.reconcile
  · exact h.toMarkersHold

/-! ### Calls -/

variable {σ : Type} {y : Sync σ}

/-- A page that arrives brings a conversation at rest back to rest. -/
theorem finishMessages (h : c.AtRest) {batch : List Message}
    (hbatch : ∀ m ∈ batch, m.upToDate = false) :
    (c.beginMessages.finishMessages batch).1.AtRest := by
  obtain ⟨ms, hms⟩ := exists_upsertAll_eq batch c.beginMessages
  have hfinish : (c.beginMessages.finishMessages batch).1 =
      { c.beginMessages.withMessages ms with loading := .loaded } :=
    congrArg (fun d : Conversation ↦ { d with loading := .loaded }) hms
  have hbegin : c.beginMessages.MarkersHold := h.toMarkersHold.of_sameCore ⟨rfl, rfl, rfl⟩
  have hmarkers : (c.beginMessages.finishMessages batch).1.MarkersHold :=
    hbegin.perform (a := .finishMessages batch) ⟨hbatch, fun _ ↦ nofun⟩
  rw [hfinish] at hmarkers ⊢
  exact ⟨hmarkers, rfl, h.agreement, h.petriNet⟩

theorem failMessages (h : c.AtRest) : c.beginMessages.failMessages.AtRest where
  toMarkersHold := h.toMarkersHold.of_sameCore ⟨rfl, rfl, rfl⟩
  idle := c.beginMessages.isLoading_failMessages
  agreement := h.agreement
  petriNet := h.petriNet

/-- The same holds for a page of older messages, which may also mark the history exhausted. -/
theorem finishMore (h : c.AtRest) {batch : List Message}
    (hbatch : ∀ m ∈ batch, m.upToDate = false) :
    (Sync.finishMore c.beginMessages batch).1.AtRest := by
  have hfinish := h.finishMessages hbatch
  rw [Sync.finishMore_eq]
  split
  · exact ⟨hfinish.toMarkersHold.of_sameCore ⟨rfl, rfl, rfl⟩, hfinish.idle, hfinish.agreement,
      hfinish.petriNet⟩
  · exact hfinish

/-- A page call keeps a conversation at rest when what finishes its batch does, for a source that
sends no markers. -/
theorem pageCall (h : c.AtRest) (hy : y.source.Unmarked) {due : Bool}
    {finish : Conversation → List Message → Conversation × Nat}
    (hfinish : ∀ batch, (∀ m ∈ batch, m.upToDate = false) → (finish c.beginMessages batch).1.AtRest)
    {r : Conversation × Answer Nat} (hr : y.PageCall c due finish r) : r.1.AtRest := by
  cases hr with
  | notDue => exact h
  | failed => exact h.failMessages
  | arrived _ batch hbatch => exact hfinish batch (hy.messages hbatch)

/-- An agreement call keeps a conversation at rest: the snapshot it installs clears the markers it
makes stale. -/
theorem agreementCall (h : c.AtRest) (hy : y.source.Unmarked) {force : Bool}
    {r : Conversation × Answer Nat} (hr : y.AgreementCall c force r) : r.1.AtRest := by
  cases hr with
  | notDue => exact h
  | failed =>
    exact ⟨h.toMarkersHold.of_sameCore ⟨rfl, rfl, rfl⟩, h.idle, Fetched.atRest_fail _, h.petriNet⟩
  | arrived _ snapshot l hl =>
    have hbegin : c.beginSnapshot.MarkersHold := h.toMarkersHold.of_sameCore ⟨rfl, rfl, rfl⟩
    have hsnapshot : (c.beginSnapshot.applySnapshot snapshot).AtRest :=
      ⟨hbegin.applySnapshot snapshot, h.idle, Or.inr ⟨rfl, rfl⟩, h.petriNet⟩
    exact hsnapshot.upsertAll fun m hm ↦ hy.message (hl m hm)

theorem petriNetCall (h : c.AtRest) {force : Bool} {r : Conversation × Answer Nat}
    (hr : Sync.PetriNetCall c force r) : r.1.AtRest := by
  cases hr with
  | notDue => exact h
  | failed =>
    exact ⟨h.toMarkersHold.of_sameCore ⟨rfl, rfl, rfl⟩, h.idle, h.agreement, Fetched.atRest_fail _⟩
  | arrived _ net =>
    exact ⟨h.toMarkersHold.of_sameCore ⟨rfl, rfl, rfl⟩, h.idle, h.agreement, Or.inr ⟨rfl, rfl⟩⟩

/-- Any of the public loads keeps a conversation at rest. -/
theorem load (h : c.AtRest) (hy : y.source.Unmarked) (call : Load) (s : σ) :
    ((y.load c call).run s).1.1.AtRest := by
  cases call with
  | latest => exact h.pageCall hy (fun _ ↦ h.finishMessages) (y.pageCall_loadLatest c s)
  | more => exact h.pageCall hy (fun _ ↦ h.finishMore) (y.pageCall_loadMore c s)
  | agreement force => exact h.agreementCall hy (y.agreementCall_refreshAgreement c force s)

theorem refreshPetriNet (h : c.AtRest) (force : Bool) (s : σ) :
    ((y.refreshPetriNet c force).run s).1.1.AtRest :=
  h.petriNetCall (y.petriNetCall_refreshPetriNet c force s)

/-- **A sync** leaves the conversation at rest. -/
theorem sync (h : c.AtRest) (hy : y.source.Unmarked) (s : σ) :
    ((y.sync c).run s).1.1.AtRest := by
  obtain ⟨r₁, r₂, r₃, hlatest, hagreement, hprocesses, hr⟩ := y.exists_calls_of_sync c s
  rw [hr]
  have hrest : r₁.1.AtRest := h.pageCall hy (fun _ ↦ h.finishMessages) hlatest
  exact ((hrest.agreementCall hy hagreement).petriNetCall hprocesses).reconcile

end AtRest

end Conversation

end Parley
