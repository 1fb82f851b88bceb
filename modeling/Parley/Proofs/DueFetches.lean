import Parley.Proofs.FetchEvents

/-!
# Fetches that are due

When the connection becomes established, snapshot and processes expire: a fetch of each is due, or
one is in flight already. It should stay so until the data arrives.

**The exact condition.** A fetch that fails is due again just if there is no older data. Where older
data is kept it counts as loaded after the failure, and nobody fetches before the data expires once
more. So it depends on the last event since then whether a fetch is due (`due_iff_last_ne_failed`).
-/

namespace Parley.Conversation

/-! ### Due or in flight -/

/-- While the connection is established, the agreements are being fetched or due unless they are
loaded. -/
theorem needsAgreement_iff {c : Conversation} (hc : c.connection = .connected) :
    c.agreement.progress = .loading ∨ c.needsAgreement false = true ↔
      c.agreement.progress ≠ .loaded := by
  simp only [needsAgreement, isConnected, hc]
  cases c.agreement.progress <;> decide

theorem needsPetriNet_iff {c : Conversation} (hc : c.connection = .connected) :
    c.petriNet.progress = .loading ∨ c.needsPetriNet false = true ↔
      c.petriNet.progress ≠ .loaded := by
  simp only [needsPetriNet, isConnected, hc]
  cases c.petriNet.progress <;> decide

/-! ### After the connection was established -/

variable {c d : Conversation} {after : List Action}

/-- **Due until it arrives, exactly.** The connection becomes established, and after some more
actions it is so again or still. Unless a snapshot has arrived in the meantime, a fetch of it is in
flight or due, with one exception: an older snapshot was kept, and the last that happened to the
snapshot since then is that a fetch has failed. The same holds for the processes. -/
theorem due_iff_last_ne_failed (hc : c.connection ≠ .connected)
    (hd : (c.setConnection .connected).run after = d) (hconn : d.connection = .connected) :
    ((∀ t, .applySnapshot t ∉ after) →
      (d.agreement.progress = .loading ∨ d.needsAgreement false = true ↔
        ¬(c.agreement.data.isSome = true ∧
          (FetchKind.agreement.events .connected after).getLast? = some .failed))) ∧
      ((∀ n, .applyPetriNet n ∉ after) →
        (d.petriNet.progress = .loading ∨ d.needsPetriNet false = true ↔
          ¬(c.petriNet.data.isSome = true ∧
            (FetchKind.petriNet.events .connected after).getLast? = some .failed))) := by
  subst hd
  refine ⟨fun hafter ↦ ?_, fun hafter ↦ ?_⟩
  · exact (needsAgreement_iff hconn).trans
      (not_congr (FetchKind.agreement.loaded_run_iff hc hafter))
  · exact (needsPetriNet_iff hconn).trans
      (not_congr (FetchKind.petriNet.loaded_run_iff hc hafter))

/-- A conversation that has a snapshot and processes when its connection is closed. -/
def leftConversation : Conversation :=
  (new "c" .connected).run
    [.applySnapshot .empty, .applyPetriNet (.ofProcesses []), .setConnection .closed]

/-- The server is out of reach. -/
def outOfReach : Fault := ⟨.fetch, "502"⟩

/-- Both fetches fail, and the connection is lost and established again. -/
def flappingRun : List Action :=
  [.beginSnapshot, .failSnapshot outOfReach, .beginPetriNet, .failPetriNet outOfReach,
    .setConnection .closed, .setConnection .connected, .beginPetriNet]

/-- The flapping run meets the hypotheses: the connection ends established, and both fetches failed
last, so both are due or under way. -/
theorem due_iff_last_ne_failed_flappingRun :
    leftConversation.connection ≠ .connected ∧
      ((leftConversation.setConnection .connected).run flappingRun).connection = .connected ∧
      (∀ t, .applySnapshot t ∉ flappingRun) ∧ (∀ n, .applyPetriNet n ∉ flappingRun) ∧
      (((leftConversation.setConnection .connected).run flappingRun).agreement.progress =
          .loading ∨
        ((leftConversation.setConnection .connected).run flappingRun).needsAgreement false =
          true) ∧
      (((leftConversation.setConnection .connected).run flappingRun).petriNet.progress =
          .loading ∨
        ((leftConversation.setConnection .connected).run flappingRun).needsPetriNet false =
          true) := by
  have hc : leftConversation.connection ≠ .connected := by decide
  have hconn : ((leftConversation.setConnection .connected).run flappingRun).connection =
      .connected := by decide
  have hsnapshot : ∀ t, .applySnapshot t ∉ flappingRun := by simp [flappingRun]
  have hprocesses : ∀ n, .applyPetriNet n ∉ flappingRun := by simp [flappingRun]
  have hdue := due_iff_last_ne_failed hc rfl hconn
  exact ⟨hc, hconn, hsnapshot, hprocesses, (hdue.1 hsnapshot).mpr (fun h ↦ nomatch h.2),
    (hdue.2 hprocesses).mpr (fun h ↦ nomatch h.2)⟩

/-- Both fetches fail. -/
def failingRun : List Action :=
  [.beginSnapshot, .failSnapshot outOfReach, .beginPetriNet, .failPetriNet outOfReach]

/-- No fetch is in flight or due, although nothing has arrived since the connection was
established. -/
theorem not_due_failingRun :
    leftConversation.connection ≠ .connected ∧
      ((leftConversation.setConnection .connected).run failingRun).connection = .connected ∧
      (∀ t, .applySnapshot t ∉ failingRun) ∧ (∀ n, .applyPetriNet n ∉ failingRun) ∧
      ¬(((leftConversation.setConnection .connected).run failingRun).agreement.progress =
          .loading ∨
        ((leftConversation.setConnection .connected).run failingRun).needsAgreement false =
          true) ∧
      ¬(((leftConversation.setConnection .connected).run failingRun).petriNet.progress =
          .loading ∨
        ((leftConversation.setConnection .connected).run failingRun).needsPetriNet false =
          true) :=
  ⟨by decide, by decide, by simp [failingRun], by simp [failingRun], by decide, by decide⟩

end Parley.Conversation
