import Mathlib
import Parley.Proofs.Markers

/-!
# Which markers a new snapshot takes away

A snapshot that replaces another one takes the marker away from the messages that it has news about,
and from no other. News about a message is a category that has gained one of its two names
(`Snapshot.Introduces`); a URI that only moves from one category to another is news as well.

**Nothing is missed.** Where a marker is left, every category that holds the message now held it
before, so the new snapshot raises no flag that the prior one did not raise. A status that took the
prior snapshot into account takes the new one into account too.
-/

namespace Parley

namespace Conversation

variable {c : Conversation} {s prior : Snapshot} {m : Message}

/-- Invalidating a message changes nothing but its marker. -/
theorem invalidate_eq (uris : UriSet) (m : Message) :
    invalidate uris m = { m with upToDate := (invalidate uris m).upToDate } := by
  unfold invalidate
  split <;> rfl

/-- A marker is taken away just from a message that is news to the snapshot. -/
theorem upToDate_invalidate_introducedSince_iff :
    (invalidate (s.introducedSince prior) m).upToDate = true ↔
      m.upToDate = true ∧ ¬s.Introduces prior m := by
  rw [upToDate_invalidate_iff, ← isMentioned_introducedSince_iff, Bool.not_eq_true]

/-- A status that covers what the prior snapshot derives covers what the new one derives, if the
message is no news. -/
theorem covers_derive_of_not_introduces (hm : ¬s.Introduces prior m) {status : Status}
    (hstatus : status.covers (prior.derive m) = true) : status.covers (s.derive m) = true := by
  refine Status.covers_iff.mpr fun f hf ↦ Status.covers_iff.mp hstatus f ?_
  rw [Snapshot.derive, Status.get_ofFn] at hf ⊢
  exact holds_of_not_introduces hm hf

/-- **Which markers a new snapshot takes away.** A conversation that has a snapshot keeps its
messages when another one arrives, and nothing of them changes but markers. A marker is taken away
just from a message of which some category has gained a name. Where one is left, no flag is raised
that the prior snapshot did not raise, under either name, so a status that covered what the prior
snapshot derives covers what the new one derives. A snapshot without news takes no marker away. -/
theorem applySnapshot_invalidates_iff (h : c.agreement.data = some prior) (s : Snapshot) :
    (∀ k, c.message? k = none → (c.applySnapshot s).message? k = none) ∧
    (∀ k m, c.message? k = some m → ∃ marker,
      (c.applySnapshot s).message? k = some { m with upToDate := marker } ∧
      (m.upToDate = true ∧ marker = false ↔ m.upToDate = true ∧ s.Introduces prior m) ∧
      (marker = true →
        m.upToDate = true ∧
        (∀ f : Flag, s.holds f.category m.uri m.remoteUri = true →
          prior.holds f.category m.uri m.remoteUri = true) ∧
        (m.status.covers (prior.derive m) = true → m.status.covers (s.derive m) = true))) ∧
    ((∀ cat u, u ∈ s.uris cat → u ∈ prior.uris cat) →
      (c.applySnapshot s).messages = c.messages) := by
  refine ⟨fun k ↦ (sameNames_applySnapshot c s).message?_eq_none, fun k m hm ↦ ?_,
    messages_applySnapshot_of_subset h⟩
  have hkept : (invalidate (s.introducedSince prior) m).upToDate = true ↔
      m.upToDate = true ∧ ¬s.Introduces prior m := upToDate_invalidate_introducedSince_iff
  refine ⟨(invalidate (s.introducedSince prior) m).upToDate, ?_, ?_, fun hmarker ↦ ?_⟩
  · rw [message?_applySnapshot h, hm, Option.map_some, ← invalidate_eq]
  · rw [← Bool.not_eq_true, hkept]
    refine and_congr_right fun hmark ↦ ?_
    rw [not_and_not_right]
    exact ⟨fun hnews ↦ hnews hmark, fun hnews _ ↦ hnews⟩
  · obtain ⟨hmark, hold⟩ := hkept.mp hmarker
    exact ⟨hmark, fun f ↦ holds_of_not_introduces hold, covers_derive_of_not_introduces hold⟩

/-- Two messages are proposed, one of them under the name that the other side has for it. -/
def proposedSnapshot : Snapshot := { proposedMessages := .ofList ["r1", "m2"] }

/-- The first of them is accepted, so its name moves to another category. -/
def acceptedSnapshot : Snapshot :=
  { proposedMessages := .ofList ["m2"], agreements := .ofList ["r1"] }

/-- The messages are reconciled with the proposals. -/
def bothProposed : List Action :=
  [.upsert { uri := "m1", connectionUri := "c", remoteUri := some "r1" },
    .upsert { uri := "m2", connectionUri := "c" }, .applySnapshot proposedSnapshot, .reconcile]

theorem applySnapshot_invalidates_iff_bothProposed :
    ((new "c" .connected).run bothProposed).agreement.data = some proposedSnapshot ∧
      (((new "c" .connected).run bothProposed).applySnapshot acceptedSnapshot).message? "m1" =
        some { uri := "m1", connectionUri := "c", remoteUri := some "r1",
               status := .ofFlags [.proposed], upToDate := false } ∧
      (((new "c" .connected).run bothProposed).applySnapshot acceptedSnapshot).message? "m2" =
        some { uri := "m2", connectionUri := "c", status := .ofFlags [.proposed],
               upToDate := true } := by
  have h : ((new "c" .connected).run bothProposed).agreement.data = some proposedSnapshot := by cbv
  obtain ⟨-, hmarkers, -⟩ := applySnapshot_invalidates_iff h acceptedSnapshot
  have hm : ((new "c" .connected).run bothProposed).message? "m1" =
      some { uri := "m1", connectionUri := "c", remoteUri := some "r1",
             status := .ofFlags [.proposed], upToDate := true } := by cbv
  obtain ⟨marker, hn, hcleared, -⟩ := hmarkers "m1" _ hm
  have hnews : acceptedSnapshot.Introduces proposedSnapshot
      { uri := "m1", connectionUri := "c", remoteUri := some "r1",
        status := .ofFlags [.proposed], upToDate := true } :=
    ⟨.agreements, "r1", by decide, by decide, by decide⟩
  obtain ⟨-, rfl⟩ := hcleared.mpr ⟨rfl, hnews⟩
  exact ⟨h, hn, by cbv⟩

end Conversation

end Parley
