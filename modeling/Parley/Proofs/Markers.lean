import Mathlib.Tactic.ByContra
import Parley.Proofs.Runs

/-!
# What a marker promises

A message is marked `upToDate` so that reconciling may leave it out. This is right as long as the
marker tells the truth: there is a snapshot, and the status of the message already has every flag
that the snapshot raises for it (`MarkersHold`).

**Why it is kept.** Flags are derived from the two URIs of a message and from the snapshot. A merge
drops the marker if a URI or the status changes. A new snapshot drops it if some category has gained
one of the URIs; in every other category the new snapshot holds the message only where the prior one
did. The first snapshot drops no marker, and need not: before it no message is marked.

Markers can also be brought in from outside, by a record that carries one or by a patch.
`Action.BringsNoMarker` rules these out.
-/

namespace Parley

/-- The action brings no marker from outside: its records carry none, and it is no patch. -/
def Action.BringsNoMarker (a : Action) : Prop :=
  (∀ m ∈ a.records, m.upToDate = false) ∧ ∀ p, a ≠ .applyPatch p

/-- Some category has gained a name of the message since `prior`. -/
def Snapshot.Introduces (s prior : Snapshot) (m : Message) : Prop :=
  ∃ cat u, m.isKnownAs u = true ∧ u ∈ s.uris cat ∧ u ∉ prior.uris cat

/-- What a snapshot makes of a message depends only on its URIs and its status. -/
theorem Message.reconciled_congr {m n : Message} (hu : m.uri = n.uri)
    (hr : m.remoteUri = n.remoteUri) (hs : m.status = n.status) (s : Option Snapshot) :
    m.reconciled s = n.reconciled s := by
  rcases s with - | s
  · exact hs
  · refine Status.ext fun f ↦ ?_
    rw [get_reconciled_some, get_reconciled_some, hu, hr, hs]

namespace Conversation

/-- The marker of the message `m` tells the truth about the snapshot. -/
def MarkerHolds (c : Conversation) (m : Message) : Prop :=
  m.upToDate = true → ∃ s, c.agreement.data = some s ∧ m.reconciled (some s) = m.status

/-- The conversation is keyed, and every marker tells the truth. -/
structure MarkersHold (c : Conversation) : Prop extends Keyed c where
  holds : ∀ {k m}, c.message? k = some m → c.MarkerHolds m

theorem markersHold_new (uri : String) (s : Connection) : (new uri s).MarkersHold :=
  ⟨keyed_new uri s, fun h ↦ nomatch h⟩

/-- Markers hold as long as messages and snapshot stay. -/
theorem MarkersHold.of_sameCore {c d : Conversation} (h : c.MarkersHold) (hs : SameCore c d) :
    d.MarkersHold where
  toKeyed := hs.sameNames.keyed h.toKeyed
  holds hm hmark := by
    rw [hs.message?_eq] at hm
    rw [hs.data_eq]
    exact h.holds hm hmark

/-! ### Records -/

/-- Taking in an unmarked record keeps markers true, since a merge that keeps a marker changes no
flag and no name. -/
theorem MarkersHold.upsert {c : Conversation} (h : c.MarkersHold) {m : Message}
    (hm : m.upToDate = false) : (c.upsert m).1.MarkersHold where
  toKeyed := h.toKeyed.upsert m
  holds := by
    intro k n hn hmark
    obtain ⟨ms, hms⟩ := exists_upsert_eq c m
    rw [hms, agreement_withMessages]
    refine h.toKeyed.forall_marked_upsert ?_ h.holds (fun hmark ↦ ?_) hn hmark
    · rintro old p hu hr hs ⟨s, hdata, hrec⟩
      exact ⟨s, hdata, (Message.reconciled_congr hu hr hs _).trans (hrec.trans hs.symm)⟩
    · rw [hm] at hmark
      exact absurd hmark Bool.false_ne_true

/-! ### Snapshots -/

theorem isMentioned_iff {uris : UriSet} {m : Message} :
    isMentioned uris m = true ↔ m.uri ∈ uris ∨ ∃ r, m.remoteUri = some r ∧ r ∈ uris := by
  simp [isMentioned, Option.any_eq_true]

/-- A marker is left where no name of the message is mentioned. -/
theorem upToDate_invalidate_iff {uris : UriSet} {m : Message} :
    (invalidate uris m).upToDate = true ↔ m.upToDate = true ∧ isMentioned uris m = false := by
  unfold invalidate
  split <;> simp_all

theorem invalidate_of_not_mentioned {uris : UriSet} {m : Message}
    (h : isMentioned uris m = false) : invalidate uris m = m := by
  rw [invalidate, h]
  rfl

/-- The names that categories have gained are collected in one set, and nothing is lost by that. -/
theorem isMentioned_introducedSince_iff {s prior : Snapshot} {m : Message} :
    isMentioned (s.introducedSince prior) m = true ↔ s.Introduces prior m := by
  simp only [isMentioned_iff, Snapshot.mem_introducedSince]
  constructor
  · rintro (⟨cat, hu, hnot⟩ | ⟨r, hr, cat, hu, hnot⟩)
    · exact ⟨cat, m.uri, m.isKnownAs_uri, hu, hnot⟩
    · exact ⟨cat, r, Message.isKnownAs_iff.mpr (Or.inr hr), hu, hnot⟩
  · rintro ⟨cat, u, hname, hu, hnot⟩
    rcases Message.isKnownAs_iff.mp hname with rfl | hr
    · exact Or.inl ⟨cat, hu, hnot⟩
    · exact Or.inr ⟨u, hr, cat, hu, hnot⟩

/-- **Categories of a message that is no news.** If no category has gained a name of the message
since `prior`, every category that holds it now held it then. -/
theorem holds_of_not_introduces {s prior : Snapshot} {m : Message} (hm : ¬s.Introduces prior m)
    {cat : Category} (hs : s.holds cat m.uri m.remoteUri = true) :
    prior.holds cat m.uri m.remoteUri = true := by
  have hkept : ∀ u, m.isKnownAs u = true → u ∈ s.uris cat → u ∈ prior.uris cat :=
    fun u hname hu ↦ by_contra fun hprior ↦ hm ⟨cat, u, hname, hu, hprior⟩
  simp only [Snapshot.holds, Bool.or_eq_true, decide_eq_true_eq, Option.any_eq_true] at hs ⊢
  rcases hs with hu | ⟨r, hr, hu⟩
  · exact Or.inl (hkept _ m.isKnownAs_uri hu)
  · exact Or.inr ⟨r, hr, hkept r (Message.isKnownAs_iff.mpr (Or.inr hr)) hu⟩

/-- A snapshot that puts nothing into a category that was not there already leaves every marker. -/
theorem messages_applySnapshot_of_subset {c : Conversation} {prior s : Snapshot}
    (h : c.agreement.data = some prior) (hs : ∀ cat u, u ∈ s.uris cat → u ∈ prior.uris cat) :
    (c.applySnapshot s).messages = c.messages := by
  have hnew : ∀ u, u ∉ s.introducedSince prior := by
    intro u hu
    obtain ⟨cat, hu, hnot⟩ := Snapshot.mem_introducedSince.mp hu
    exact hnot (hs cat u hu)
  have hsame : invalidate (s.introducedSince prior) = id := by
    funext m
    have hment : isMentioned (s.introducedSince prior) m = false := by simp [isMentioned, hnew]
    exact invalidate_of_not_mentioned hment
  refine OrderedMap.ext fun k ↦ (message?_applySnapshot h s k).trans ?_
  rw [hsame, Option.map_id]
  rfl

/-- **A new snapshot** keeps markers true: it takes away those it would make false. -/
theorem MarkersHold.applySnapshot {c : Conversation} (h : c.MarkersHold) (s : Snapshot) :
    (c.applySnapshot s).MarkersHold where
  toKeyed := (sameNames_applySnapshot c s).keyed h.toKeyed
  holds := by
    intro k n hn hmark
    refine ⟨s, rfl, ?_⟩
    rcases hprior : c.agreement.data with - | prior
    · -- before the first snapshot no message is marked
      rw [applySnapshot_of_none hprior] at hn
      obtain ⟨t, ht, -⟩ := h.holds (k := k) hn hmark
      rw [hprior] at ht
      exact nomatch ht
    · rw [message?_applySnapshot hprior] at hn
      obtain ⟨m, hm, rfl⟩ := Option.map_eq_some_iff.mp hn
      obtain ⟨hold, hment⟩ := upToDate_invalidate_iff.mp hmark
      rw [invalidate_of_not_mentioned hment]
      obtain ⟨t, ht, hrec⟩ := h.holds hm hold
      obtain rfl : prior = t := Option.some.inj (hprior.symm.trans ht)
      rw [Message.reconciled_eq_status_iff] at hrec ⊢
      rw [← Bool.not_eq_true, isMentioned_introducedSince_iff] at hment
      exact fun f hf ↦ hrec f (holds_of_not_introduces hment hf)

/-! ### Reconciling and reading -/

/-- **Reconciling** keeps markers true: what it marks has every flag that the snapshot raises. -/
theorem MarkersHold.reconcile {c : Conversation} (h : c.MarkersHold) :
    c.reconcile.1.MarkersHold := by
  rcases hs : c.agreement.data with - | s
  · rw [reconcile_of_none hs]
    exact h
  · refine ⟨(sameNames_reconcile c).keyed h.toKeyed, fun {k n} hn hmark ↦ ?_⟩
    rw [agreement_reconcile]
    rw [message?_reconcile h.toKeyed hs] at hn
    obtain ⟨m, hm, rfl⟩ := Option.map_eq_some_iff.mp hn
    split at hmark
    · rename_i hcond
      rw [if_pos hcond]
      exact ⟨s, hs, m.reconciled_settled s⟩
    · rename_i hcond
      rw [if_neg hcond]
      exact h.holds hm hmark

/-- Reading everything keeps markers true: whether a message is unread is no flag of its status. -/
theorem MarkersHold.markAllRead {c : Conversation} (h : c.MarkersHold) :
    c.markAllRead.1.MarkersHold where
  toKeyed := (sameNames_markAllRead c).keyed h.toKeyed
  holds hn hmark := by
    rw [message?_markAllRead] at hn
    obtain ⟨m, hm, rfl⟩ := Option.map_eq_some_iff.mp hn
    have hmarker : c.MarkerHolds m := h.holds hm
    exact hmarker hmark

/-! ### Runs -/

/-- **One action** that brings no marker keeps markers true. -/
theorem MarkersHold.perform {c : Conversation} (h : c.MarkersHold) {a : Action}
    (ha : a.BringsNoMarker) : (c.perform a).1.MarkersHold :=
  perform_preserves (fun hs h ↦ h.of_sameCore hs) (fun m hm h ↦ h.upsert (ha.1 m hm))
    (fun p hp ↦ absurd hp (ha.2 p)) (fun h ↦ h.reconcile) (fun h ↦ h.markAllRead)
    (fun s h ↦ h.applySnapshot s) h

/-- **Markers are true.** In a run that brings in no markers from outside every marker tells the
truth. -/
theorem markersHold_run (uri : String) (s : Connection) {actions : List Action}
    (h : ∀ a ∈ actions, a.BringsNoMarker) : ((new uri s).run actions).MarkersHold :=
  run_preserves (fun a ha hc ↦ hc.perform (h a ha)) (markersHold_new uri s)

end Conversation

end Parley
