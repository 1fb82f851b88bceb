import Mathlib.Tactic.Tauto
import Parley.Proofs.Growth
import Parley.Proofs.Markers
import Parley.Store

/-!
# Patches that arrive late

Patches are computed from the messages and the snapshot of one moment, and may be delivered after
both have moved on. A patch never lowers a flag, but it marks its message as up to date, whatever
snapshot is current by then; from there on reconciling leaves the message out.

**The exact condition.** After late patches and reconciling every visible message has the flags that
the current snapshot raises for it if and only if the conversation `Foresaw` them: for each message
that a patch was computed for, such a flag is raised in the current record already, or was raised by
the snapshot of that time for the record of that time. All other messages have a true marker or none
(`MarkersHold`), so that reconciling settles them.
-/

namespace Parley

namespace Conversation

/-! ### Delivering patches -/

theorem run_patches (ps : List Patch) :
    ∀ c : Conversation, c.run (ps.map .applyPatch) = (c.applyPatches ps).1 := by
  induction ps with
  | nil => exact fun _ ↦ rfl
  | cons p ps ih => exact fun c ↦ ih (c.applyPatch p).1

theorem agreement_applyPatches (c : Conversation) (ps : List Patch) :
    (c.applyPatches ps).1.agreement = c.agreement := by
  obtain ⟨ms, hms⟩ := exists_applyPatches_eq ps c
  rw [hms, agreement_withMessages]

/-- No two patches of the list disagree about a message. -/
def Agree (ps : List Patch) : Prop :=
  ∀ p ∈ ps, ∀ q ∈ ps, p.messageUri = q.messageUri → p.status = q.status

/-- If no two patches disagree about a message, each of them has its effect, whichever comes
last. -/
theorem message?_applyPatches_of_mem {ps : List Patch} (hps : Agree ps) {p : Patch} (hp : p ∈ ps)
    (c : Conversation) :
    (c.applyPatches ps).1.message? p.messageUri =
      (c.message? p.messageUri).map (·.patched p.status) := by
  have hany : ps.any (·.messageUri = p.messageUri) = true :=
    List.any_eq_true.mpr ⟨p, hp, decide_eq_true rfl⟩
  rw [message?_applyPatches ps c fun q hq hqp ↦ hps q hq p hp hqp, hany]
  rfl

theorem message?_applyPatches_of_ne {ps : List Patch} {k : String}
    (hk : ∀ p ∈ ps, p.messageUri ≠ k) (c : Conversation) :
    (c.applyPatches ps).1.message? k = c.message? k := by
  have hany : ps.any (·.messageUri = k) = false := by simpa using hk
  rw [message?_applyPatches (s := .none) ps c fun p hp hpk ↦ absurd hpk (hk p hp), hany]
  exact Option.map_id'

/-- Delivered patches leave no visible message short of a flag just if none of them is short of one
itself: an unpatched message has a true marker or is reconciled. -/
theorem MarkersHold.settled_iff {d : Conversation} (h : d.MarkersHold) {s : Snapshot}
    (hs : d.agreement.data = some s) {ps : List Patch} (hps : Agree ps) :
    (∀ m ∈ (d.applyPatches ps).1.reconcile.1.messageList, m.isVisible = true →
        m.reconciled (some s) = m.status) ↔
      ∀ p ∈ ps, ∀ m, d.message? p.messageUri = some m → m.isVisible = true →
        (m.patched p.status).reconciled (some s) = (m.patched p.status).status := by
  have hkeyed : (d.applyPatches ps).1.Keyed := (sameNames_applyPatches ps d).keyed h.toKeyed
  have hdata : (d.applyPatches ps).1.agreement.data = some s := by rw [agreement_applyPatches, hs]
  rw [hkeyed.reconciled_reconcile_iff hdata]
  constructor
  · intro hall p hp m hm hv
    refine hall _ (mem_messageList.mpr ⟨p.messageUri, ?_⟩) hv rfl
    rw [message?_applyPatches_of_mem hps hp, hm, Option.map_some]
  · intro hall n hn hv hmark
    obtain ⟨k, hk⟩ := mem_messageList.mp hn
    by_cases hpk : ∃ p ∈ ps, p.messageUri = k
    · obtain ⟨p, hp, rfl⟩ := hpk
      rw [message?_applyPatches_of_mem hps hp] at hk
      obtain ⟨m, hm, rfl⟩ := Option.map_eq_some_iff.mp hk
      exact hall p hp m hm hv
    · rw [message?_applyPatches_of_ne fun p hp hpk' ↦ hpk ⟨p, hp, hpk'⟩] at hk
      obtain ⟨t, ht, hstatus⟩ := h.holds hk hmark
      obtain rfl : s = t := Option.some.inj (hs.symm.trans ht)
      exact hstatus

/-! ### Patches of an earlier moment -/

/-- What the snapshot of `d` raises for a message that is not up to date in `c` is raised in `d`
already, or was raised by the snapshot of `c` for the message as it was then. -/
def Foresaw (c d : Conversation) : Prop :=
  ∀ s t, c.agreement.data = some s → d.agreement.data = some t →
    ∀ m ∈ c.unreconciled, ∀ n, d.message? m.uri = some n → n.isVisible = true →
      ∀ f, t.holds f.category n.uri n.remoteUri = true →
        n.status.get f = true ∨ s.holds f.category m.uri m.remoteUri = true

/-- With a snapshot the patches are made from the messages that are not up to date. -/
theorem forMessages_of_some {c : Conversation} {s : Snapshot} (hs : c.agreement.data = some s) :
    Patch.forMessages c.messageList c.agreement.data = c.unreconciled.map (Patch.of s) := by
  rw [hs]
  rfl

/-- The patches of a keyed conversation agree: there is one for a message at most. -/
theorem Keyed.agree_forMessages {c : Conversation} (h : c.Keyed) :
    Agree (Patch.forMessages c.messageList c.agreement.data) := by
  rcases hs : c.agreement.data with - | s
  · exact fun p hp ↦ nomatch hp
  · intro p hp q hq hpq
    obtain ⟨m, hm, rfl⟩ := List.mem_map.mp hp
    obtain ⟨n, hn, rfl⟩ := List.mem_map.mp hq
    -- both patches are for the message that lies under their common URI
    have hmn : some m = some n := by
      rw [← (h.mem_unreconciled.mp hm).1, ← (h.mem_unreconciled.mp hn).1]
      exact congrArg c.message? hpq
    rw [Option.some.inj hmn]

/-- A late patch leaves nothing to be raised just if what is raised was foreseen. -/
theorem patched_settled_iff {s t : Snapshot} {m n : Message} (h : n.Retains m) :
    (n.patched (m.reconciled (some s))).reconciled (some t) =
        (n.patched (m.reconciled (some s))).status ↔
      ∀ f, t.holds f.category n.uri n.remoteUri = true →
        n.status.get f = true ∨ s.holds f.category m.uri m.remoteUri = true := by
  rw [Message.reconciled_eq_status_iff]
  refine forall_congr' fun f ↦ imp_congr_right fun _ ↦ ?_
  rw [show (n.patched (m.reconciled (some s))).status = n.status.merge (m.reconciled (some s)) from
    rfl, Status.get_merge, Message.get_reconciled_some, Bool.or_eq_true, Bool.or_eq_true]
  -- the flags that the record had then are among those that it has now
  have hold : m.status.get f = true → n.status.get f = true := Status.covers_iff.mp h.covers f
  tauto

/-- Patches of `c` leave no visible message of `d` short of a flag just if the flags were foreseen:
each of them was computed for a message that is not up to date in `c`. -/
theorem MarkersHold.settled_iff_foresaw {c d : Conversation} (hc : c.Keyed) (h : d.MarkersHold)
    (hgrows : Grows c d) {t : Snapshot} (ht : d.agreement.data = some t) {ps : List Patch}
    (hps : ps.Perm (Patch.forMessages c.messageList c.agreement.data)) :
    (∀ m ∈ (d.applyPatches ps).1.reconcile.1.messageList, m.isVisible = true →
        m.reconciled (some t) = m.status) ↔ Foresaw c d := by
  have hagree : Agree ps := fun p hp q hq ↦
    hc.agree_forMessages p (hps.mem_iff.mp hp) q (hps.mem_iff.mp hq)
  -- the record of `d` under the URI of a patched message retains the one that was patched
  have hretains : ∀ {m n : Message}, m ∈ c.unreconciled → d.message? m.uri = some n →
      n.Retains m := by
    intro m n hm hn
    obtain ⟨n', hn', hret⟩ := hgrows.retained _ m (hc.mem_unreconciled.mp hm).1
    rwa [Option.some.inj (hn.symm.trans hn')]
  rw [h.settled_iff ht hagree]
  constructor
  · intro hall s t' hs ht' m hm n hn hv
    obtain rfl : t = t' := Option.some.inj (ht.symm.trans ht')
    have hmem : Patch.of s m ∈ ps := by
      rw [hps.mem_iff, forMessages_of_some hs]
      exact List.mem_map_of_mem hm
    exact (patched_settled_iff (hretains hm hn)).mp (hall _ hmem n hn hv)
  · intro hfor p hp n hn hv
    rw [hps.mem_iff] at hp
    rcases hs : c.agreement.data with - | s
    · rw [hs] at hp
      exact nomatch hp
    · rw [forMessages_of_some hs] at hp
      obtain ⟨m, hm, rfl⟩ := List.mem_map.mp hp
      exact (patched_settled_iff (hretains hm hn)).mpr (hfor s t hs ht m hm n hn hv)

/-! ### Through a store -/

/-- An update of a conversation that is kept in a store leaves what it makes of it there. -/
theorem get?_update {α : Type} {st : Store} {uri : String} {c : Conversation}
    (h : st.get? uri = some c) (f : Conversation → Conversation × α) :
    (st.update uri f).1.get? uri = some (f c).1 := by
  rw [Store.update_of_some h]
  exact st.get?_put_self uri (f c).1

/-- A store leads the patches for one connection to its conversation. -/
theorem get?_foldl_applyPatch {uri : String} {ps : List Patch}
    (hps : ∀ p ∈ ps, p.connectionUri = uri) :
    ∀ {st : Store} {c : Conversation}, st.get? uri = some c →
      (ps.foldl (fun st p ↦ (st.applyPatch p).1) st).get? uri =
        some (c.run (ps.map .applyPatch)) := by
  induction ps with
  | nil => exact fun h ↦ h
  | cons p ps ih =>
    intro st c h
    have hp : p.connectionUri = uri := hps p List.mem_cons_self
    refine ih (fun q hq ↦ hps q (List.mem_cons_of_mem _ hq)) (c := (c.applyPatch p).1) ?_
    rw [← hp] at h ⊢
    exact get?_update h (·.applyPatch p)

/-- The patches of a keyed conversation name its connection, so a store finds the way back. -/
theorem Keyed.connectionUri_forMessages {c : Conversation} (h : c.Keyed) :
    ∀ p ∈ Patch.forMessages c.messageList c.agreement.data, p.connectionUri = c.uri := by
  intro p hp
  rcases hs : c.agreement.data with - | s
  · rw [hs] at hp
    exact nomatch hp
  · rw [forMessages_of_some hs] at hp
    obtain ⟨m, hm, rfl⟩ := List.mem_map.mp hp
    exact h.connectionUri_eq (h.mem_unreconciled.mp hm).1

/-! ### Runs with a late delivery -/

/-- **Late patches, exactly.** Patches are computed in a state `c` that a run reaches, and delivered
in any order in a state `d` after more actions; no action brings in a marker. After reconciling, the
status of every visible message takes the current snapshot into account if and only if the flags
that it raises were foreseen. It makes no difference whether the patches come through a store. -/
theorem settled_late_patches_iff {uri : String} {s : Connection} {before between : List Action}
    {ps : List Patch} {c d e : Conversation}
    (hc : (new uri s).run before = c) (hbefore : ∀ a ∈ before, a.BringsNoMarker)
    (hd : c.run between = d) (hbetween : ∀ a ∈ between, a.BringsNoMarker)
    (hps : ps.Perm (Patch.forMessages c.messageList c.agreement.data))
    (he : d.run (ps.map .applyPatch ++ [.reconcile]) = e) :
    ((∀ m ∈ e.messageList, m.isVisible = true → m.reconciled e.agreement.data = m.status) ↔
        Foresaw c d) ∧
      ∀ st : Store, st.get? uri = some d →
        ((ps.foldl (fun st p ↦ (st.applyPatch p).1) st).perform uri .reconcile).1.get? uri =
          some e := by
  have hmarkers : c.MarkersHold := hc ▸ markersHold_run uri s hbefore
  have hmarkers' : d.MarkersHold :=
    hd ▸ run_preserves (fun a ha h ↦ h.perform (hbetween a ha)) hmarkers
  have hgrows : Grows c d := hd ▸ hmarkers.toKeyed.grows_run between
  have huri : c.uri = uri := hc ▸ ((keyed_new uri s).grows_run before).uri_eq
  refine ⟨?_, fun st hst ↦ ?_⟩
  · have he' : e = (d.applyPatches ps).1.reconcile.1 := by
      rw [← he, run_concat, run_patches]
      rfl
    have hdata : e.agreement.data = d.agreement.data := by
      rw [he', agreement_reconcile, agreement_applyPatches]
    rcases ht : d.agreement.data with - | t
    · -- without a snapshot there is nothing to take into account
      rw [hdata, ht]
      exact iff_of_true (fun _ _ _ ↦ rfl) fun _ t _ ht' ↦ nomatch ht.symm.trans ht'
    · rw [hdata, ht, he']
      exact hmarkers'.settled_iff_foresaw hmarkers.toKeyed hgrows ht hps
  · have hconn : ∀ p ∈ ps, p.connectionUri = uri := fun p hp ↦
      (hmarkers.toKeyed.connectionUri_forMessages p (hps.mem_iff.mp hp)).trans huri
    have hdelivered := get?_foldl_applyPatch hconn hst
    rw [← he, run_concat]
    exact get?_update hdelivered (·.perform .reconcile)

/-- Between computing and delivery the message learns the URI of the other side, and a snapshot
arrives that says nothing new about it. -/
def foreseenRun : List Action :=
  [.upsert { uri := "r", connectionUri := "c", remoteUri := some "m" },
    .applySnapshot { agreements := .ofList ["m", "n"] }]

/-- A message that is not reconciled yet with a snapshot that accepts it. -/
def acceptedRun : List Action :=
  [.upsert { uri := "m", connectionUri := "c" }, .applySnapshot { agreements := .ofList ["m"] }]

/-- The patch that `acceptedRun` leaves to be delivered. -/
def acceptedPatches : List Patch := [⟨"m", "c", .ofFlags [.accepted]⟩]

/-- The patches agree with what the snapshot says after the run, although the message has learned
another name by then. -/
theorem settled_late_patches_iff_foreseenRun :
    (∀ a ∈ acceptedRun, a.BringsNoMarker) ∧ (∀ a ∈ foreseenRun, a.BringsNoMarker) ∧
      acceptedPatches.Perm (Patch.forMessages ((new "c" .connected).run acceptedRun).messageList
        ((new "c" .connected).run acceptedRun).agreement.data) ∧
      Foresaw ((new "c" .connected).run acceptedRun)
        (((new "c" .connected).run acceptedRun).run foreseenRun) := by
  have hbefore : ∀ a ∈ acceptedRun, a.BringsNoMarker := by
    simp [acceptedRun, Action.BringsNoMarker, Action.records]
  have hbetween : ∀ a ∈ foreseenRun, a.BringsNoMarker := by
    simp [foreseenRun, Action.BringsNoMarker, Action.records]
  have hps : acceptedPatches.Perm
      (Patch.forMessages ((new "c" .connected).run acceptedRun).messageList
        ((new "c" .connected).run acceptedRun).agreement.data) :=
    .of_eq (by decide +kernel)
  refine ⟨hbefore, hbetween, hps, ?_⟩
  exact (settled_late_patches_iff rfl hbefore rfl hbetween hps rfl).1.mp (by decide +kernel)

/-- A message with a snapshot that knows nothing of it. -/
def unansweredRun : List Action :=
  [.upsert { uri := "m", connectionUri := "c" }, .applySnapshot .empty]

/-- The patch of `unansweredRun` is delivered after the snapshot that accepts the message. -/
def overtakenRun : List Action :=
  unansweredRun ++ [.applySnapshot { agreements := .ofList ["m"] }] ++
    (Patch.forMessages ((new "c" .connected).run unansweredRun).messageList
      ((new "c" .connected).run unansweredRun).agreement.data).map .applyPatch ++ [.reconcile]

/-- The overtaken patch marks the message as up to date, and so the reconciliation that follows
skips it. -/
theorem not_settled_overtakenRun :
    ¬∀ m ∈ ((new "c" .connected).run overtakenRun).messageList, m.isVisible = true →
      m.reconciled ((new "c" .connected).run overtakenRun).agreement.data = m.status := by
  decide +kernel

end Conversation

end Parley
