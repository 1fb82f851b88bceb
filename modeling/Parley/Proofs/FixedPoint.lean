import Mathlib
import Parley.Proofs.AtRest
import Parley.Proofs.History

/-!
# A sync that succeeds leaves nothing to do

A `Sync` that answers without a fault has brought a conversation up to the server: snapshot and
processes are there, and every visible message takes the snapshot into account. Nothing is due then
but the newest messages if there are none, so a second sync makes no other request.

Three things meet here. A call that was not due, for a conversation at rest, was not due because its
data is there (`loaded_of_agreementCall`); reconciling leaves no visible message out, as it makes a
patch for each that has no marker; and the markers tell the truth, so that what it leaves out needs
no patch (`AtRest`).
-/

namespace Parley

open Conversation

theorem Source.unmarked_archive {history : List Message} (h : ∀ m ∈ history, m.upToDate = false) :
    (archive history).Unmarked where
  message := by
    rintro m ⟨need, uri, s, hm⟩
    exact h m (looksUp_archive history need uri s m hm)
  messages := by
    rintro batch ⟨connection, limit, before, s, hbatch⟩ m hm
    obtain rfl : page history limit before = batch := Except.ok.inj hbatch
    have hsorted := List.mem_of_mem_take hm
    rw [List.mem_mergeSort] at hsorted
    cases before with
    | none => exact h m hsorted
    | some t => exact h m (List.mem_filter.mp hsorted).1

namespace Sync

variable {σ : Type} {y : Sync σ} {c d : Conversation} {r : Conversation × Answer Nat}

/-! ### What a successful call brings -/

/-- After a refresh of the agreements that succeeded they are loaded, whether it was due or not. -/
theorem loaded_of_agreementCall (hconn : c.connection = .connected) (hrest : c.agreement.AtRest)
    (hr : y.AgreementCall c false r) (hok : ∃ n, r.2 = .ok n) :
    ∃ t, r.1.agreement = ⟨some t, .loaded⟩ := by
  cases hr with
  | notDue hdue =>
    refine hrest.eq_of_ne_notLoaded fun hprogress ↦ ?_
    simp [needsAgreement, isConnected, hconn, hprogress] at hdue
  | failed _ f =>
    obtain ⟨n, hn⟩ := hok
    exact nomatch hn
  | arrived _ snapshot l =>
    exact ⟨snapshot, ((c.beginSnapshot.applySnapshot snapshot).fetched_perform (.upsertAll l)).2.1⟩

/-- After a refresh of the Petri net that succeeded it is loaded, whether it was due or not. -/
theorem loaded_of_petriNetCall (hconn : c.connection = .connected) (hrest : c.petriNet.AtRest)
    (hr : PetriNetCall c false r) (hok : ∃ n, r.2 = .ok n) :
    ∃ net, r.1.petriNet = ⟨some net, .loaded⟩ := by
  cases hr with
  | notDue hdue =>
    refine hrest.eq_of_ne_notLoaded fun hprogress ↦ ?_
    simp [needsPetriNet, isConnected, hconn, hprogress] at hdue
  | failed _ f =>
    obtain ⟨n, hn⟩ := hok
    exact nomatch hn
  | arrived _ net => exact ⟨net, rfl⟩

/-- **The data is there** after a sync without a fault, before it reconciles. -/
theorem exists_loaded_of_sync (hc : c.AtRest) (hconn : c.connection = .connected)
    (hy : y.source.Unmarked) {s s' : σ} (hrun : (y.sync c).run s = ((d, .ok ()), s')) :
    ∃ e : Conversation, d = (reconcile e).1 ∧ e.AtRest ∧ e.connection = .connected ∧
      (∃ t, e.agreement = ⟨some t, .loaded⟩) ∧ ∃ net, e.petriNet = ⟨some net, .loaded⟩ := by
  obtain ⟨r₁, r₂, r₃, hlatest, hagreement, hprocesses, hr⟩ := y.exists_calls_of_sync c s
  rw [hrun] at hr
  obtain ⟨hd, hanswer⟩ := Prod.ext_iff.mp hr
  obtain ⟨-, hok₂, hok₃⟩ := firstFault_eq_ok_iff.mp hanswer.symm
  have hrest₁ : r₁.1.AtRest := hc.pageCall hy (fun _ ↦ hc.finishMessages) hlatest
  have hrest₂ : r₂.1.AtRest := hrest₁.agreementCall hy hagreement
  have hconn₁ : r₁.1.connection = .connected := hlatest.fetched_eq.1.trans hconn
  have hconn₂ : r₂.1.connection = .connected := hagreement.others_eq.1.trans hconn₁
  obtain ⟨t, ht⟩ := loaded_of_agreementCall hconn₁ hrest₁.agreement hagreement hok₂
  obtain ⟨hconn₃, hagreement₃⟩ := hprocesses.others_eq
  exact ⟨r₃.1, hd, hrest₂.petriNetCall hprocesses, hconn₃.trans hconn₂,
    ⟨t, hagreement₃.trans ht⟩, loaded_of_petriNetCall hconn₂ hrest₂.petriNet hprocesses hok₃⟩

/-! ### What is not due makes no request -/

/-- Where neither snapshot nor processes are due, a sync fetches the newest messages at most. -/
theorem run_sync_of_loaded (hagreement : c.needsAgreement false = false)
    (hprocesses : c.needsPetriNet false = false) (s : σ) :
    (y.sync c).run s =
      let r := (y.loadLatest c).run s
      (((reconcile r.1.1).1, firstFault r.1.2 (.ok 0) (.ok 0)), r.2) := by
  obtain ⟨hconn, hagreement', hprocesses'⟩ := (y.pageCall_loadLatest c s).fetched_eq
  have h₂ : ((y.loadLatest c).run s).1.1.needsAgreement false = false := by
    refine Eq.trans ?_ hagreement
    simp only [needsAgreement, isConnected, hconn, hagreement']
  have h₃ : ((y.loadLatest c).run s).1.1.needsPetriNet false = false := by
    refine Eq.trans ?_ hprocesses
    simp only [needsPetriNet, isConnected, hconn, hprocesses']
  simp only [run_sync]
  rw [run_refreshAgreement_of_not_needed h₂, run_refreshPetriNet_of_not_needed h₃]

/-! ### Conversations in step with the server -/

/-- The data of an established connection is there, and no visible message has to be reconciled. -/
structure InStep (c : Conversation) : Prop extends c.AtRest where
  connected : c.connection = .connected
  snapshot : ∃ t, c.agreement = ⟨some t, .loaded⟩
  processes : ∃ net, c.petriNet = ⟨some net, .loaded⟩
  unreconciled_eq : c.unreconciled = []

/-- Reconciling is due if a message has to be reconciled, so that afterwards none has. -/
theorem unreconciled_reconcile (hc : c.AtRest) (hconn : c.connection = .connected) {t : Snapshot}
    (ht : c.agreement = ⟨some t, .loaded⟩) : (reconcile c).1.unreconciled = [] := by
  unfold reconcile
  split
  · exact hc.toKeyed.unreconciled_reconcile (by rw [ht])
  · rename_i hdue
    simpa [needsReconciliation, isConnected, hconn, ht, hc.idle] using hdue

/-- **A sync without a fault** brings the conversation in step. -/
theorem inStep_of_sync (hc : c.AtRest) (hconn : c.connection = .connected)
    (hy : y.source.Unmarked) {s s' : σ} (hrun : (y.sync c).run s = ((d, .ok ()), s')) :
    InStep d := by
  obtain ⟨e, rfl, hrest, hconn', ⟨snapshot, hsnapshot⟩, hprocesses⟩ :=
    exists_loaded_of_sync hc hconn hy hrun
  have hd : (reconcile e).1.AtRest := hrest.reconcile
  have hnil : (reconcile e).1.unreconciled = [] := unreconciled_reconcile hrest hconn' hsnapshot
  obtain ⟨ms, hms⟩ := exists_reconcile_eq e
  rw [hms] at hd hnil ⊢
  exact ⟨hd, hconn', ⟨snapshot, hsnapshot⟩, hprocesses, hnil⟩

namespace InStep

variable (h : InStep c)
include h

theorem needsAgreement_eq : c.needsAgreement false = false := by
  obtain ⟨t, ht⟩ := h.snapshot
  simp [needsAgreement, ht]

theorem needsPetriNet_eq : c.needsPetriNet false = false := by
  obtain ⟨net, hnet⟩ := h.processes
  simp [needsPetriNet, hnet]

theorem needsReconciliation_eq : c.needsReconciliation = false := by
  simp [needsReconciliation, h.unreconciled_eq]

/-- Of all that a sync looks at, only the initial batch may still be due, and that if no message is
there. -/
theorem needsMessages_eq : c.needsMessages = c.isEmpty := by
  rw [needsMessages, h.connected, h.idle]
  rfl

/-- No visible message is short of a flag: it is marked, and markers tell the truth. -/
theorem reconciled_eq_status {m : Message} (hm : m ∈ c.messageList) (hv : m.isVisible = true) :
    m.reconciled c.agreement.data = m.status := by
  have hk : c.message? m.uri = some m := h.toKeyed.message?_uri hm
  cases hmark : m.upToDate with
  | false =>
    have hmem : m ∈ c.unreconciled := h.toKeyed.mem_unreconciled.mpr ⟨hk, hv, hmark⟩
    rw [h.unreconciled_eq] at hmem
    exact absurd hmem List.not_mem_nil
  | true =>
    obtain ⟨t, ht, hstatus⟩ := h.holds hk hmark
    rw [ht, hstatus]

/-- A further sync has nothing to do if there are messages. -/
theorem run_sync_of_not_empty (hempty : c.isEmpty = false) (s : σ) :
    (y.sync c).run s = ((c, .ok ()), s) := by
  have hmessages : c.needsMessages = false := h.needsMessages_eq.trans hempty
  rw [run_sync_of_loaded h.needsAgreement_eq h.needsPetriNet_eq,
    loadLatest_of_not_needed hmessages]
  change (((reconcile c).1, _), _) = _
  rw [reconcile, h.needsReconciliation_eq]
  rfl

/-- A further sync asks for the newest messages, and nothing else, if there are none. -/
theorem log_sync_of_empty (hempty : c.isEmpty = true) (s : σ) (calls : List Call) :
    ((y.logged.sync c).run (s, calls)).2.2 = calls ++ [.messages c.uri y.initialCount none] := by
  rw [run_sync_of_loaded h.needsAgreement_eq h.needsPetriNet_eq]
  exact log_loadLatest (h.needsMessages_eq.trans hempty) s calls

end InStep

/-! ### Reachable conversations -/

/-- The conversations that come about when unmarked records are taken in, the connection changes,
and calls are made to sources that deliver no marked record. -/
inductive Reached (uri : String) : Conversation → Prop
  | new (s : Connection) : Reached uri (new uri s)
  | upsertAll {c : Conversation} (h : Reached uri c) (l : List Message)
      (hl : ∀ m ∈ l, m.upToDate = false) : Reached uri (c.upsertAll l).1
  | setConnection {c : Conversation} (h : Reached uri c) (s : Connection) :
      Reached uri (c.setConnection s)
  | load {c : Conversation} (h : Reached uri c) {σ : Type} (y : Sync σ) (hy : y.source.Unmarked)
      (s : σ) (call : Load) : Reached uri ((y.load c call).run s).1.1
  | refreshPetriNet {c : Conversation} (h : Reached uri c) {σ : Type} (y : Sync σ) (force : Bool)
      (s : σ) : Reached uri ((y.refreshPetriNet c force).run s).1.1
  | reconcile {c : Conversation} (h : Reached uri c) : Reached uri (Sync.reconcile c).1
  | sync {c : Conversation} (h : Reached uri c) {σ : Type} (y : Sync σ) (hy : y.source.Unmarked)
      (s : σ) : Reached uri ((y.sync c).run s).1.1

/-- Every conversation that comes about in this way is at rest, so its markers can be trusted. -/
theorem Reached.atRest {uri : String} (h : Reached uri c) : c.AtRest := by
  induction h with
  | new s => exact atRest_new uri s
  | upsertAll _ l hl ih => exact ih.upsertAll hl
  | setConnection _ s ih => exact ih.setConnection s
  | load _ y hy s call ih => exact ih.load hy call s
  | refreshPetriNet _ y force s ih => exact ih.refreshPetriNet force s
  | reconcile _ ih => exact ih.reconcile
  | sync _ y hy s ih => exact ih.sync hy s

/-! ### The fixed point -/

/-- **A sync that succeeds is a fixed point.** A connection is established, and a sync whose source
delivers no marked record answers without a fault. Then snapshot and processes are there, there is
nothing to reconcile, and the status of every visible message takes the snapshot into account. If
there are messages, a second sync, whatever its source, makes no request, answers without a fault
and changes nothing; if there are none, its only request is for the newest messages. -/
theorem sync_fixed_point {uri : String} (hc : Reached uri c) (hconn : c.connection = .connected)
    (hy : y.source.Unmarked) {s s' : σ} (hrun : (y.sync c).run s = ((d, .ok ()), s')) :
    (∃ t, d.agreement = ⟨some t, .loaded⟩) ∧ (∃ net, d.petriNet = ⟨some net, .loaded⟩) ∧
      d.unreconciled = [] ∧ d.needsReconciliation = false ∧
      (∀ m ∈ d.messageList, m.isVisible = true → m.reconciled d.agreement.data = m.status) ∧
      ∀ {τ : Type} (y' : Sync τ) (t : τ) (calls : List Call),
        (d.isEmpty = false → (y'.logged.sync d).run (t, calls) = ((d, .ok ()), (t, calls))) ∧
        (d.isEmpty = true → ((y'.logged.sync d).run (t, calls)).2.2 =
          calls ++ [.messages d.uri y'.initialCount none]) := by
  have hd : InStep d := inStep_of_sync hc.atRest hconn hy hrun
  exact ⟨hd.snapshot, hd.processes, hd.unreconciled_eq, hd.needsReconciliation_eq,
    fun m ↦ hd.reconciled_eq_status,
    fun y' t calls ↦ ⟨fun hempty ↦ hd.run_sync_of_not_empty hempty _,
      fun hempty ↦ hd.log_sync_of_empty hempty t calls⟩⟩

/-- Serves the five messages, with the second one agreed. -/
def agreedSecond : Sync (List Response) := ⟨.archive fiveMessages, "n", 2, 2⟩

/-- A fresh conversation after a sync that brings in the two newest messages and the agreed one. -/
def afterSync : Conversation :=
  ((agreedSecond.sync (new "c" .connected)).run [{ agreements := ["m1"] }]).1.1

/-- No second sync makes a request or changes anything. -/
theorem sync_fixed_point_agreedSecond :
    Reached "c" (new "c" .connected) ∧ (new "c" .connected).connection = .connected ∧
      agreedSecond.source.Unmarked ∧
      ((agreedSecond.sync (new "c" .connected)).run [{ agreements := ["m1"] }]).1.2 = .ok () ∧
      afterSync.messageList.map (fun m ↦ (m.uri, m.status.accepted)) =
        [("m1", true), ("m3", false), ("m4", false)] ∧
      ∀ (y' : Sync Unit) (calls : List Call),
        (y'.logged.sync afterSync).run ((), calls) = ((afterSync, .ok ()), ((), calls)) := by
  have hreached : Reached "c" (new "c" .connected) := .new .connected
  have hmarks : agreedSecond.source.Unmarked := Source.unmarked_archive (by decide)
  have hok : ((agreedSecond.sync (new "c" .connected)).run [{ agreements := ["m1"] }]).1.2 =
      .ok () := by cbv
  have hsome : afterSync.isEmpty = false := by cbv
  have hrun : (agreedSecond.sync (new "c" .connected)).run [{ agreements := ["m1"] }] =
      ((afterSync, .ok ()), _) := Prod.ext (Prod.ext rfl hok) rfl
  have hfixed := sync_fixed_point hreached rfl hmarks hrun
  exact ⟨hreached, rfl, hmarks, hok, by cbv,
    fun y' calls ↦ (hfixed.2.2.2.2.2 y' () calls).1 hsome⟩

end Sync

end Parley
