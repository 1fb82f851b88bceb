import Parley.Bundle
import Parley.Proofs.Runs

/-!
# The conversation from a bundle

Unpacking a bundle is a run on a new conversation (`unpack_eq_run`): its messages arrive in one
batch, then the snapshot. As this is the first snapshot, it drops no marker.

**Markers from outside.** A record may say of itself that it is up to date, and a message that is
added with such a record keeps the marker. Reconciling then leaves the message out, although nobody
has looked at the snapshot for it. This is the only way in which a visible message of a bundle can
be short of a flag after reconciling, and `MarkersFrom` follows the marker back to the record.
-/

namespace Parley

namespace Conversation

/-! ### Where markers come from -/

/-- Some record of `l` is marked and agrees with `m` in URIs and status. -/
def MarkedBy (l : List Message) (m : Message) : Prop :=
  ∃ n ∈ l, n.upToDate = true ∧ n.uri = m.uri ∧ n.remoteUri = m.remoteUri ∧ n.status = m.status

/-- The conversation is keyed, and every marker came with a record of `l`. -/
structure MarkersFrom (l : List Message) (c : Conversation) : Prop extends Keyed c where
  marked : ∀ {k m}, c.message? k = some m → m.upToDate = true → MarkedBy l m

theorem markersFrom_new (l : List Message) (uri : String) (s : Connection) :
    MarkersFrom l (new uri s) := ⟨keyed_new uri s, fun h ↦ nomatch h⟩

/-- Where messages came from is not changed by what leaves them alone. -/
theorem MarkersFrom.of_sameCore {l : List Message} {c d : Conversation} (h : MarkersFrom l c)
    (hs : SameCore c d) : MarkersFrom l d where
  toKeyed := hs.sameNames.keyed h.toKeyed
  marked hm := by
    rw [hs.message?_eq] at hm
    exact h.marked hm

/-- A record of `l` that is taken in leaves only markers that came with records of `l`. -/
theorem MarkersFrom.upsert {l : List Message} {c : Conversation} (h : MarkersFrom l c)
    {m : Message} (hm : m ∈ l) : MarkersFrom l (c.upsert m).1 where
  toKeyed := h.toKeyed.upsert m
  marked := by
    refine h.toKeyed.forall_marked_upsert ?_ h.marked fun hmark ↦ ⟨m, hm, hmark, rfl, rfl, rfl⟩
    rintro old n hu hr hs ⟨p, hp, hpmark, hpu, hpr, hps⟩
    exact ⟨p, hp, hpmark, hpu.trans hu.symm, hpr.trans hr.symm, hps.trans hs.symm⟩

end Conversation

namespace Bundle

open Conversation

/-! ### Unpacking -/

/-- What is sorted out as messages are the values that decode as one. -/
theorem fst_sortOut (l : List Json) :
    (sortOut l).1 = l.filterMap fun j ↦ (Message.ofJson j).toOption := by
  induction l with
  | nil => rfl
  | cons j rest ih =>
    rw [List.filterMap_cons, ← ih, sortOut]
    cases Message.ofJson j <;> rfl

/-- Every message that is sorted out was decoded from a value of the list. -/
theorem exists_ofJson_of_mem_sortOut {m : Message} {l : List Json} (h : m ∈ (sortOut l).1) :
    ∃ j ∈ l, Message.ofJson j = .ok m := by
  rw [fst_sortOut, List.mem_filterMap] at h
  obtain ⟨j, hj, hm⟩ := h
  refine ⟨j, hj, ?_⟩
  cases hr : Message.ofJson j with
  | error e => simp [hr, Except.toOption] at hm
  | ok n => simpa [hr, Except.toOption] using hm

/-- How the messages of a bundle are taken in. -/
def intake (b : Bundle) : List Action :=
  [.setRemoteNeed b.remoteNeed, .beginMessages, .finishMessages (sortOut b.messages).1]

/-- What follows the messages of a bundle. -/
def sequel (b : Bundle) : List Action :=
  (b.agreement.map fun r ↦ Action.applySnapshot r.snapshot).toList ++
    if b.processes.isEmpty then [] else [.applyPetriNet (.ofProcesses b.processes)]

/-- Unpacking a bundle is a run: its messages first, and then what there is of the fetched data. So
the results about runs are results about bundles. -/
theorem unpack_eq_run (b : Bundle) :
    b.unpack.conversation =
      ((Conversation.new b.connectionUri b.connection).run b.intake).run b.sequel := by
  unfold unpack sequel
  cases b.agreement <;> cases b.processes.isEmpty <;> rfl

theorem keyed_unpack (b : Bundle) : b.unpack.conversation.Keyed := by
  rw [unpack_eq_run, ← run_append]
  exact keyed_run _ _ _

/-- After the messages of a bundle, every marker came with one of them. -/
theorem markersFrom_intake (b : Bundle) :
    MarkersFrom (sortOut b.messages).1
      ((Conversation.new b.connectionUri b.connection).run b.intake) := by
  have hfresh : MarkersFrom (sortOut b.messages).1
      (Conversation.new b.connectionUri b.connection) := markersFrom_new _ _ _
  have hready : MarkersFrom (sortOut b.messages).1
      { Conversation.new b.connectionUri b.connection with
        remoteNeed := b.remoteNeed, loading := .loading } := hfresh.of_sameCore ⟨rfl, rfl, rfl⟩
  -- the batch is taken in after two actions that change no message, and before one
  have hall := upsertAll_preserves (P := MarkersFrom _) (fun m hm h ↦ h.upsert hm) hready
  exact hall.of_sameCore ⟨rfl, rfl, rfl⟩

/-- A first snapshot changes no message, and neither do processes. -/
theorem messages_run_sequel (b : Bundle) {c : Conversation} (h : c.agreement.data = none) :
    (c.run b.sequel).messages = c.messages := by
  have hsnapshot : ∀ s, (c.applySnapshot s).messages = c.messages := by
    intro s
    rw [applySnapshot_of_none h]
  unfold sequel
  cases b.agreement with
  | none => cases b.processes.isEmpty <;> rfl
  | some r => cases b.processes.isEmpty <;> exact hsnapshot r.snapshot

/-- What follows the messages changes none of them: a first snapshot clears no marker. -/
theorem messages_unpack (b : Bundle) :
    b.unpack.conversation.messages =
      ((Conversation.new b.connectionUri b.connection).run b.intake).messages := by
  have hdata : ((Conversation.new b.connectionUri b.connection).run b.intake).agreement.data =
      none := by
    obtain ⟨ms, hms⟩ := exists_upsertAll_eq (sortOut b.messages).1
      { Conversation.new b.connectionUri b.connection with
        remoteNeed := b.remoteNeed, loading := .loading }
    exact congrArg (·.agreement.data) hms
  rw [unpack_eq_run, b.messages_run_sequel hdata]

theorem data_unpack {b : Bundle} {r : Response} (hr : b.agreement = some r) :
    b.unpack.conversation.agreement.data = some r.snapshot := by
  unfold unpack
  rw [hr]
  cases b.processes.isEmpty <;> rfl

/-- **What reconciling leaves undone.** After unpacking and reconciling no visible message is left
to reconcile. Each of them has every flag that the snapshot raises for it just if those that were
unpacked with a marker had them already; and a marker comes with a record of the bundle that says so
of itself. -/
theorem reconciled_unpack_iff (b : Bundle) {r : Response} (hr : b.agreement = some r) :
    b.unpack.conversation.reconcile.1.unreconciled = [] ∧
      ((∀ m ∈ b.unpack.conversation.reconcile.1.messageList, m.isVisible = true →
          m.reconciled b.unpack.conversation.reconcile.1.agreement.data = m.status) ↔
        ∀ m ∈ b.unpack.conversation.messageList, m.isVisible = true → m.upToDate = true →
          ∀ f, r.snapshot.holds f.category m.uri m.remoteUri = true → m.status.get f = true) ∧
      ∀ m ∈ b.unpack.conversation.messageList, m.upToDate = true →
        ∃ j ∈ b.messages, ∃ n, Message.ofJson j = .ok n ∧ n.upToDate = true ∧
          n.uri = m.uri ∧ n.remoteUri = m.remoteUri ∧ n.status = m.status := by
  have hk : b.unpack.conversation.Keyed := b.keyed_unpack
  have hs := data_unpack hr
  refine ⟨hk.unreconciled_reconcile hs, ?_, fun m hm hmark ↦ ?_⟩
  · rw [agreement_reconcile, hs, hk.reconciled_reconcile_iff hs]
    simp only [Message.reconciled_eq_status_iff]
  · have hstored := hk.message?_uri hm
    rw [message?, messages_unpack] at hstored
    obtain ⟨n, hn, hnmark, hnames⟩ := b.markersFrom_intake.marked hstored hmark
    obtain ⟨j, hj, hjn⟩ := exists_ofJson_of_mem_sortOut hn
    exact ⟨j, hj, n, hjn, hnmark, hnames⟩

/-- A bundle in which a record says that it is up to date, although the agreement data has a flag
for it. -/
def staleBundle : Bundle :=
  { new "c" "n" .connected with
    messages := [.object [("connectionUri", .string "c"), ("isMessageStatusUpToDate", .bool true),
      ("uri", .string "m1")]]
    agreement := some { agreements := ["m1"] } }

/-- The bundle has agreement data, and a message that its marker hides from it. -/
theorem reconciled_unpack_iff_staleBundle :
    staleBundle.agreement = some { agreements := ["m1"] } ∧
      staleBundle.unpack.conversation.reconcile.1.unreconciled = [] :=
  ⟨rfl, (reconciled_unpack_iff staleBundle rfl).1⟩

/-- The record is skipped because of its marker, and so its flag is never raised. -/
theorem not_reconciled_staleBundle :
    ¬∀ m ∈ staleBundle.unpack.conversation.reconcile.1.messageList, m.isVisible = true →
      m.reconciled staleBundle.unpack.conversation.reconcile.1.agreement.data = m.status := by
  intro h
  have hs : staleBundle.unpack.conversation.agreement.data =
      some ({ agreements := ["m1"] } : Response).snapshot := rfl
  have hm : staleBundle.unpack.conversation.message? "m1" =
      some { uri := "m1", connectionUri := "c", upToDate := true } := rfl
  rw [agreement_reconcile, hs, staleBundle.keyed_unpack.reconciled_reconcile_iff hs] at h
  have hstatus := h _ (mem_messageList.mpr ⟨"m1", hm⟩) rfl rfl
  exact absurd hstatus (by decide)

end Bundle

end Parley
