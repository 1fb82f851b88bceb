import Mathlib
import Parley.Proofs.IndependentSteps
import Parley.Source.Script

/-!
# A first batch that fails

The newest messages are due while there are no messages and nobody is fetching any. A sync whose
fetch of them fails still takes its other steps, and should leave the newest messages due, so that
the next call asks for them again.

**The exact condition.** Of the other steps only the refresh of the agreements brings in messages:
it looks up the events that the new snapshot mentions. As soon as it finds one of the connection,
there are messages, and the newest ones are not due any more (`Sync.needsMessages_sync_iff`).
-/

namespace Parley

namespace Conversation

variable {c d : Conversation}

/-! ### No messages -/

/-- Conversations with messages under the same keys are both empty, or neither is. -/
theorem SameNames.isEmpty_eq (h : SameNames c d) : d.isEmpty = c.isEmpty := by
  refine Bool.eq_iff_iff.mpr ?_
  rw [isEmpty_iff, isEmpty_iff]
  refine forall_congr' fun k ↦ ⟨fun hk ↦ ?_, h.message?_eq_none⟩
  have hnames := h.names_eq k
  rw [hk, Option.map_none] at hnames
  exact Option.map_eq_none_iff.mp hnames.symm

theorem isEmpty_put (c : Conversation) (m : Message) : (c.put m).isEmpty ≠ true := by
  intro hempty
  exact nomatch (isEmpty_iff.mp hempty m.uri).symm.trans (c.message?_put_self m)

/-- A record of the connection leaves some message, whatever becomes of it. -/
theorem Keyed.isEmpty_upsert_iff (h : c.Keyed) (m : Message) :
    (c.upsert m).1.isEmpty = true ↔ c.isEmpty = true ∧ m.connectionUri ≠ c.uri := by
  have hi := intake_upsert h m
  generalize c.upsert m = r at hi ⊢
  cases hi with
  | foreign hc => exact (and_iff_left hc).symm
  | refreshed old hc => exact iff_of_false (c.isEmpty_put _) fun hne ↦ hne.2 hc
  | absorbed known hc => exact iff_of_false (c.isEmpty_put _) fun hne ↦ hne.2 hc
  | added hc => exact iff_of_false (c.isEmpty_put m) fun hne ↦ hne.2 hc

/-- **Records that leave no message** are those of other connections. -/
theorem Keyed.isEmpty_upsertAll_iff {l : List Message} :
    ∀ {c : Conversation}, c.Keyed →
      ((c.upsertAll l).1.isEmpty = true ↔
        c.isEmpty = true ∧ ∀ m ∈ l, m.connectionUri ≠ c.uri) := by
  induction l with
  | nil => exact fun _ ↦ (and_iff_left fun _ hm ↦ nomatch hm).symm
  | cons m l ih =>
    intro c h
    obtain ⟨ms, hms⟩ := exists_upsert_eq c m
    have huri : (c.upsert m).1.uri = c.uri := by rw [hms, uri_withMessages]
    rw [fst_upsertAll_cons, ih (h.upsert m), h.isEmpty_upsert_iff, huri, List.forall_mem_cons,
      and_assoc]

/-- Nothing is stored in an empty conversation, so nothing is stored wrongly. -/
theorem keyed_of_isEmpty (h : c.isEmpty = true) : c.Keyed where
  uri_eq hm := nomatch (isEmpty_iff.mp h _).symm.trans hm
  connectionUri_eq hm := nomatch (isEmpty_iff.mp h _).symm.trans hm

theorem containsEvent_of_isEmpty (h : c.isEmpty = true) (u : String) :
    c.containsEvent u = false := by
  have hnil : c.messageList = [] := by
    rw [← List.isEmpty_iff, isEmpty_messageList, h]
  have hcont : c.messages.contains u = false := by
    rw [OrderedMap.contains, show c.messages.get? u = none from isEmpty_iff.mp h u]
    rfl
  rw [containsEvent, hcont, hnil]
  rfl

/-! ### Newest messages that are due -/

/-- The initial batch is due unless the connection is closed, a page is on its way, or a message is
there. -/
theorem needsMessages_iff :
    c.needsMessages = true ↔ c.connection ≠ .closed ∧ c.isLoading = false ∧ c.isEmpty = true := by
  simp [needsMessages, and_assoc]

/-- A snapshot brings no message, so it changes nothing about the initial batch. -/
theorem needsMessages_applySnapshot (c : Conversation) (t : Snapshot) :
    (c.beginSnapshot.applySnapshot t).needsMessages = c.needsMessages := by
  have hempty : (c.beginSnapshot.applySnapshot t).isEmpty = c.isEmpty :=
    (sameNames_applySnapshot c.beginSnapshot t).isEmpty_eq
  rw [needsMessages, hempty]
  rfl

/-- The newest messages stay due just if all records that are taken in are of other connections. -/
theorem needsMessages_upsertAll_iff (h : c.needsMessages = true) (l : List Message) :
    (c.upsertAll l).1.needsMessages = true ↔ ∀ m ∈ l, m.connectionUri ≠ c.uri := by
  obtain ⟨hconn, hidle, hempty⟩ := needsMessages_iff.mp h
  have hkeyed := (keyed_of_isEmpty hempty).isEmpty_upsertAll_iff (l := l)
  obtain ⟨ms, hms⟩ := exists_upsertAll_eq l c
  rw [needsMessages_iff]
  rw [hms] at hkeyed ⊢
  refine ⟨fun ⟨_, _, hnone⟩ ↦ (hkeyed.mp hnone).2, fun hall ↦ ⟨hconn, hidle, ?_⟩⟩
  exact hkeyed.mpr ⟨hempty, hall⟩

/-- An initial batch that failed is due again. -/
theorem needsMessages_failMessages (h : c.needsMessages = true) :
    c.beginMessages.failMessages.needsMessages = true := by
  obtain ⟨hconn, -, hempty⟩ := needsMessages_iff.mp h
  refine needsMessages_iff.mpr ⟨hconn, ?_, hempty⟩
  rw [isLoading, failMessages]
  cases c.beginMessages.isEmpty <;> rfl

end Conversation

namespace Sync

open Conversation

variable {σ : Type} {y : Sync σ} {c : Conversation} {s s' : σ}

/-! ### The steps of a sync -/

/-- A call for the Petri net changes nothing about the initial batch. -/
theorem PetriNetCall.needsMessages_eq {force : Bool} {r : Conversation × Answer Nat}
    (hr : PetriNetCall c force r) : r.1.needsMessages = c.needsMessages := by
  cases hr <;> rfl

theorem needsMessages_reconcile (c : Conversation) :
    (reconcile c).1.needsMessages = c.needsMessages := by
  unfold reconcile
  split
  · have hempty : c.reconcile.1.isEmpty = c.isEmpty := (sameNames_reconcile c).isEmpty_eq
    obtain ⟨ms, hms⟩ := exists_applyPatches_eq (Patch.forMessages c.messageList c.agreement.data) c
    rw [Conversation.reconcile] at hempty ⊢
    rw [hms] at hempty ⊢
    rw [needsMessages, hempty]
    rfl
  · rfl

/-- A refresh of the agreements is due, and if it finds the source in the state `s`, then among the
events that the snapshot mentions it finds a message of the connection. -/
def RefreshFinds (y : Sync σ) (c : Conversation) (s : σ) : Prop :=
  c.needsAgreement false = true ∧ ∃ response s',
    (y.source.agreement c.uri).run s = (.ok response, s') ∧
      ∃ m ∈ received ((y.fetchEvents response.snapshot.allUris.toList).run s').1,
        m.connectionUri = c.uri

/-- Without messages, a refresh looks up every event that the snapshot mentions. -/
theorem run_refreshAgreement_of_isEmpty (hdue : c.needsAgreement false = true)
    (hempty : c.isEmpty = true) {response : Response}
    (hrun : (y.source.agreement c.uri).run s = (.ok response, s')) :
    ((y.refreshAgreement c false).run s).1.1 =
      ((c.beginSnapshot.applySnapshot response.snapshot).upsertAll
        (received ((y.fetchEvents response.snapshot.allUris.toList).run s').1)).1 := by
  have hnone : (c.beginSnapshot.applySnapshot response.snapshot).isEmpty = true :=
    (sameNames_applySnapshot c.beginSnapshot response.snapshot).isEmpty_eq.trans hempty
  have hmissing : (response.snapshot.allUris.toList.filter fun u ↦
      !(c.beginSnapshot.applySnapshot response.snapshot).containsEvent u) =
        response.snapshot.allUris.toList :=
    List.filter_eq_self.mpr fun u _ ↦ by rw [containsEvent_of_isEmpty hnone, Bool.not_false]
  rw [run_refreshAgreement hdue hrun]
  dsimp only
  rw [hmissing]
  rfl

/-- **The refresh** leaves the newest messages due unless it finds one. -/
theorem needsMessages_refreshAgreement_iff (h : c.needsMessages = true) (s : σ) :
    ((y.refreshAgreement c false).run s).1.1.needsMessages = true ↔ ¬y.RefreshFinds c s := by
  cases hdue : c.needsAgreement false with
  | false =>
    rw [run_refreshAgreement_of_not_needed hdue]
    exact iff_of_true h fun hfinds ↦ Bool.false_ne_true (hdue.symm.trans hfinds.1)
  | true =>
    rcases hrun : (y.source.agreement c.uri).run s with ⟨a, s'⟩
    cases a with
    | error f =>
      rw [run_refreshAgreement_of_error hdue hrun]
      refine iff_of_true h ?_
      rintro ⟨-, response, s₂, hok, -⟩
      exact nomatch hrun.symm.trans hok
    | ok response =>
      have hempty : c.isEmpty = true := (needsMessages_iff.mp h).2.2
      have hsnapshot : (c.beginSnapshot.applySnapshot response.snapshot).needsMessages = true :=
        (needsMessages_applySnapshot c response.snapshot).trans h
      rw [run_refreshAgreement_of_isEmpty hdue hempty hrun, needsMessages_upsertAll_iff hsnapshot]
      constructor
      · rintro hall ⟨-, response', s₂, hok, m, hm, hc⟩
        have hpair := hrun.symm.trans hok
        obtain rfl : response = response' := Except.ok.inj (congrArg Prod.fst hpair)
        obtain rfl : s' = s₂ := congrArg Prod.snd hpair
        exact hall m hm hc
      · exact fun hnot m hm hc ↦ hnot ⟨hdue, response, s', hrun, m, hm, hc⟩

/-! ### After the sync -/

/-- A first batch fails only if it was due, and leaves what `failMessages` leaves. -/
theorem of_failed_loadLatest {c₁ : Conversation} {f : Fault} {s₁ : σ}
    (hfail : (y.loadLatest c).run s = ((c₁, .error f), s₁)) :
    c.needsMessages = true ∧ c₁ = c.beginMessages.failMessages := by
  have hcall := y.pageCall_loadLatest c s
  rw [hfail] at hcall
  generalize hr : (c₁, (.error f : Answer Nat)) = r at hcall
  cases hcall with
  | notDue => exact nomatch congrArg Prod.snd hr
  | failed hdue => exact ⟨hdue, congrArg Prod.fst hr⟩
  | arrived => exact nomatch congrArg Prod.snd hr

theorem uri_sync (y : Sync σ) (c : Conversation) (s : σ) :
    ((y.sync c).run s).1.1.uri = c.uri := by
  obtain ⟨t, -, -, t₁, r₁, t₂, r₂, t₃, r₃, h₁, h₂, h₃, -, hr⟩ := transcribes_sync id y c s []
  rw [hr]
  exact (advances_of_exchanges h₁ h₂ h₃).uri

/-- **Due again, exactly.** The fetch of the newest messages fails in a sync. Once the sync is over
they are due, unless the refresh of the agreements has found a message of the connection. If they
are due, the next call for them asks for them, whatever the source, and so does the next sync,
before it asks for anything else. -/
theorem needsMessages_sync_iff {c₁ d : Conversation} {f : Fault} {s₁ : σ}
    (hfail : (y.loadLatest c).run s = ((c₁, .error f), s₁)) (hd : ((y.sync c).run s).1.1 = d) :
    (d.needsMessages = true ↔ ¬y.RefreshFinds c s₁) ∧
      (d.needsMessages = true → ∀ {τ : Type} (y' : Sync τ) (t : τ) (calls : List Call),
        ((y'.logged.loadLatest d).run (t, calls)).2.2 =
            calls ++ [.messages c.uri y'.initialCount none] ∧
          ∃ rest, ((y'.logged.sync d).run (t, calls)).2.2 =
            calls ++ .messages c.uri y'.initialCount none :: rest) := by
  subst hd
  obtain ⟨hdue, rfl⟩ := of_failed_loadLatest hfail
  have hdue₁ : c.beginMessages.failMessages.needsMessages = true := needsMessages_failMessages hdue
  have hsync : ((y.sync c).run s).1.1.needsMessages =
      ((y.refreshAgreement c.beginMessages.failMessages false).run s₁).1.1.needsMessages := by
    rw [run_sync, hfail, needsMessages_reconcile]
    exact (y.petriNetCall_refreshPetriNet _ false _).needsMessages_eq
  constructor
  · -- whether fetching has failed or not does not count for the refresh
    rw [hsync, needsMessages_refreshAgreement_iff hdue₁]
    rfl
  · intro hnext _ y' t calls
    rw [← uri_sync y c s]
    exact ⟨log_loadLatest hnext t calls, exists_log_sync hnext t calls⟩

/-- Asks a server that answers from a script. -/
def scripted : Sync Script := ⟨Script.source, "n", 15, 5⟩

/-- The server fails to deliver the newest messages. Then it tells of an agreement about `m1`, and
delivers it if it is among the records. -/
def failingBatch (records : List (String × Answer Message)) : Script where
  records := .ofList records
  batches := [.error ⟨.fetch, "503"⟩]
  responses := [.ok { agreements := ["m1"] }]

/-- The server does not find `m1`, and the next call asks for the newest messages again. -/
theorem needsMessages_sync_iff_failingBatch :
    ((scripted.loadLatest (new "c" .connected)).run (failingBatch [])).1.2 =
        .error ⟨.fetch, "503"⟩ ∧
      ((scripted.logged.loadLatest
        ((scripted.sync (new "c" .connected)).run (failingBatch [])).1.1).run
          (failingBatch [], [])).2.2 = [.messages "c" 15 none] := by
  have hfail : (scripted.loadLatest (new "c" .connected)).run (failingBatch []) =
      (((new "c" .connected).beginMessages.failMessages, .error ⟨.fetch, "503"⟩), _) := rfl
  have hdue : ((scripted.sync (new "c" .connected)).run (failingBatch [])).1.1.needsMessages =
      true := by cbv
  exact ⟨congrArg (·.1.2) hfail,
    ((needsMessages_sync_iff hfail rfl).2 hdue scripted (failingBatch []) []).1⟩

/-- The server finds `m1`, and the newest messages are not due any more. -/
theorem not_needsMessages_failingBatch :
    (new "c" .connected).connection ≠ .closed ∧ (new "c" .connected).isLoading = false ∧
      ((scripted.loadLatest (new "c" .connected)).run
        (failingBatch [("m1", .ok { uri := "m1", connectionUri := "c" })])).1.2 =
          .error ⟨.fetch, "503"⟩ ∧
      ((scripted.sync (new "c" .connected)).run
        (failingBatch [("m1", .ok { uri := "m1", connectionUri := "c" })])).1.1.needsMessages =
          false :=
  ⟨by decide, rfl, rfl, by cbv⟩

end Sync

end Parley
