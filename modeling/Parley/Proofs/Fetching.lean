import Parley.Proofs.FetchEvents
import Parley.Proofs.Transcripts

/-!
# What calls that fetch do

Each call of a `Sync` is due or not. One that is not due makes no request. One that is due makes one
request and puts the answer into the conversation. The lemmas here say so for every call, so that no
other module has to look into them: what a run of it is for a given answer, and which outcomes there
are at all (`PageCall`, `AgreementCall`, `PetriNetCall`). A sync is these calls one after the other
(`run_sync`).

The outcomes of the calls of a sync are read off their transcripts. A refresh of the agreements may
look up single messages as well. All that counts later is that the records it takes in were answers
to look-ups (`Found`, `Refreshed`).
-/

namespace Parley

namespace Sync

variable {σ : Type} {y : Sync σ} {c : Conversation} {s s' : σ} {batch : List Message}

/-! ### Pages -/

/-- A conversation that needs no messages is handed back untouched, and its source is not asked. -/
theorem loadLatest_of_not_needed (h : c.needsMessages = false) :
    y.loadLatest c = pure (c, .ok 0) := by
  rw [loadLatest, h]
  rfl

/-- A due initial batch that arrives is finished on the begun conversation; the answer is the number
of records it added. -/
theorem run_loadLatest (h : c.needsMessages = true)
    (hb : (y.source.messages c.uri y.initialCount none).run s = (.ok batch, s')) :
    (y.loadLatest c).run s = ((c.beginMessages.finishMessages batch).map id .ok, s') := by
  have hb' : (y.source.messages c.beginMessages.uri y.initialCount none).run s =
    (.ok batch, s') := hb
  rw [loadLatest, h, if_pos rfl, run_bind, hb']
  rfl

/-- What `loadMore` does with a batch is to finish it and, when nothing in it was new, to mark the
history exhausted. -/
theorem finishMore_eq (c : Conversation) (batch : List Message) :
    finishMore c batch =
      (if (c.finishMessages batch).2 = 0 then (c.finishMessages batch).1.markExhausted
        else (c.finishMessages batch).1, (c.finishMessages batch).2) := rfl

/-- A batch without an unknown event is the last one. -/
theorem finishMore_of_eq_zero {batch : List Message} (h : (c.upsertAll batch).2 = 0) :
    finishMore c batch = ((c.finishMessages batch).1.markExhausted, 0) := by
  have hn : (c.finishMessages batch).2 = 0 := h
  rw [finishMore_eq, if_pos hn, hn]

/-- A batch that brought something new says nothing about where the history ends. -/
theorem finishMore_of_ne_zero {batch : List Message} (h : (c.upsertAll batch).2 ≠ 0) :
    finishMore c batch = c.finishMessages batch := by
  have hn : (c.finishMessages batch).2 ≠ 0 := h
  rw [finishMore_eq, if_neg hn]

theorem loadMore_of_not_possible (h : c.canLoadMore = false) : y.loadMore c = pure (c, .ok 0) := by
  rw [loadMore, h]
  rfl

/-- A batch of older messages is asked for before the oldest date of the stored ones, and what
arrives is finished on the begun conversation. -/
theorem run_loadMore (h : c.canLoadMore = true)
    (hb : (y.source.messages c.uri y.moreCount c.oldestDate).run s = (.ok batch, s')) :
    (y.loadMore c).run s = ((finishMore c.beginMessages batch).map id .ok, s') := by
  have hb' : (y.source.messages c.beginMessages.uri y.moreCount c.oldestDate).run s =
    (.ok batch, s') := hb
  rw [loadMore, h, if_pos rfl, run_bind, hb']
  rfl

/-- The batch was the answer to a request. -/
def Delivered (source : Source σ) (batch : List Message) : Prop :=
  ∃ connection limit before s,
    ((source.messages connection limit before).run s).1 = .ok batch

/-- What can come of a call for a page, with its answer: it may be `due`, and `finish` takes in what
arrives. -/
inductive PageCall (y : Sync σ) (c : Conversation) (due : Bool)
    (finish : Conversation → List Message → Conversation × Nat) : Conversation × Answer Nat → Prop
  | notDue (h : due = false) : PageCall y c due finish (c, .ok 0)
  | failed (h : due = true) (f : Fault) :
      PageCall y c due finish (c.beginMessages.failMessages, .error f)
  | arrived (h : due = true) (batch : List Message) (hbatch : Delivered y.source batch) :
      PageCall y c due finish ((finish c.beginMessages batch).map id .ok)

/-- The account of a first batch, read with what the source gives, is a page call. -/
theorem LatestExchange.pageCall {t : List Exchange} {r : Conversation × Answer Nat}
    (h : LatestExchange y c t r) (ht : ∀ e ∈ t, y.source.Gives e) :
    PageCall y c c.needsMessages Conversation.finishMessages r := by
  cases h with
  | notDue hdue => exact .notDue hdue
  | failed hdue f => exact .failed hdue f
  | arrived hdue batch =>
    obtain ⟨s, hs⟩ := ht _ List.mem_cons_self
    exact .arrived hdue batch ⟨_, _, _, s, hs⟩

/-- However the source behaves, `loadLatest` is a page call that is due while the initial batch
is. -/
theorem pageCall_loadLatest (y : Sync σ) (c : Conversation) (s : σ) :
    PageCall y c c.needsMessages Conversation.finishMessages ((y.loadLatest c).run s).1 := by
  obtain ⟨t, -, hgives, ht⟩ := transcribes_loadLatest id y c s []
  exact ht.pageCall hgives

theorem MoreExchange.pageCall {t : List Exchange} {r : Conversation × Answer Nat}
    (h : MoreExchange y c t r) (ht : ∀ e ∈ t, y.source.Gives e) :
    PageCall y c c.canLoadMore finishMore r := by
  cases h with
  | notDue hdue => exact .notDue hdue
  | failed hdue f => exact .failed hdue f
  | arrived hdue batch =>
    obtain ⟨s, hs⟩ := ht _ List.mem_cons_self
    exact .arrived hdue batch ⟨_, _, _, s, hs⟩

theorem pageCall_loadMore (y : Sync σ) (c : Conversation) (s : σ) :
    PageCall y c c.canLoadMore finishMore ((y.loadMore c).run s).1 := by
  obtain ⟨t, -, hgives, ht⟩ := transcribes_loadMore id y c s []
  exact ht.pageCall hgives

/-! ### Single messages -/

/-- The message was the answer to a look-up. -/
def Found (source : Source σ) (m : Message) : Prop :=
  ∃ need uri s, ((source.message need uri).run s).1 = .ok m

/-- A record received in a round of lookups is one the source found for some URI. -/
theorem Lookups.found_of_mem_received {need : String} {uris : List String} {t : List Exchange}
    {answers : List (Answer Message)} (h : Lookups need uris t answers)
    (ht : ∀ e ∈ t, y.source.Gives e) {m : Message} (hm : m ∈ received answers) :
    Found y.source m := by
  obtain ⟨u, hu⟩ := h.exists_exchange hm
  exact ⟨need, u, ht _ hu⟩

/-! ### Agreements -/

theorem run_refreshAgreement_of_not_needed {force : Bool} (h : c.needsAgreement force = false)
    (s : σ) : (y.refreshAgreement c force).run s = ((c, .ok 0), s) := by
  rw [refreshAgreement, h]
  rfl

/-- A due agreement state that fails to arrive leaves the fault, no record looked up, and the
conversation as `failSnapshot` leaves it. -/
theorem run_refreshAgreement_of_error {force : Bool} {f : Fault}
    (h : c.needsAgreement force = true)
    (hr : (y.source.agreement c.uri).run s = (.error f, s')) :
    (y.refreshAgreement c force).run s = ((c.beginSnapshot.failSnapshot, .error f), s') := by
  have hr' : (y.source.agreement c.beginSnapshot.uri).run s = (.error f, s') := hr
  rw [refreshAgreement, if_pos h, run_bind, hr']
  rfl

/-- The events that the conversation lacks are looked up after the snapshot is there. -/
theorem run_refreshAgreement {force : Bool} {response : Response}
    (h : c.needsAgreement force = true)
    (hr : (y.source.agreement c.uri).run s = (.ok response, s')) :
    (y.refreshAgreement c force).run s =
      let d := c.beginSnapshot.applySnapshot response.snapshot
      let r := (y.fetchEvents (response.snapshot.allUris.toList.filter fun u ↦
        !d.containsEvent u)).run s'
      ((d.upsertAll (received r.1)).map id .ok, r.2) := by
  have hr' : (y.source.agreement c.beginSnapshot.uri).run s = (.ok response, s') := hr
  rw [refreshAgreement, if_pos h, run_bind, hr']
  rfl

/-- What can come of a refresh of the agreements. -/
inductive Refreshed (y : Sync σ) (c : Conversation) : Conversation → Prop
  | notDue : Refreshed y c c
  | failed : Refreshed y c c.beginSnapshot.failSnapshot
  | arrived (snapshot : Snapshot) (l : List Message) (hl : ∀ m ∈ l, Found y.source m) :
      Refreshed y c ((c.beginSnapshot.applySnapshot snapshot).upsertAll l).1

/-- What can come of a call for the agreements, with its answer. -/
inductive AgreementCall (y : Sync σ) (c : Conversation) (force : Bool) :
    Conversation × Answer Nat → Prop
  | notDue (h : c.needsAgreement force = false) : AgreementCall y c force (c, .ok 0)
  | failed (h : c.needsAgreement force = true) (f : Fault) :
      AgreementCall y c force (c.beginSnapshot.failSnapshot, .error f)
  | arrived (h : c.needsAgreement force = true) (snapshot : Snapshot) (l : List Message)
      (hl : ∀ m ∈ l, Found y.source m) :
      AgreementCall y c force
        (((c.beginSnapshot.applySnapshot snapshot).upsertAll l).map id .ok)

/-- The account of an agreement refresh, read with what the source gives, is an agreement call. -/
theorem AgreementExchange.agreementCall {force : Bool} {t : List Exchange}
    {r : Conversation × Answer Nat} (h : AgreementExchange y c force t r)
    (ht : ∀ e ∈ t, y.source.Gives e) : AgreementCall y c force r := by
  cases h with
  | notDue hdue => exact .notDue hdue
  | failed hdue f => exact .failed hdue f
  | arrived hdue response hd hlook =>
    subst hd
    exact .arrived hdue response.snapshot _ fun m hm ↦
      hlook.found_of_mem_received (fun e he ↦ ht e (List.mem_cons_of_mem _ he)) hm

/-- However the source behaves, `refreshAgreement` is an agreement call. -/
theorem agreementCall_refreshAgreement (y : Sync σ) (c : Conversation) (force : Bool) (s : σ) :
    AgreementCall y c force ((y.refreshAgreement c force).run s).1 := by
  obtain ⟨t, -, hgives, ht⟩ := transcribes_refreshAgreement id y c force s []
  exact ht.agreementCall hgives

/-- What a refresh leaves is the conversation it found, with at most a snapshot applied and found
records merged in. -/
theorem refreshed_refreshAgreement (y : Sync σ) (c : Conversation) (force : Bool) (s : σ) :
    Refreshed y c ((y.refreshAgreement c force).run s).1.1 := by
  have hcall := agreementCall_refreshAgreement y c force s
  generalize ((y.refreshAgreement c force).run s).1 = r at hcall ⊢
  cases hcall with
  | notDue => exact .notDue
  | failed => exact .failed
  | arrived h snapshot l hl => exact .arrived snapshot l hl

/-! ### Processes -/

theorem run_refreshPetriNet_of_not_needed {force : Bool} (h : c.needsPetriNet force = false)
    (s : σ) : (y.refreshPetriNet c force).run s = ((c, .ok 0), s) := by
  rw [refreshPetriNet, h]
  rfl

/-- What can come of a call for the processes, with its answer. -/
inductive PetriNetCall (c : Conversation) (force : Bool) : Conversation × Answer Nat → Prop
  | notDue (h : c.needsPetriNet force = false) : PetriNetCall c force (c, .ok 0)
  | failed (h : c.needsPetriNet force = true) (f : Fault) :
      PetriNetCall c force (c.beginPetriNet.failPetriNet, .error f)
  | arrived (h : c.needsPetriNet force = true) (net : PetriNet) :
      PetriNetCall c force (c.beginPetriNet.applyPetriNet net, .ok net.size)

/-- The account of a Petri-net refresh is a Petri-net call: this data is kept as it comes, so what
the source gives does not matter. -/
theorem PetriNetExchange.petriNetCall {force : Bool} {t : List Exchange}
    {r : Conversation × Answer Nat} (h : PetriNetExchange c force t r) :
    PetriNetCall c force r := by
  cases h with
  | notDue hdue => exact .notDue hdue
  | failed hdue f => exact .failed hdue f
  | arrived hdue processes => exact .arrived hdue (.ofProcesses processes)

theorem petriNetCall_refreshPetriNet (y : Sync σ) (c : Conversation) (force : Bool) (s : σ) :
    PetriNetCall c force ((y.refreshPetriNet c force).run s).1 := by
  obtain ⟨t, -, -, ht⟩ := transcribes_refreshPetriNet id y c force s []
  exact ht.petriNetCall

/-! ### What a call leaves alone -/

variable {r : Conversation × Answer Nat}

/-- A page of messages leaves the connection and both kinds of fetched data alone. -/
theorem PageCall.fetched_eq {due : Bool}
    (hr : y.PageCall c due Conversation.finishMessages r) :
    r.1.connection = c.connection ∧ r.1.agreement = c.agreement ∧ r.1.petriNet = c.petriNet := by
  cases hr with
  | notDue => exact ⟨rfl, rfl, rfl⟩
  | failed => exact ⟨rfl, rfl, rfl⟩
  | arrived _ batch => exact c.beginMessages.fetched_perform (.finishMessages batch)

theorem AgreementCall.others_eq {force : Bool} (hr : y.AgreementCall c force r) :
    r.1.connection = c.connection ∧ r.1.petriNet = c.petriNet := by
  cases hr with
  | notDue => exact ⟨rfl, rfl⟩
  | failed => exact ⟨rfl, rfl⟩
  | arrived _ snapshot l =>
    obtain ⟨hconn, -, hprocesses⟩ :=
      (c.beginSnapshot.applySnapshot snapshot).fetched_perform (.upsertAll l)
    exact ⟨hconn, hprocesses⟩

theorem PetriNetCall.others_eq {force : Bool} (hr : PetriNetCall c force r) :
    r.1.connection = c.connection ∧ r.1.agreement = c.agreement := by
  cases hr <;> exact ⟨rfl, rfl⟩

/-! ### All steps -/

/-- No fault is reported just when all three steps answered. -/
theorem firstFault_eq_ok_iff {α : Type} {a b c : Answer α} :
    firstFault a b c = .ok () ↔ (∃ x, a = .ok x) ∧ (∃ x, b = .ok x) ∧ ∃ x, c = .ok x := by
  cases a <;> cases b <;> cases c <;> simp [firstFault, bind, Except.bind, pure, Except.pure]

/-- Reconciling changes nothing but messages. -/
theorem exists_reconcile_eq (c : Conversation) : ∃ ms, (reconcile c).1 = c.withMessages ms := by
  unfold reconcile
  split
  · exact Conversation.exists_applyPatches_eq _ c
  · exact ⟨c.messages, rfl⟩

/-- **A sync** makes the three calls one after the other and reconciles what they lead to. -/
theorem run_sync (y : Sync σ) (c : Conversation) (s : σ) :
    (y.sync c).run s =
      let r₁ := (y.loadLatest c).run s
      let r₂ := (y.refreshAgreement r₁.1.1 false).run r₁.2
      let r₃ := (y.refreshPetriNet r₂.1.1 false).run r₂.2
      (((reconcile r₃.1.1).1, firstFault r₁.1.2 r₂.1.2 r₃.1.2), r₃.2) := rfl

/-- **A synchronization is three calls in a row**, each on what the one before left, then the
reconciliation; the answer is the first fault among the three. -/
theorem exists_calls_of_sync (y : Sync σ) (c : Conversation) (s : σ) :
    ∃ r₁ r₂ r₃ : Conversation × Answer Nat,
      y.PageCall c c.needsMessages Conversation.finishMessages r₁ ∧
        y.AgreementCall r₁.1 false r₂ ∧ PetriNetCall r₂.1 false r₃ ∧
        ((y.sync c).run s).1 = ((reconcile r₃.1).1, firstFault r₁.2 r₂.2 r₃.2) :=
  ⟨_, _, _, y.pageCall_loadLatest c s, y.agreementCall_refreshAgreement _ false _,
    y.petriNetCall_refreshPetriNet _ false _, rfl⟩

/-! ### Calls one after the other -/

theorem run_loads_nil (y : Sync σ) (c : Conversation) (s : σ) :
    (y.loads c []).run s = ((c, []), s) := rfl

theorem run_loads_cons (y : Sync σ) (c : Conversation) (l : Load) (rest : List Load) (s : σ) :
    (y.loads c (l :: rest)).run s =
      let r := (y.load c l).run s
      let r' := (y.loads r.1.1 rest).run r.2
      ((r'.1.1, r.1.2 :: r'.1.2), r'.2) := by
  rw [loads]
  rfl

/-- A list of loads that is run in two parts makes the same calls and gives the same answers. -/
theorem run_loads_append (y : Sync σ) (l l' : List Load) :
    ∀ (c : Conversation) (s : σ), (y.loads c (l ++ l')).run s =
      let r := (y.loads c l).run s
      let r' := (y.loads r.1.1 l').run r.2
      ((r'.1.1, r.1.2 ++ r'.1.2), r'.2) := by
  induction l with
  | nil => exact fun _ _ ↦ rfl
  | cons a l ih =>
    intro c s
    simp only [List.cons_append, run_loads_cons, ih]

end Sync

end Parley
