import Parley.Proofs.AtRest
import Parley.Source.Script

/-!
# Steps that fail on their own

A `Sync` takes three steps, and each may fail. Which steps are due is settled before the first is
taken (`Sync.dueCalls`), and what becomes of the data can be read off the transcript: it is the last
that came, or else what was there before (`Conversation.Advances`). A step that fails takes no part
in that, and neither do the look-ups of single events.

The relation is kept by each step and by reconciling, and two of its steps make one, so it holds of
a whole sync.
-/

namespace Parley

/-! ### What an exchange brings -/

namespace Exchange

/-- The request of a step; a look-up of a single event is no step. -/
def stepCall? : Exchange → Option Call
  | .message _ _ _ => none
  | e => some e.call

/-- The fault that a step has met with. -/
def stepFault? : Exchange → Option Fault
  | .messages _ _ _ (.error f) => some f
  | .agreement _ (.error f) => some f
  | .processes _ (.error f) => some f
  | _ => none

/-- The snapshot that came. -/
def snapshot? : Exchange → Option Snapshot
  | .agreement _ (.ok response) => some response.snapshot
  | _ => none

/-- The processes that came. -/
def petriNet? : Exchange → Option PetriNet
  | .processes _ (.ok l) => some (.ofProcesses l)
  | _ => none

/-- A step succeeded that may bring messages. -/
def bringsMessages : Exchange → Bool
  | .messages _ _ _ (.ok _) => true
  | .agreement _ (.ok _) => true
  | _ => false

end Exchange

/-- What a message is apart from its status. -/
def Message.plain (m : Message) : Message := { m with status := .none, upToDate := false }

namespace Conversation

variable {c d e : Conversation} {t t' : List Exchange}

/-- No fetch is in flight. -/
structure Idle (c : Conversation) : Prop where
  messages : c.isLoading = false
  agreement : c.agreement.progress ≠ .loading
  petriNet : c.petriNet.progress ≠ .loading

/-- After the exchanges `t` the conversation `c` has become `d`. -/
structure Advances (c : Conversation) (t : List Exchange) (d : Conversation) : Prop where
  uri : d.uri = c.uri
  connection : d.connection = c.connection
  remoteNeed : d.remoteNeed = c.remoteNeed
  exhausted : d.exhausted = c.exhausted
  snapshot : d.agreement.data = (t.filterMap Exchange.snapshot?).getLast?.or c.agreement.data
  petriNet : d.petriNet.data = (t.filterMap Exchange.petriNet?).getLast?.or c.petriNet.data
  /-- Messages change in nothing but their status unless some come. -/
  messages : (∀ e ∈ t, e.bringsMessages = false) →
    ∀ k, (d.message? k).map Message.plain = (c.message? k).map Message.plain
  idle : c.Idle → d.Idle

namespace Advances

theorem refl (c : Conversation) : Advances c [] c :=
  ⟨rfl, rfl, rfl, rfl, rfl, rfl, fun _ _ ↦ rfl, id⟩

theorem trans (h : Advances c t d) (h' : Advances d t' e) : Advances c (t ++ t') e where
  uri := h'.uri.trans h.uri
  connection := h'.connection.trans h.connection
  remoteNeed := h'.remoteNeed.trans h.remoteNeed
  exhausted := h'.exhausted.trans h.exhausted
  snapshot := by
    rw [h'.snapshot, h.snapshot, List.filterMap_append, List.getLast?_append, Option.or_assoc]
  petriNet := by
    rw [h'.petriNet, h.petriNet, List.filterMap_append, List.getLast?_append, Option.or_assoc]
  messages := by
    intro ht k
    obtain ⟨ht, ht'⟩ := List.forall_mem_append.mp ht
    rw [h'.messages ht', h.messages ht]
  idle hc := h'.idle (h.idle hc)

end Advances

/-! ### Reconciling -/

/-- A patch may change status and marker, and that is all of a message that it can change. -/
theorem map_plain_applyPatches (ps : List Patch) :
    ∀ (c : Conversation) (k : String),
      ((c.applyPatches ps).1.message? k).map Message.plain = (c.message? k).map Message.plain := by
  induction ps with
  | nil => exact fun _ _ ↦ rfl
  | cons p ps ih =>
    intro c k
    show (((c.applyPatch p).1.applyPatches ps).1.message? k).map Message.plain = _
    rw [ih, message?_applyPatch, Option.map_map]
    refine congrArg (Option.map · (c.message? k)) (funext fun m ↦ ?_)
    rw [Function.comp_apply]
    split <;> rfl

/-- Reconciling makes no exchange and changes messages only in status and marker. -/
theorem advances_reconcile (c : Conversation) : Advances c [] (Sync.reconcile c).1 := by
  unfold Sync.reconcile
  split
  · have hplain := map_plain_applyPatches (Patch.forMessages c.messageList c.agreement.data) c
    obtain ⟨ms, hms⟩ := exists_applyPatches_eq (Patch.forMessages c.messageList c.agreement.data) c
    rw [hms] at hplain
    rw [reconcile, hms]
    exact ⟨rfl, rfl, rfl, rfl, rfl, rfl, fun _ ↦ hplain, fun h ↦ ⟨h.1, h.2, h.3⟩⟩
  · exact .refl c

end Conversation

namespace Sync

open Conversation

variable {σ : Type} {y : Sync σ} {c : Conversation} {force : Bool} {t : List Exchange}
  {r : Conversation × Answer Nat}

/-! ### Single events -/

/-- The fault of an answer. -/
def fault? {α : Type} : Answer α → Option Fault
  | .error f => some f
  | .ok _ => none

/-- Every exchange in the resolution of an event is a look-up for the need. -/
theorem Resolution.exists_eq_message {need uri : String} {answer : Answer Message}
    (h : Resolution need uri t answer) : ∀ e ∈ t, ∃ u a, e = .message need u a := by
  cases h <;> simp

theorem Lookups.exists_eq_message {need : String} {uris : List String}
    {answers : List (Answer Message)} (h : Lookups need uris t answers) :
    ∀ e ∈ t, ∃ u a, e = .message need u a := by
  induction h with
  | nil => exact List.forall_mem_nil _
  | cons hhead _ ih => exact List.forall_mem_append.mpr ⟨hhead.exists_eq_message, ih⟩

/-- Look-ups of single events bring nothing that counts for a step. -/
theorem Lookups.filterMap_eq_nil {need : String} {uris : List String}
    {answers : List (Answer Message)} (h : Lookups need uris t answers) {α : Type}
    {f : Exchange → Option α} (hf : ∀ need u a, f (.message need u a) = none) :
    t.filterMap f = [] := by
  refine List.filterMap_eq_nil_iff.mpr fun e he ↦ ?_
  obtain ⟨u, a, rfl⟩ := h.exists_eq_message e he
  exact hf need u a

/-! ### Single steps -/

namespace LatestExchange

variable (h : LatestExchange y c t r)
include h

/-- The step asks for the newest messages if they are due, and makes no other request. -/
theorem stepCalls : t.filterMap Exchange.stepCall? =
    if c.needsMessages then [.messages c.uri y.initialCount none] else [] := by
  cases h with
  | notDue hdue => rw [hdue]; rfl
  | failed hdue => rw [if_pos hdue]; rfl
  | arrived hdue => rw [if_pos hdue]; rfl

/-- The step reports the fault that its exchange met with. -/
theorem stepFault : t.findSome? Exchange.stepFault? = fault? r.2 := by
  cases h <;> rfl

/-- The step installs nothing besides the messages that came. -/
theorem advances : Advances c t r.1 := by
  cases h with
  | notDue => exact .refl c
  | failed =>
    exact ⟨rfl, rfl, rfl, rfl, rfl, rfl, fun _ _ ↦ rfl,
      fun hc ↦ ⟨c.beginMessages.isLoading_failMessages, hc.agreement, hc.petriNet⟩⟩
  | arrived _ batch =>
    obtain ⟨ms, hms⟩ := exists_upsertAll_eq batch c.beginMessages
    have hfinish : (c.beginMessages.finishMessages batch).1 =
        { c.withMessages ms with loading := .loaded } :=
      congrArg (fun d : Conversation ↦ { d with loading := .loaded }) hms
    show Advances c _ (c.beginMessages.finishMessages batch).1
    rw [hfinish]
    exact ⟨rfl, rfl, rfl, rfl, rfl, rfl, fun ht ↦ (nomatch ht _ List.mem_cons_self),
      fun hc ↦ ⟨rfl, hc.agreement, hc.petriNet⟩⟩

end LatestExchange

namespace AgreementExchange

variable (h : AgreementExchange y c force t r)
include h

/-- The step asks for the agreements if they are due; its look-ups are not requests of the step. -/
theorem stepCalls : t.filterMap Exchange.stepCall? =
    if c.needsAgreement force then [.agreement c.uri] else [] := by
  cases h with
  | notDue hdue => rw [hdue]; rfl
  | failed hdue => rw [if_pos hdue]; rfl
  | arrived hdue _ _ ht =>
    rw [if_pos hdue, List.filterMap_cons, ht.filterMap_eq_nil fun _ _ _ ↦ rfl]
    rfl

/-- A fault of the agreements themselves is reported; a look-up that fails is not. -/
theorem stepFault : t.findSome? Exchange.stepFault? = fault? r.2 := by
  cases h with
  | notDue => rfl
  | failed => rfl
  | arrived _ _ _ ht =>
    refine List.findSome?_eq_none_iff.mpr (List.forall_mem_cons.mpr ⟨rfl, fun e he ↦ ?_⟩)
    obtain ⟨u, a, rfl⟩ := ht.exists_eq_message e he
    rfl

/-- The step installs the snapshot that came, if one did. -/
theorem advances : Advances c t r.1 := by
  cases h with
  | notDue => exact .refl c
  | failed =>
    have hrest : c.agreement.start.fail.AtRest := Fetched.atRest_fail _
    exact ⟨rfl, rfl, rfl, rfl, rfl, rfl, fun _ _ ↦ rfl,
      fun hc ↦ ⟨hc.messages, hrest.progress_ne_loading, hc.petriNet⟩⟩
  | arrived _ response hd ht =>
    rename_i answers
    subst hd
    obtain ⟨ms, hms⟩ := exists_upsertAll_eq (received answers)
      (c.beginSnapshot.applySnapshot response.snapshot)
    show Advances c _ ((c.beginSnapshot.applySnapshot response.snapshot).upsertAll _).1
    rw [hms]
    refine ⟨rfl, rfl, rfl, rfl, ?_, ?_, fun ht ↦ (nomatch ht _ List.mem_cons_self),
      fun hc ↦ ⟨hc.messages, nofun, hc.petriNet⟩⟩
    · rw [List.filterMap_cons, ht.filterMap_eq_nil fun _ _ _ ↦ rfl]
      rfl
    · rw [List.filterMap_cons, ht.filterMap_eq_nil fun _ _ _ ↦ rfl]
      rfl

end AgreementExchange

namespace PetriNetExchange

variable (h : PetriNetExchange c force t r)
include h

/-- The step asks for the processes if they are due. -/
theorem stepCalls : t.filterMap Exchange.stepCall? =
    if c.needsPetriNet force then [.processes c.uri] else [] := by
  cases h with
  | notDue hdue => rw [hdue]; rfl
  | failed hdue => rw [if_pos hdue]; rfl
  | arrived hdue => rw [if_pos hdue]; rfl

/-- The step reports the fault that its exchange met with. -/
theorem stepFault : t.findSome? Exchange.stepFault? = fault? r.2 := by
  cases h <;> rfl

/-- The step installs the processes that came, if they did. -/
theorem advances : Advances c t r.1 := by
  cases h with
  | notDue => exact .refl c
  | failed =>
    have hrest : c.petriNet.start.fail.AtRest := Fetched.atRest_fail _
    exact ⟨rfl, rfl, rfl, rfl, rfl, rfl, fun _ _ ↦ rfl,
      fun hc ↦ ⟨hc.messages, hc.agreement, hrest.progress_ne_loading⟩⟩
  | arrived =>
    exact ⟨rfl, rfl, rfl, rfl, rfl, rfl, fun _ _ ↦ rfl,
      fun hc ↦ ⟨hc.messages, hc.agreement, nofun⟩⟩

end PetriNetExchange

/-! ### All steps -/

/-- The requests of the steps that are due, in the order in which a sync takes them. -/
def dueCalls (y : Sync σ) (c : Conversation) : List Call :=
  (if c.needsMessages then [.messages c.uri y.initialCount none] else []) ++
    ((if c.needsAgreement false then [.agreement c.uri] else []) ++
      if c.needsPetriNet false then [.processes c.uri] else [])

/-- The answer is the first fault in the order of the steps, and success if there is none. -/
theorem firstFault_eq {α : Type} (a b c : Answer α) :
    firstFault a b c =
      ((fault? a).or ((fault? b).or (fault? c))).elim (.ok ()) .error := by
  cases a <;> cases b <;> cases c <;> rfl

/-- The steps of a sync, and reconciling, one after the other. -/
theorem advances_of_exchanges {t₁ t₂ t₃ : List Exchange} {r₁ r₂ r₃ : Conversation × Answer Nat}
    (h₁ : LatestExchange y c t₁ r₁) (h₂ : AgreementExchange y r₁.1 false t₂ r₂)
    (h₃ : PetriNetExchange r₂.1 false t₃ r₃) :
    Advances c (t₁ ++ (t₂ ++ t₃)) (reconcile r₃.1).1 := by
  have hall := h₁.advances.trans (h₂.advances.trans (h₃.advances.trans (advances_reconcile r₃.1)))
  rwa [List.append_nil] at hall

/-- No step changes whether a later one is due, so each asks just if it was due at first. -/
theorem stepCalls_of_exchanges {t₁ t₂ t₃ : List Exchange} {r₁ r₂ r₃ : Conversation × Answer Nat}
    (h₁ : LatestExchange y c t₁ r₁) (h₂ : AgreementExchange y r₁.1 false t₂ r₂)
    (h₃ : PetriNetExchange r₂.1 false t₃ r₃)
    (hgives : ∀ e ∈ t₁ ++ (t₂ ++ t₃), y.source.Gives e) :
    (t₁ ++ (t₂ ++ t₃)).filterMap Exchange.stepCall? = y.dueCalls c := by
  obtain ⟨hgives₁, hgives⟩ := List.forall_mem_append.mp hgives
  obtain ⟨hgives₂, -⟩ := List.forall_mem_append.mp hgives
  obtain ⟨hconn₁, hagreement₁, hprocesses₁⟩ := (h₁.pageCall hgives₁).fetched_eq
  obtain ⟨hconn₂, hprocesses₂⟩ := (h₂.agreementCall hgives₂).others_eq
  have hagreement : r₁.1.needsAgreement false = c.needsAgreement false := by
    rw [needsAgreement, isConnected, hconn₁, hagreement₁]
    rfl
  have hprocesses : r₂.1.needsPetriNet false = c.needsPetriNet false := by
    rw [needsPetriNet, isConnected, hconn₂, hconn₁, hprocesses₂, hprocesses₁]
    rfl
  rw [List.filterMap_append, List.filterMap_append, h₁.stepCalls, h₂.stepCalls, h₃.stepCalls,
    h₂.advances.uri, h₁.advances.uri, hagreement, hprocesses, dueCalls]

/-- **Steps fail on their own.** A sync takes the steps that are due, and answers with the first
fault that one of them met with. Snapshot and processes are those that came, or else those that were
there. If no step succeeds that may bring messages, these change in their status at most. -/
theorem sync_steps_independent (y : Sync σ) (c : Conversation) (s : σ) :
    ∃ d answer s' t, (y.sync c).run s = ((d, answer), s') ∧
      (y.recorded.sync c).run (s, []) = ((d, answer), (s', t)) ∧ (∀ e ∈ t, y.source.Gives e) ∧
      t.filterMap Exchange.stepCall? = y.dueCalls c ∧
      answer = (t.findSome? Exchange.stepFault?).elim (.ok ()) .error ∧ Advances c t d := by
  obtain ⟨t, hrun, hgives, t₁, r₁, t₂, r₂, t₃, r₃, h₁, h₂, h₃, rfl, hr⟩ :=
    transcribes_sync id y c s []
  have hfault : firstFault r₁.2 r₂.2 r₃.2 =
      ((t₁ ++ (t₂ ++ t₃)).findSome? Exchange.stepFault?).elim (.ok ()) .error := by
    rw [firstFault_eq, List.findSome?_append, List.findSome?_append, h₁.stepFault, h₂.stepFault,
      h₃.stepFault]
  rw [List.map_id, List.nil_append, hr] at hrun
  exact ⟨_, _, ((y.sync c).run s).2, _, Prod.ext hr rfl, hrun, hgives,
    stepCalls_of_exchanges h₁ h₂ h₃ hgives, hfault, advances_of_exchanges h₁ h₂ h₃⟩

/-- The agreement `a`, and an open proposal of `p`. -/
def agreedAndProposed : Response where
  agreements := ["a"]
  openProposals := [{ proposes := ["p"] }]

/-- Processes of which two share a URI and one has none. -/
def reportedTwice : List Process :=
  [⟨some "u", ∅⟩, ⟨none, ∅⟩, ⟨some "v", ∅⟩, ⟨some "u", .ofList [("n", .null)]⟩]

/-- The server fails to deliver the newest messages, and delivers the rest. -/
def partlyAnswering : Script where
  batches := [.error ⟨.fetch, "503"⟩]
  responses := [.ok agreedAndProposed]
  processes := [.ok reportedTwice]

/-- A step fails, and the others bring all that the server has: the snapshot of its response, and
the last process under each URI. -/
theorem sync_steps_independent_partlyAnswering :
    ∃ d s' n net,
      ((⟨Script.source, "n", 15, 5⟩ : Sync Script).sync (new "c" .connected)).run partlyAnswering =
        ((d, .error ⟨.fetch, "503"⟩), s') ∧
      d.agreement.data = some n ∧ d.petriNet.data = some net ∧
      (∀ k u, u ∈ n.uris k ↔
        k = .agreements ∧ u = "a" ∨ k = .proposedMessages ∧ u = "p") ∧
      net.get? "u" = some ⟨some "u", .ofList [("n", .null)]⟩ ∧
      net.get? "v" = some ⟨some "v", ∅⟩ ∧ ∀ u, u ≠ "u" → u ≠ "v" → net.get? u = none := by
  obtain ⟨d, answer, s', t, hrun, hrecorded, -, -, hanswer, h⟩ :=
    sync_steps_independent ⟨Script.source, "n", 15, 5⟩ (new "c" .connected) partlyAnswering
  have ht : t = [.messages "c" 15 none (.error ⟨.fetch, "503"⟩),
      .agreement "c" (.ok agreedAndProposed),
      .message "n" "a" (.error ⟨.notFound, "a"⟩), .message "n" "p" (.error ⟨.notFound, "p"⟩),
      .processes "c" (.ok reportedTwice)] := by
    have hnotes := congrArg (·.2.2) hrecorded
    exact hnotes.symm.trans rfl
  subst ht hanswer
  refine ⟨d, s', agreedAndProposed.snapshot, .ofProcesses reportedTwice, hrun, h.snapshot,
    h.petriNet, fun k u ↦ ?_, ?_, ?_, fun u hu hv ↦ ?_⟩
  · rw [Response.mem_snapshot]
    cases k <;> simp [Response.listed, agreedAndProposed]
  · rw [PetriNet.get?_ofProcesses]
    rfl
  · rw [PetriNet.get?_ofProcesses]
    rfl
  · rw [PetriNet.get?_ofProcesses]
    simp [reportedTwice, hu.symm, hv.symm]

end Sync

end Parley
