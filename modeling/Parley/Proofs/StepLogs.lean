import Parley.Proofs.Fetching
import Parley.Proofs.Growth
import Parley.Sync.Step

/-!
# What the log of a run says

Every entry of a log is one of the outcomes of its step (`StepExchange`), and each step begins where
the one before has ended (`Log`). Whatever a step fetches, what it makes of the conversation could
have been done by actions alone (`Conversation.Reaches`). So a log inherits what holds of runs of
actions: conversations stay keyed, no message is lost, and a history that is exhausted stays so.
-/

namespace Parley

namespace Conversation

/-- Some run of actions leads from `c` to `d`. -/
def Reaches (c d : Conversation) : Prop := ∃ actions : List Action, c.run actions = d

namespace Reaches

variable {c d e : Conversation}

theorem refl (c : Conversation) : c.Reaches c := ⟨[], rfl⟩

theorem trans (h : c.Reaches d) (h' : d.Reaches e) : c.Reaches e := by
  obtain ⟨actions, rfl⟩ := h
  obtain ⟨actions', rfl⟩ := h'
  exact ⟨actions ++ actions', c.run_append actions actions'⟩

theorem keyed (h : c.Reaches d) (hc : c.Keyed) : d.Keyed := by
  obtain ⟨actions, rfl⟩ := h
  exact run_preserves (fun a _ hc ↦ hc.perform a) hc

theorem grows (h : c.Reaches d) (hc : c.Keyed) : Grows c d := by
  obtain ⟨actions, rfl⟩ := h
  exact hc.grows_run actions

end Reaches

/-- No action takes back that the history is exhausted. -/
theorem exhausted_perform {c : Conversation} (h : c.exhausted = true) (a : Action) :
    (c.perform a).1.exhausted = true := by
  cases a with
  | setConnection s =>
    show (c.setConnection s).exhausted = true
    unfold setConnection
    split
    · exact h
    · split <;> exact h
  | upsert m =>
    obtain ⟨ms, hms⟩ := exists_upsert_eq c m
    exact (congrArg exhausted hms).trans h
  | upsertAll l | finishMessages l =>
    obtain ⟨ms, hms⟩ := exists_upsertAll_eq l c
    exact (congrArg exhausted hms).trans h
  | applyPatch p =>
    obtain ⟨ms, hms⟩ := exists_applyPatch_eq c p
    exact (congrArg exhausted hms).trans h
  | reconcile =>
    obtain ⟨ms, hms⟩ := exists_applyPatches_eq (Patch.forMessages c.messageList c.agreement.data) c
    exact (congrArg exhausted hms).trans h
  | markExhausted => rfl
  | _ => exact h

/-- **Nothing resets the end of the history.** -/
theorem Reaches.exhausted {c d : Conversation} (h : c.Reaches d) (hc : c.exhausted = true) :
    d.exhausted = true := by
  obtain ⟨actions, rfl⟩ := h
  exact run_preserves (P := fun e ↦ e.exhausted = true) (fun a _ he ↦ exhausted_perform he a) hc

end Conversation

namespace Sync

variable {σ κ : Type} {y : Sync σ} {c d : Conversation} {t : List Exchange}

/-! ### Calls as actions -/

/-- A first page is a run of two actions, or of none. -/
theorem LatestExchange.reaches {r : Conversation × Answer Nat} (h : LatestExchange y c t r) :
    c.Reaches r.1 := by
  cases h with
  | notDue => exact .refl c
  | failed _ f => exact ⟨[.beginMessages, .failMessages f], rfl⟩
  | arrived _ batch => exact ⟨[.beginMessages, .finishMessages batch], rfl⟩

/-- A page of older messages is a run of three actions at most. -/
theorem MoreExchange.reaches {r : Conversation × Answer Nat} (h : MoreExchange y c t r) :
    c.Reaches r.1 := by
  cases h with
  | notDue => exact .refl c
  | failed _ f => exact ⟨[.beginMessages, .failMessages f], rfl⟩
  | arrived _ batch =>
    show c.Reaches (finishMore c.beginMessages batch).1
    by_cases hn : (c.beginMessages.upsertAll batch).2 = 0
    · rw [finishMore_of_eq_zero hn]
      exact ⟨[.beginMessages, .finishMessages batch, .markExhausted], rfl⟩
    · rw [finishMore_of_ne_zero hn]
      exact ⟨[.beginMessages, .finishMessages batch], rfl⟩

/-- A refresh of the agreements begins, installs the snapshot and takes in what was found, or
fails. -/
theorem AgreementExchange.reaches {force : Bool} {r : Conversation × Answer Nat}
    (h : AgreementExchange y c force t r) : c.Reaches r.1 := by
  cases h with
  | notDue => exact .refl c
  | failed _ f => exact ⟨[.beginSnapshot, .failSnapshot f], rfl⟩
  | arrived _ response hd _ =>
    subst hd
    exact ⟨[.beginSnapshot, .applySnapshot response.snapshot, .upsertAll (received _)], rfl⟩

/-- A refresh of the processes is a run of two actions, or of none. -/
theorem PetriNetExchange.reaches {force : Bool} {r : Conversation × Answer Nat}
    (h : PetriNetExchange c force t r) : c.Reaches r.1 := by
  cases h with
  | notDue => exact .refl c
  | failed _ f => exact ⟨[.beginPetriNet, .failPetriNet f], rfl⟩
  | arrived _ processes => exact ⟨[.beginPetriNet, .applyPetriNet (.ofProcesses processes)], rfl⟩

/-- Reconciling is one action, or none. -/
theorem reaches_reconcile (c : Conversation) : c.Reaches (reconcile c).1 := by
  unfold reconcile
  split
  · exact ⟨[.reconcile], rfl⟩
  · exact .refl c

/-! ### The outcomes of a step -/

/-- What a step may ask for, and what comes of it. -/
inductive StepExchange (y : Sync σ) (c : Conversation) :
    Step → List Exchange → Conversation × Reply → Prop
  | perform (a : Action) : StepExchange y c (.perform a) [] ((c.perform a).map id .outcome)
  | latest {t : List Exchange} {r : Conversation × Answer Nat} (h : LatestExchange y c t r) :
      StepExchange y c (.load .latest) t (r.map id .count)
  | more {t : List Exchange} {r : Conversation × Answer Nat} (h : MoreExchange y c t r) :
      StepExchange y c (.load .more) t (r.map id .count)
  | agreement {force : Bool} {t : List Exchange} {r : Conversation × Answer Nat}
      (h : AgreementExchange y c force t r) :
      StepExchange y c (.load (.agreement force)) t (r.map id .count)
  | petriNet {force : Bool} {t : List Exchange} {r : Conversation × Answer Nat}
      (h : PetriNetExchange c force t r) :
      StepExchange y c (.petriNet force) t (r.map id .count)
  | reconcile : StepExchange y c .reconcile [] ((reconcile c).map id fun n ↦ .count (.ok n))
  | sync {t₁ t₂ t₃ : List Exchange} {r₁ r₂ r₃ : Conversation × Answer Nat}
      (h₁ : LatestExchange y c t₁ r₁) (h₂ : AgreementExchange y r₁.1 false t₂ r₂)
      (h₃ : PetriNetExchange r₂.1 false t₃ r₃) :
      StepExchange y c .sync (t₁ ++ (t₂ ++ t₃))
        ((Sync.reconcile r₃.1).1, .whole (firstFault r₁.2 r₂.2 r₃.2))
  | lookUp {uri : String} {t : List Exchange} {answer : Answer Message}
      (h : Resolution y.ownedNeed uri t answer) :
      StepExchange y c (.lookUp uri) t (c, .event answer)

/-- **Whatever a step fetches, actions lead to the same conversation.** -/
theorem StepExchange.reaches {x : Step} {r : Conversation × Reply}
    (h : StepExchange y c x t r) : c.Reaches r.1 := by
  cases h with
  | perform a => exact ⟨[a], rfl⟩
  | latest h => exact h.reaches
  | more h => exact h.reaches
  | agreement h => exact h.reaches
  | petriNet h => exact h.reaches
  | reconcile => exact reaches_reconcile c
  | sync h₁ h₂ h₃ =>
    exact h₁.reaches.trans (h₂.reaches.trans (h₃.reaches.trans (reaches_reconcile _)))
  | lookUp => exact .refl c

/-- What is made of a result is made of the noted one as well. -/
theorem Transcribes.map {α β : Type} {source : Source σ} {note : Exchange → κ} {x : StateM σ α}
    {x' : StateM (σ × List κ) α} {P : List Exchange → α → Prop}
    (hx : Transcribes source note x x' P)
    {f : α → β} {R : List Exchange → β → Prop} (hR : ∀ {t a}, P t a → R t (f a)) :
    Transcribes source note (x >>= fun a ↦ pure (f a)) (x' >>= fun a ↦ pure (f a)) R := by
  refine hx.bind (Q := fun a t b ↦ t = [] ∧ b = f a) (fun a ↦ transcribes_pure ⟨rfl, rfl⟩) ?_
  rintro a t t' b ha ⟨rfl, rfl⟩
  rw [List.append_nil]
  exact hR ha

/-- **One step** has one of its outcomes. -/
theorem transcribes_step (note : Exchange → κ) (y : Sync σ) (c : Conversation) (x : Step) :
    Transcribes y.source note (y.step c x) ((y.noted note).step c x) (StepExchange y c x) := by
  cases x with
  | perform a => exact transcribes_pure (.perform a)
  | load l =>
    cases l with
    | latest => exact (transcribes_loadLatest note y c).map .latest
    | more => exact (transcribes_loadMore note y c).map .more
    | agreement force => exact (transcribes_refreshAgreement note y c force).map .agreement
  | petriNet force => exact (transcribes_refreshPetriNet note y c force).map .petriNet
  | reconcile => exact transcribes_pure .reconcile
  | sync =>
    refine (transcribes_sync note y c).map ?_
    rintro t r ⟨t₁, r₁, t₂, r₂, t₃, r₃, h₁, h₂, h₃, rfl, rfl⟩
    exact .sync h₁ h₂ h₃
  | lookUp uri => exact (transcribes_fetchEvent note y uri).map .lookUp

/-! ### Logs -/

/-- The entries of a run that leads from the first conversation to the second. -/
inductive Log (y : Sync σ) : Conversation → List Entry → Conversation → Prop
  | nil (c : Conversation) : Log y c [] c
  | cons {c d : Conversation} {x : Step} {t : List Exchange} {r : Conversation × Reply}
      {log : List Entry} (h : StepExchange y c x t r) (hrest : Log y r.1 log d) :
      Log y c (⟨x, c, t, r.1, r.2⟩ :: log) d

/-- Observing a step does not change what it does. -/
theorem run_observe (y : Sync σ) (c : Conversation) (x : Step) (s : σ) :
    ∃ t, (y.observe c x).run s =
        (⟨x, c, t, ((y.step c x).run s).1.1, ((y.step c x).run s).1.2⟩, ((y.step c x).run s).2) ∧
      StepExchange y c x t ((y.step c x).run s).1 := by
  obtain ⟨t, hrun, -, ht⟩ := transcribes_step id y c x s []
  rw [List.map_id, List.nil_append] at hrun
  refine ⟨t, ?_, ht⟩
  have hobserve : (y.observe c x).run s =
      (⟨x, c, ((y.recorded.step c x).run (s, [])).2.2, ((y.recorded.step c x).run (s, [])).1.1,
        ((y.recorded.step c x).run (s, [])).1.2⟩, ((y.recorded.step c x).run (s, [])).2.1) := rfl
  have hrecorded : (y.recorded.step c x).run (s, []) =
      (((y.step c x).run s).1, ((y.step c x).run s).2, t) := hrun
  rw [hobserve, hrecorded]

/-- **A run** leaves a log of all its steps. -/
theorem log_steps (y : Sync σ) (xs : List Step) :
    ∀ (c : Conversation) (s : σ),
      Log y c ((y.steps c xs).run s).1.2 ((y.steps c xs).run s).1.1 ∧
        ((y.steps c xs).run s).1.2.map Entry.step = xs := by
  induction xs with
  | nil => exact fun c _ ↦ ⟨.nil c, rfl⟩
  | cons x xs ih =>
    intro c s
    obtain ⟨t, hrun, ht⟩ := run_observe y c x s
    obtain ⟨hlog, hsteps⟩ := ih ((y.step c x).run s).1.1 ((y.step c x).run s).2
    rw [steps, run_bind, hrun]
    exact ⟨.cons ht hlog, congrArg (x :: ·) hsteps⟩

namespace Log

variable {log : List Entry}

/-- Every entry is an outcome of its step in a conversation that the run has reached. -/
theorem of_mem (h : Log y c log d) {e : Entry} (he : e ∈ log) :
    c.Reaches e.before ∧ StepExchange y e.before e.step e.exchanges (e.after, e.reply) := by
  induction h with
  | nil => exact nomatch he
  | @cons c d x t r log h _ ih =>
    rcases List.mem_cons.mp he with rfl | he
    · exact ⟨.refl c, h⟩
    · obtain ⟨hbefore, hstep⟩ := ih he
      exact ⟨h.reaches.trans hbefore, hstep⟩

/-- What comes later in a log is reached from what comes earlier. -/
theorem pairwise_reaches (h : Log y c log d) :
    log.Pairwise fun e later ↦ e.after.Reaches later.before := by
  induction h with
  | nil => exact .nil
  | cons _ hrest ih => exact .cons (fun e he ↦ (hrest.of_mem he).1) ih

end Log

end Sync

end Parley
