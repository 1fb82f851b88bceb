import Mathlib.Data.List.Induction
import Parley.Proofs.Runs

/-!
# The life of fetched data

A conversation keeps two kinds of data that have to be fetched, the snapshot and the processes. To
both happen the same few events: a fetch is begun, and the data arrives or the fetch fails; and when
the connection becomes established, the data expires. A `FetchKind` says where a kind of data is
kept and which action is which event, so that a fact about a run is a fact about its list of events
(`FetchKind.kept_run`).

**The last event decides.** As long as nothing arrives, data that has expired counts as loaded again
just if the last event was a failure and older data was kept (`Fetched.loaded_foldl_after_iff`).
-/

namespace Parley

namespace Fetched

/-- Something that happens to data that has to be fetched. -/
inductive Event (α : Type) where
  | begun
  | arrived (a : α)
  | failed
  | expired

variable {α : Type}

/-- The data after an event. -/
def after (x : Fetched α) : Event α → Fetched α
  | .begun => x.start
  | .arrived a => x.install a
  | .failed => x.fail
  | .expired => x.expire

/-- Only an arrival changes the data. -/
theorem data_after (x : Fetched α) {e : Event α} (he : ∀ a, e ≠ .arrived a) :
    (x.after e).data = x.data := by
  cases e with
  | begun => exact x.data_start
  | arrived a => exact absurd rfl (he a)
  | failed => exact x.data_fail
  | expired => exact x.data_expire

theorem data_foldl_after {events : List (Event α)} (he : ∀ a, .arrived a ∉ events) :
    ∀ x : Fetched α, (events.foldl after x).data = x.data := by
  induction events with
  | nil => exact fun _ ↦ rfl
  | cons e events ih =>
    intro x
    have hrest := ih (fun a ha ↦ he a (List.mem_cons_of_mem _ ha)) (x.after e)
    exact hrest.trans (x.data_after fun a ha ↦ he a (ha ▸ List.mem_cons_self))

/-- Data counts as loaded after an event if it has arrived, or if a fetch has failed and there is
older data. -/
theorem loaded_after_iff (x : Fetched α) (e : Event α) :
    (x.after e).progress = .loaded ↔
      (∃ a, e = .arrived a) ∨ e = .failed ∧ x.data.isSome = true := by
  cases e with
  | begun => simp [after, start]
  | arrived a => simp [after, install]
  | failed => simp [after, fail, Option.isSome_iff_ne_none]
  | expired =>
    simp only [after, expire]
    split <;> simp_all

/-- **The last event decides**, as long as nothing arrives. -/
theorem loaded_foldl_after_iff {x : Fetched α} (hx : x.progress ≠ .loaded)
    {events : List (Event α)} (he : ∀ a, .arrived a ∉ events) :
    (events.foldl after x).progress = .loaded ↔
      x.data.isSome = true ∧ events.getLast? = some .failed := by
  induction events using List.reverseRecOn with
  | nil => simp [hx]
  | append_singleton before e =>
    have hbefore : ∀ a, .arrived a ∉ before := fun a ha ↦ he a (List.mem_append_left _ ha)
    have hlast : ∀ a, e ≠ .arrived a := fun a ha ↦
      he a (List.mem_append_right _ (ha ▸ List.mem_singleton_self _))
    rw [List.foldl_append, List.foldl_cons, List.foldl_nil, loaded_after_iff,
      data_foldl_after hbefore, List.getLast?_concat, Option.some_inj]
    simp [hlast, and_comm]

theorem progress_expire_ne_loaded (x : Fetched α) : x.expire.progress ≠ .loaded := by
  unfold expire
  split <;> simp_all

end Fetched

/-! ### The events of single actions -/

namespace Action

/-- The state of the connection after an action. -/
def connectionAfter (s : Connection) : Action → Connection
  | .setConnection t => t
  | _ => s

/-- What an action is to the snapshot, if the connection is in the state `s` before. -/
def agreementEvent (s : Connection) : Action → Option (Fetched.Event Snapshot)
  | .beginSnapshot => some .begun
  | .applySnapshot t => some (.arrived t)
  | .failSnapshot _ => some .failed
  | .setConnection t => if t ≠ s ∧ t = .connected then some .expired else none
  | _ => none

/-- What an action is to the processes, if the connection is in the state `s` before. -/
def petriNetEvent (s : Connection) : Action → Option (Fetched.Event PetriNet)
  | .beginPetriNet => some .begun
  | .applyPetriNet n => some (.arrived n)
  | .failPetriNet _ => some .failed
  | .setConnection t => if t ≠ s ∧ t = .connected then some .expired else none
  | _ => none

end Action

namespace Conversation

/-- A change of the connection lets both kinds of data expire when it establishes the connection,
and does nothing to them otherwise. -/
theorem fetched_setConnection (c : Conversation) (s : Connection) :
    (c.setConnection s).connection = s ∧
      (c.setConnection s).agreement =
        (if s ≠ c.connection ∧ s = .connected then c.agreement.expire else c.agreement) ∧
      (c.setConnection s).petriNet =
        (if s ≠ c.connection ∧ s = .connected then c.petriNet.expire else c.petriNet) := by
  unfold setConnection
  split
  · simp_all
  · split <;> simp_all

/-- **What single actions are.** An action changes the connection, the snapshot and the processes
by its events and in no other way. -/
theorem fetched_perform (c : Conversation) (a : Action) :
    (c.perform a).1.connection = a.connectionAfter c.connection ∧
      (c.perform a).1.agreement =
        (a.agreementEvent c.connection).elim c.agreement c.agreement.after ∧
      (c.perform a).1.petriNet =
        (a.petriNetEvent c.connection).elim c.petriNet c.petriNet.after := by
  -- records, patches and reading change nothing but messages
  have hquiet : ∀ {d : Conversation} {ms : OrderedMap Message}, d = c.withMessages ms →
      d.connection = c.connection ∧ d.agreement = c.agreement ∧ d.petriNet = c.petriNet := by
    rintro d ms rfl
    exact ⟨rfl, rfl, rfl⟩
  cases a with
  | upsert m =>
    obtain ⟨ms, hms⟩ := exists_upsert_eq c m
    exact hquiet hms
  | upsertAll l =>
    obtain ⟨ms, hms⟩ := exists_upsertAll_eq l c
    exact hquiet hms
  | finishMessages l =>
    obtain ⟨ms, hms⟩ := exists_upsertAll_eq l c
    have hl := hquiet hms
    exact hl
  | applyPatch p =>
    obtain ⟨ms, hms⟩ := exists_applyPatch_eq c p
    exact hquiet hms
  | reconcile =>
    obtain ⟨ms, hms⟩ := exists_applyPatches_eq (Patch.forMessages c.messageList c.agreement.data) c
    exact hquiet hms
  | setConnection s =>
    obtain ⟨hconn, hagreement, hprocesses⟩ := c.fetched_setConnection s
    refine ⟨hconn, hagreement.trans ?_, hprocesses.trans ?_⟩
    · rw [Action.agreementEvent]
      split <;> rfl
    · rw [Action.petriNetEvent]
      split <;> rfl
  | setRemoteNeed _ | markAllRead | beginMessages | failMessages _ | markExhausted | beginSnapshot
  | applySnapshot _ | failSnapshot _ | beginPetriNet | applyPetriNet _ | failPetriNet _ =>
    exact ⟨rfl, rfl, rfl⟩

end Conversation

/-! ### Kinds of fetched data -/

/-- A kind of data that has to be fetched. -/
structure FetchKind (α : Type) where
  /-- Where a conversation keeps the data. -/
  kept : Conversation → Fetched α
  /-- What an action is to the data, if the connection is in the state `s` before. -/
  event : (s : Connection) → Action → Option (Fetched.Event α)
  /-- The action by which the data arrives. -/
  arrival : α → Action
  kept_perform : ∀ c a,
    kept (c.perform a).1 = (event c.connection a).elim (kept c) (kept c).after
  eq_arrival : ∀ {s a x}, event s a = some (.arrived x) → a = arrival x
  event_connected : ∀ {s}, s ≠ .connected → event s (.setConnection .connected) = some .expired

namespace FetchKind

/-- The snapshot of the agreements. -/
def agreement : FetchKind Snapshot where
  kept := Conversation.agreement
  event := Action.agreementEvent
  arrival := .applySnapshot
  kept_perform c a := (c.fetched_perform a).2.1
  eq_arrival {s a x} h := by cases a <;> simp_all [Action.agreementEvent]
  event_connected hs := if_pos ⟨Ne.symm hs, rfl⟩

/-- The processes. -/
def petriNet : FetchKind PetriNet where
  kept := Conversation.petriNet
  event := Action.petriNetEvent
  arrival := .applyPetriNet
  kept_perform c a := (c.fetched_perform a).2.2
  eq_arrival {s a x} h := by cases a <;> simp_all [Action.petriNetEvent]
  event_connected hs := if_pos ⟨Ne.symm hs, rfl⟩

variable {α : Type} (kind : FetchKind α)

/-- The events of this kind in a list of actions that finds the connection in the state `s`. -/
def events (s : Connection) : List Action → List (Fetched.Event α)
  | [] => []
  | a :: rest => (kind.event s a).toList ++ events (a.connectionAfter s) rest

/-- If no action brings data of the kind, none of the events is an arrival. -/
theorem not_arrived_mem_events {actions : List Action} (h : ∀ x, kind.arrival x ∉ actions) :
    ∀ (s : Connection) (x : α), .arrived x ∉ kind.events s actions := by
  induction actions with
  | nil => exact fun _ _ hx ↦ nomatch hx
  | cons a actions ih =>
    intro s x hx
    rcases List.mem_append.mp hx with hx | hx
    · exact h x (kind.eq_arrival (Option.mem_toList.mp hx) ▸ List.mem_cons_self)
    · exact ih (fun y hy ↦ h y (List.mem_cons_of_mem _ hy)) _ x hx

/-- **A run and its events.** -/
theorem kept_run (actions : List Action) :
    ∀ c : Conversation, kind.kept (c.run actions) =
      (kind.events c.connection actions).foldl .after (kind.kept c) := by
  induction actions with
  | nil => exact fun _ ↦ rfl
  | cons a actions ih =>
    intro c
    rw [events, List.foldl_append, ← (c.fetched_perform a).1]
    refine (ih (c.perform a).1).trans ?_
    rw [kind.kept_perform c a]
    cases kind.event c.connection a <;> rfl

/-- After the connection became established, and as long as nothing arrives, the data counts as
loaded just if it was kept from before and the last fetch of it has failed. -/
theorem loaded_run_iff {c : Conversation} (hc : c.connection ≠ .connected) {actions : List Action}
    (h : ∀ x, kind.arrival x ∉ actions) :
    (kind.kept ((c.setConnection .connected).run actions)).progress = .loaded ↔
      (kind.kept c).data.isSome = true ∧
        (kind.events .connected actions).getLast? = some .failed := by
  have hexpired : kind.kept (c.setConnection .connected) = (kind.kept c).expire := by
    have hstep := kind.kept_perform c (.setConnection .connected)
    rwa [kind.event_connected hc] at hstep
  rw [kind.kept_run, (c.fetched_setConnection .connected).1, hexpired,
    Fetched.loaded_foldl_after_iff (kind.kept c).progress_expire_ne_loaded
      (kind.not_arrived_mem_events h _),
    Fetched.data_expire]

end FetchKind

end Parley
