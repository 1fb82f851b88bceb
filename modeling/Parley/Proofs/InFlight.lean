import Parley.Proofs.AtRest

/-!
# Fetches in flight

Three kinds of data are fetched: messages, the snapshot and the processes. The conversation keeps no
record of the fetches, only how far the fetch of each kind is. A `Flight` counts them as well, and
says which actions its caller may take (`Flight.Allows`): a fetch is begun only if it is due, and
ends only if one is in flight; everything else may happen at any time.

**The invariant.** A fetch of a kind is in flight just if the conversation says so, and then it is
the only one (`Flight.Tracks`). What carries it is that a step changes the progress of a kind to or
from `loading` only by beginning or ending a fetch of it (`Conversation.loading_perform_iff`). In
particular the connection may come and go in the meantime: what is in flight does not expire.
-/

namespace Parley

/-- What is fetched. -/
inductive Resource where
  | messages
  | snapshot
  | processes
  deriving DecidableEq

namespace Action

/-- What the action begins to fetch. -/
def begun? : Action → Option Resource
  | .beginMessages => some .messages
  | .beginSnapshot => some .snapshot
  | .beginPetriNet => some .processes
  | _ => none

/-- What the action ends to fetch, with data or with a fault. -/
def ended? : Action → Option Resource
  | .finishMessages _ => some .messages
  | .failMessages _ => some .messages
  | .applySnapshot _ => some .snapshot
  | .failSnapshot _ => some .snapshot
  | .applyPetriNet _ => some .processes
  | .failPetriNet _ => some .processes
  | _ => none

end Action

/-! ### How far fetches are -/

namespace Fetched

variable {α : Type}

/-- A fetch is in flight after an event if it was begun by it, or was in flight when the data
expired. -/
theorem loading_after_iff (x : Fetched α) (e : Event α) :
    (x.after e).progress = .loading ↔ e = .begun ∨ e = .expired ∧ x.progress = .loading := by
  cases e with
  | begun => simp [after, start]
  | arrived a => simp [after, install]
  | failed =>
    simp only [after, fail]
    split <;> simp
  | expired =>
    simp only [after, expire]
    split <;> simp_all

/-- What counts as loaded after an event is there. -/
theorem isSome_of_loaded_after {x : Fetched α} {e : Event α} (h : (x.after e).progress = .loaded) :
    (x.after e).data.isSome = true := by
  rcases (x.loaded_after_iff e).mp h with ⟨a, rfl⟩ | ⟨rfl, hx⟩
  · rfl
  · exact hx

end Fetched

namespace Conversation

/-- How far the current fetch is. -/
def progress (c : Conversation) : Resource → Progress
  | .messages => c.loading
  | .snapshot => c.agreement.progress
  | .processes => c.petriNet.progress

/-- A fetch is due, of the newest messages or of older ones. -/
def isDue (c : Conversation) : Resource → Bool
  | .messages => c.needsMessages || c.canLoadMore
  | .snapshot => c.needsAgreement false
  | .processes => c.needsPetriNet false

/-- A fetch that is in flight is not due. -/
theorem progress_ne_loading_of_isDue {c : Conversation} {r : Resource} (h : c.isDue r = true) :
    c.progress r ≠ .loading := by
  intro hloading
  cases r with
  | messages =>
    have hbusy : c.isLoading = true := decide_eq_true hloading
    simp [isDue, needsMessages, canLoadMore, hbusy] at h
  | snapshot =>
    change c.agreement.progress = .loading at hloading
    simp [isDue, needsAgreement, hloading] at h
  | processes =>
    change c.petriNet.progress = .loading at hloading
    simp [isDue, needsPetriNet, hloading] at h

/-- How far the fetch of messages is after an action. -/
def loadingAfter (c : Conversation) : Action → Progress
  | .beginMessages => .loading
  | .finishMessages _ => .loaded
  | .failMessages _ => if c.isEmpty then .notLoaded else .loaded
  | _ => c.loading

/-- An action changes the state of the message fetch as `loadingAfter` says. What is in flight is
read off this. -/
theorem loading_perform (c : Conversation) (a : Action) :
    (c.perform a).1.loading = c.loadingAfter a := by
  have hquiet : ∀ {d : Conversation} {ms : OrderedMap Message}, d = c.withMessages ms →
      d.loading = c.loading := by
    rintro d ms rfl
    rfl
  cases a with
  | upsert m =>
    obtain ⟨ms, hms⟩ := exists_upsert_eq c m
    exact hquiet hms
  | upsertAll l =>
    obtain ⟨ms, hms⟩ := exists_upsertAll_eq l c
    exact hquiet hms
  | applyPatch p =>
    obtain ⟨ms, hms⟩ := exists_applyPatch_eq c p
    exact hquiet hms
  | reconcile =>
    obtain ⟨ms, hms⟩ := exists_applyPatches_eq (Patch.forMessages c.messageList c.agreement.data) c
    exact hquiet hms
  | setConnection s =>
    show (c.setConnection s).loading = c.loading
    unfold setConnection
    split
    · rfl
    · split <;> rfl
  | _ => rfl

/-- **One step.** A fetch is in flight after an action if the action has begun it, or it was in
flight and the action has not ended it. -/
theorem loading_perform_iff (c : Conversation) (a : Action) (r : Resource) :
    (c.perform a).1.progress r = .loading ↔
      a.begun? = some r ∨ a.ended? ≠ some r ∧ c.progress r = .loading := by
  obtain ⟨-, hagreement, hprocesses⟩ := c.fetched_perform a
  cases r with
  | messages =>
    show (c.perform a).1.loading = .loading ↔ _ ∨ _ ∧ c.loading = .loading
    rw [c.loading_perform]
    cases a with
    | failMessages f =>
      rw [loadingAfter]
      split <;> simp [Action.begun?, Action.ended?]
    | _ => simp [loadingAfter, Action.begun?, Action.ended?]
  | snapshot =>
    show (c.perform a).1.agreement.progress = .loading ↔ _ ∨ _ ∧ c.agreement.progress = .loading
    rw [hagreement]
    cases a with
    | setConnection s =>
      rw [Action.agreementEvent]
      split <;> simp [Action.begun?, Action.ended?, Fetched.loading_after_iff]
    | _ => simp [Action.agreementEvent, Action.begun?, Action.ended?, Fetched.loading_after_iff]
  | processes =>
    show (c.perform a).1.petriNet.progress = .loading ↔ _ ∨ _ ∧ c.petriNet.progress = .loading
    rw [hprocesses]
    cases a with
    | setConnection s =>
      rw [Action.petriNetEvent]
      split <;> simp [Action.begun?, Action.ended?, Fetched.loading_after_iff]
    | _ => simp [Action.petriNetEvent, Action.begun?, Action.ended?, Fetched.loading_after_iff]

/-- **One step.** What counts as loaded is there after an action if it was there before. -/
theorem isSome_perform (c : Conversation) (a : Action) :
    ((c.agreement.progress = .loaded → c.agreement.data.isSome = true) →
        (c.perform a).1.agreement.progress = .loaded →
          (c.perform a).1.agreement.data.isSome = true) ∧
      ((c.petriNet.progress = .loaded → c.petriNet.data.isSome = true) →
        (c.perform a).1.petriNet.progress = .loaded →
          (c.perform a).1.petriNet.data.isSome = true) := by
  obtain ⟨-, hagreement, hprocesses⟩ := c.fetched_perform a
  rw [hagreement, hprocesses]
  constructor
  · cases a.agreementEvent c.connection with
    | none => exact id
    | some e => exact fun _ ↦ Fetched.isSome_of_loaded_after
  · cases a.petriNetEvent c.connection with
    | none => exact id
    | some e => exact fun _ ↦ Fetched.isSome_of_loaded_after

end Conversation

/-! ### Counting fetches -/

/-- A conversation, and how many fetches of each kind are in flight. -/
structure Flight where
  conversation : Conversation
  inFlight : Resource → Nat

namespace Flight

/-- Nothing is in flight. -/
def still (c : Conversation) : Flight := ⟨c, fun _ ↦ 0⟩

/-- An action is performed, and the fetches that it begins or ends are counted. -/
def perform (x : Flight) (a : Action) : Flight where
  conversation := (x.conversation.perform a).1
  inFlight r :=
    if a.begun? = some r then x.inFlight r + 1
    else if a.ended? = some r then x.inFlight r - 1
    else x.inFlight r

/-- After some actions. -/
def run (x : Flight) (actions : List Action) : Flight := actions.foldl perform x

/-- A fetch is begun only if it is due, and ends only if one is in flight. -/
structure Allows (x : Flight) (a : Action) : Prop where
  begun : ∀ r ∈ a.begun?, x.conversation.isDue r = true
  ended : ∀ r ∈ a.ended?, 0 < x.inFlight r

instance (x : Flight) (a : Action) : Decidable (x.Allows a) :=
  decidable_of_iff ((∀ r ∈ a.begun?, x.conversation.isDue r = true) ∧
    ∀ r ∈ a.ended?, 0 < x.inFlight r) ⟨fun h ↦ ⟨h.1, h.2⟩, fun h ↦ ⟨h.1, h.2⟩⟩

/-- Each of the actions is allowed when it comes. -/
def Orderly (x : Flight) : List Action → Prop
  | [] => True
  | a :: rest => x.Allows a ∧ (x.perform a).Orderly rest

instance decidableOrderly : ∀ (actions : List Action) (x : Flight), Decidable (x.Orderly actions)
  | [], _ => .isTrue trivial
  | a :: rest, x =>
    have := decidableOrderly rest (x.perform a)
    inferInstanceAs (Decidable (x.Allows a ∧ (x.perform a).Orderly rest))

/-- A fetch is in flight just if the conversation says so, there is one at most, and what counts as
loaded is there. -/
structure Tracks (x : Flight) : Prop where
  inFlight_eq : ∀ r, x.inFlight r = (decide (x.conversation.progress r = .loading)).toNat
  snapshot : x.conversation.agreement.progress = .loaded →
    x.conversation.agreement.data.isSome = true
  processes : x.conversation.petriNet.progress = .loaded →
    x.conversation.petriNet.data.isSome = true

variable {x : Flight} {a : Action} {actions : List Action}

theorem tracks_still {c : Conversation} (hidle : c.isLoading = false) (ha : c.agreement.AtRest)
    (hp : c.petriNet.AtRest) : (still c).Tracks where
  inFlight_eq r := by
    have hne : c.progress r ≠ .loading := by
      cases r with
      | messages => exact of_decide_eq_false hidle
      | snapshot => exact ha.progress_ne_loading
      | processes => exact hp.progress_ne_loading
    rw [still, decide_eq_false hne]
    rfl
  snapshot h := (ha.resolve_left fun h' ↦ nomatch h.symm.trans h').2
  processes h := (hp.resolve_left fun h' ↦ nomatch h.symm.trans h').2

/-- **One step.** An action that is allowed keeps the count right. -/
theorem Tracks.perform (h : x.Tracks) (ha : x.Allows a) : (x.perform a).Tracks where
  inFlight_eq r := by
    have hcount := h.inFlight_eq r
    have hafter := x.conversation.loading_perform_iff a r
    rw [Flight.perform]
    dsimp only
    split
    · rename_i hbegun
      have hidle := Conversation.progress_ne_loading_of_isDue (ha.begun r hbegun)
      rw [hcount, decide_eq_false hidle, decide_eq_true (hafter.mpr (.inl hbegun))]
      rfl
    · rename_i hbegun
      split
      · rename_i hended
        have hpos := ha.ended r hended
        have hdone : ¬(x.conversation.perform a).1.progress r = .loading := fun h ↦
          (hafter.mp h).elim hbegun fun h ↦ h.1 hended
        rw [hcount] at hpos ⊢
        rw [decide_eq_false hdone, Nat.sub_eq_zero_of_le (Bool.toNat_le _)]
        rfl
      · rename_i hended
        rw [hcount]
        congr 2
        exact propext (by simp [hafter, hbegun, hended])
  snapshot := (x.conversation.isSome_perform a).1 h.snapshot
  processes := (x.conversation.isSome_perform a).2 h.processes

/-- **A run** of allowed actions keeps the count right. -/
theorem Tracks.run (h : x.Tracks) (ha : x.Orderly actions) : (x.run actions).Tracks := by
  induction actions generalizing x with
  | nil => exact h
  | cons a rest ih => exact ih (h.perform ha.1) ha.2

theorem Orderly.of_prefix {before : List Action} (h : x.Orderly actions)
    (hbefore : before <+: actions) : x.Orderly before := by
  induction before generalizing x actions with
  | nil => trivial
  | cons a before ih =>
    obtain ⟨rest, rfl⟩ := hbefore
    exact ⟨h.1, ih h.2 (List.prefix_append before rest)⟩

theorem conversation_run (actions : List Action) :
    ∀ x : Flight, (x.run actions).conversation = x.conversation.run actions := by
  induction actions with
  | nil => exact fun _ ↦ rfl
  | cons a rest ih => exact fun x ↦ ih (x.perform a)

/-- **One fetch of a kind at most.** At first nothing is in flight, and what counts as loaded is
there. As long as fetches are begun only if they are due and end only if they are in flight, at most
one fetch of each kind is in flight, just if the conversation says so; and a snapshot or processes
that count as loaded are there. -/
theorem inFlight_le_one {c : Conversation} (hidle : c.isLoading = false) (ha : c.agreement.AtRest)
    (hp : c.petriNet.AtRest) {actions : List Action} (h : (still c).Orderly actions)
    {before : List Action} (hbefore : before <+: actions) :
    (∀ r, ((still c).run before).inFlight r ≤ 1 ∧
        (((still c).run before).inFlight r = 1 ↔ (c.run before).progress r = .loading)) ∧
      ((c.run before).agreement.progress = .loaded →
        (c.run before).agreement.data.isSome = true) ∧
      ((c.run before).petriNet.progress = .loaded →
        (c.run before).petriNet.data.isSome = true) := by
  have htracks : ((still c).run before).Tracks :=
    (tracks_still hidle ha hp).run (h.of_prefix hbefore)
  have hconv : ((still c).run before).conversation = c.run before := conversation_run before _
  rw [← hconv]
  refine ⟨fun r ↦ ?_, htracks.snapshot, htracks.processes⟩
  rw [htracks.inFlight_eq r]
  exact ⟨Bool.toNat_le _, by simp⟩

/-- All three kinds are being fetched while the connection comes and goes, and end in another order;
then older messages are fetched. -/
def overlapping : List Action :=
  [.beginSnapshot, .beginMessages, .beginPetriNet, .setConnection .closed,
    .upsert { uri := "m1", connectionUri := "c" }, .setConnection .connected,
    .failPetriNet ⟨.fetch, "502"⟩, .applySnapshot .empty, .beginPetriNet, .finishMessages [],
    .beginMessages, .markAllRead, .reconcile]

/-- The overlapping fetches are orderly, so that nothing is fetched twice at a time. -/
theorem inFlight_le_one_overlapping :
    (still (.new "c" .connected)).Orderly overlapping ∧
      ∀ r, ((still (.new "c" .connected)).run overlapping).inFlight r ≤ 1 ∧
        (((still (.new "c" .connected)).run overlapping).inFlight r = 1 ↔
          ((Conversation.new "c" .connected).run overlapping).progress r = .loading) := by
  have horderly : (still (.new "c" .connected)).Orderly overlapping := by decide
  exact ⟨horderly, (inFlight_le_one rfl (.inl rfl) (.inl rfl) horderly List.prefix_rfl).1⟩

end Flight

end Parley
