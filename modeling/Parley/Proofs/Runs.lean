import Parley.Conversation.Action
import Parley.Proofs.Patching

/-!
# Runs of a conversation

A run is a list of actions, and a claim about every state that a run reaches is shown in two steps:
what one action keeps, then by induction what a run keeps (`run_preserves`).

**What one action keeps.** Most actions touch neither messages nor snapshot (`SameCore`); the others
take in records, apply patches, mark messages as read or install a snapshot. `perform_preserves`
reduces an invariant of all actions to these few cases, records being taken in one after the other.
The invariant that everything else rests on is `Keyed`, which every run keeps (`keyed_run`).
-/

namespace Parley

/-- The records that an action delivers, in their order. -/
def Action.records : Action → List Message
  | .upsert m => [m]
  | .upsertAll l => l
  | .finishMessages l => l
  | _ => []

namespace Conversation

/-! ### Batches -/

theorem fst_upsertAll_cons (c : Conversation) (m : Message) (l : List Message) :
    (c.upsertAll (m :: l)).1 = ((c.upsert m).1.upsertAll l).1 := rfl

theorem snd_upsertAll_cons (c : Conversation) (m : Message) (l : List Message) :
    (c.upsertAll (m :: l)).2 = ((c.upsert m).1.upsertAll l).2 + (c.upsert m).2.toNat := rfl

/-- A batch in two parts leaves the same conversation as the whole. -/
theorem fst_upsertAll_append (l l' : List Message) :
    ∀ c : Conversation, (c.upsertAll (l ++ l')).1 = ((c.upsertAll l).1.upsertAll l').1 := by
  induction l with
  | nil => exact fun _ ↦ rfl
  | cons m l ih => exact fun c ↦ ih (c.upsert m).1

/-- The counts of the two parts of a batch add up. -/
theorem snd_upsertAll_append (l l' : List Message) :
    ∀ c : Conversation,
      (c.upsertAll (l ++ l')).2 = (c.upsertAll l).2 + ((c.upsertAll l).1.upsertAll l').2 := by
  induction l with
  | nil => exact fun _ ↦ (Nat.zero_add _).symm
  | cons m l ih =>
    intro c
    rw [List.cons_append, snd_upsertAll_cons, ih, snd_upsertAll_cons, fst_upsertAll_cons]
    omega

/-- Records change nothing but messages. -/
theorem exists_upsert_eq (c : Conversation) (m : Message) :
    ∃ ms, (c.upsert m).1 = c.withMessages ms := by
  unfold upsert
  split
  · exact ⟨c.messages, rfl⟩
  · split
    · exact ⟨_, rfl⟩
    · split <;> exact ⟨_, rfl⟩

/-- A batch changes the messages alone. -/
theorem exists_upsertAll_eq (l : List Message) :
    ∀ c : Conversation, ∃ ms, (c.upsertAll l).1 = c.withMessages ms := by
  induction l with
  | nil => exact fun c ↦ ⟨c.messages, rfl⟩
  | cons m l ih =>
    intro c
    obtain ⟨ms, hms⟩ := exists_upsert_eq c m
    obtain ⟨ms', hms'⟩ := ih (c.upsert m).1
    refine ⟨ms', ?_⟩
    rw [fst_upsertAll_cons, hms', hms]
    rfl

theorem uri_upsertAll (c : Conversation) (l : List Message) : (c.upsertAll l).1.uri = c.uri := by
  obtain ⟨ms, hms⟩ := exists_upsertAll_eq l c
  rw [hms, uri_withMessages]

/-- What every record of a batch keeps, the batch keeps. Results about `upsertAll` come from their
case of one record through this induction. -/
theorem upsertAll_preserves {P : Conversation → Prop} {l : List Message}
    (h : ∀ {c : Conversation}, ∀ m ∈ l, P c → P (c.upsert m).1) :
    ∀ {c : Conversation}, P c → P (c.upsertAll l).1 := by
  induction l with
  | nil => exact fun hc ↦ hc
  | cons m l ih =>
    intro c hc
    exact ih (fun n hn ↦ h n (List.mem_cons_of_mem _ hn)) (h m List.mem_cons_self hc)

/-! ### What single actions change -/

/-- The conversations agree in their connection, their messages and their snapshot. -/
structure SameCore (c d : Conversation) : Prop where
  uri_eq : d.uri = c.uri
  messages_eq : d.messages = c.messages
  data_eq : d.agreement.data = c.agreement.data

/-- A conversation with the same core answers every lookup alike. -/
theorem SameCore.message?_eq {c d : Conversation} (h : SameCore c d) (k : String) :
    d.message? k = c.message? k := congrArg (·.get? k) h.messages_eq

/-- With the messages the names are the same as well. -/
theorem SameCore.sameNames {c d : Conversation} (h : SameCore c d) : SameNames c d :=
  ⟨h.uri_eq, fun k ↦ congrArg (Option.map names) (h.message?_eq k)⟩

/-- A change of the connection does not reach the messages. -/
theorem sameCore_setConnection (c : Conversation) (s : Connection) :
    SameCore c (c.setConnection s) := by
  unfold setConnection
  split
  · exact ⟨rfl, rfl, rfl⟩
  · split
    · exact ⟨rfl, rfl, c.agreement.data_expire⟩
    · exact ⟨rfl, rfl, rfl⟩

/-- Reading everything clears the unread flag of the message under a key, if there is one. -/
theorem message?_markAllRead (c : Conversation) (k : String) :
    c.markAllRead.1.message? k = (c.message? k).map fun m ↦ { m with unread := false } :=
  c.messages.get?_map _ k

theorem sameNames_markAllRead (c : Conversation) : SameNames c c.markAllRead.1 :=
  .of_map rfl (fun _ m ↦ { m with unread := false }) (fun _ _ ↦ rfl) (message?_markAllRead c)

/-- The first snapshot is installed and no message is touched. -/
theorem applySnapshot_of_none {c : Conversation} (h : c.agreement.data = none) (s : Snapshot) :
    c.applySnapshot s = { c with agreement := c.agreement.install s } := by
  rw [applySnapshot, h]

/-- A later snapshot clears the marker of each message that it names in a category where the prior
one did not. -/
theorem message?_applySnapshot {c : Conversation} {prior : Snapshot}
    (h : c.agreement.data = some prior) (s : Snapshot) (k : String) :
    (c.applySnapshot s).message? k =
      (c.message? k).map (invalidate (s.introducedSince prior)) := by
  rw [message?, applySnapshot, h]
  exact c.messages.get?_map _ k

/-- A cleared marker leaves the names of a message. -/
theorem names_invalidate (uris : UriSet) (m : Message) : names (invalidate uris m) = names m := by
  unfold invalidate
  split <;> rfl

theorem sameNames_applySnapshot (c : Conversation) (s : Snapshot) :
    SameNames c (c.applySnapshot s) := by
  rcases h : c.agreement.data with - | prior
  · rw [applySnapshot_of_none h]
    exact ⟨rfl, fun _ ↦ rfl⟩
  · exact .of_map rfl _ (fun _ ↦ names_invalidate _) (message?_applySnapshot h s)

/-- **One action.** What is kept by taking in each record that the action delivers, and by the other
way to change messages or snapshot that the action is, if it is one, is kept by the action. -/
theorem perform_preserves_of {P : Conversation → Prop} {a : Action}
    (quiet : ∀ {c d : Conversation}, SameCore c d → P c → P d)
    (upsert : ∀ {c : Conversation}, ∀ m ∈ a.records, P c → P (c.upsert m).1)
    (patch : ∀ {c : Conversation} p, a = .applyPatch p → P c → P (c.applyPatch p).1)
    (reconcile : ∀ {c : Conversation}, P c → P c.reconcile.1)
    (read : ∀ {c : Conversation}, a = .markAllRead → P c → P c.markAllRead.1)
    (snapshot : ∀ {c : Conversation} s, P c → P (c.applySnapshot s))
    {c : Conversation} (h : P c) : P (c.perform a).1 := by
  cases a with
  | setConnection s => exact quiet (sameCore_setConnection c s) h
  | upsert m => exact upsert m List.mem_cons_self h
  | upsertAll l => exact upsertAll_preserves upsert h
  | applyPatch p => exact patch p rfl h
  | reconcile => exact reconcile h
  | markAllRead => exact read rfl h
  | finishMessages l =>
    have hl : P (c.upsertAll l).1 := upsertAll_preserves upsert h
    refine quiet ?_ hl
    exact ⟨rfl, rfl, rfl⟩
  | applySnapshot s => exact snapshot s h
  | failSnapshot f =>
    refine quiet ?_ h
    exact ⟨rfl, rfl, c.agreement.data_fail⟩
  | setRemoteNeed _ | beginMessages | failMessages _ | markExhausted | beginSnapshot
  | beginPetriNet | applyPetriNet _ | failPetriNet _ =>
    refine quiet ?_ h
    exact ⟨rfl, rfl, rfl⟩

/-- What is kept by taking in each record that the action delivers, and by every other way to change
messages or snapshot, is kept by the action. -/
theorem perform_preserves {P : Conversation → Prop} {a : Action}
    (quiet : ∀ {c d : Conversation}, SameCore c d → P c → P d)
    (upsert : ∀ {c : Conversation}, ∀ m ∈ a.records, P c → P (c.upsert m).1)
    (patch : ∀ {c : Conversation} p, a = .applyPatch p → P c → P (c.applyPatch p).1)
    (reconcile : ∀ {c : Conversation}, P c → P c.reconcile.1)
    (read : ∀ {c : Conversation}, P c → P c.markAllRead.1)
    (snapshot : ∀ {c : Conversation} s, P c → P (c.applySnapshot s))
    {c : Conversation} (h : P c) : P (c.perform a).1 :=
  perform_preserves_of quiet upsert patch reconcile (fun _ hc ↦ read hc) snapshot h

/-! ### Runs -/

/-- A run can be cut anywhere. -/
theorem run_append (c : Conversation) (before after : List Action) :
    c.run (before ++ after) = (c.run before).run after := List.foldl_append

theorem run_concat (c : Conversation) (actions : List Action) (a : Action) :
    c.run (actions ++ [a]) = ((c.run actions).perform a).1 := c.run_append actions [a]

/-- What every action of a run keeps, the run keeps. -/
theorem run_preserves {P : Conversation → Prop} {actions : List Action}
    (h : ∀ {c : Conversation}, ∀ a ∈ actions, P c → P (c.perform a).1) :
    ∀ {c : Conversation}, P c → P (c.run actions) := by
  induction actions with
  | nil => exact fun hc ↦ hc
  | cons a actions ih =>
    intro c hc
    exact ih (fun b hb ↦ h b (List.mem_cons_of_mem _ hb)) (h a List.mem_cons_self hc)

/-- No action stores a message under a key that is not its URI. -/
theorem Keyed.perform {c : Conversation} (h : c.Keyed) (a : Action) : (c.perform a).1.Keyed :=
  perform_preserves (fun hs hc ↦ hs.sameNames.keyed hc) (fun m _ hc ↦ hc.upsert m)
    (fun p _ hc ↦ (sameNames_applyPatch _ p).keyed hc)
    (fun hc ↦ (sameNames_reconcile _).keyed hc) (fun hc ↦ (sameNames_markAllRead _).keyed hc)
    (fun s hc ↦ (sameNames_applySnapshot _ s).keyed hc) h

/-- **Every reachable conversation is keyed.** -/
theorem keyed_run (uri : String) (s : Connection) (actions : List Action) :
    ((new uri s).run actions).Keyed :=
  run_preserves (fun a _ hc ↦ hc.perform a) (keyed_new uri s)

end Conversation

end Parley
