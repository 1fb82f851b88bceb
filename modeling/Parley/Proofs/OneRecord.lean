import Mathlib.Data.List.Induction
import Parley.Proofs.Runs

/-!
# One record per event

Stored messages should describe different events (`OneRecord`). A record that introduces a message
cannot break this, because a message is added only if no stored one shares a name with it. A record
that is merged can: the stored message may learn a name by it, and nothing looks whether another
stored message already has that name.

**The exact condition.** `Teaches` says which stored message learns which name from a record, and
`Collides` that another message has the name. By `oneRecord_upsert_iff` a record breaks `OneRecord`
just if it collides. So every state between two records of a run has one record per event just if no
record of the run collides when it arrives.
-/

namespace Parley

/-- The action record by record: a batch is taken apart. -/
def Action.singles : Action → List Action
  | .upsertAll l => l.map .upsert
  | .finishMessages l => l.map .upsert ++ [.finishMessages []]
  | a => [a]

/-- An action that delivers no record, or just one. -/
def Action.IsSingle (a : Action) : Prop := a.records = [] ∨ ∃ m, a = .upsert m

/-- What an action is taken apart into delivers one record at most. -/
theorem Action.isSingle_of_mem_singles {a b : Action} (h : b ∈ a.singles) : b.IsSingle := by
  cases a with
  | upsertAll l =>
    obtain ⟨m, -, rfl⟩ := List.mem_map.mp h
    exact Or.inr ⟨m, rfl⟩
  | finishMessages l =>
    rcases List.mem_append.mp h with h | h
    · obtain ⟨m, -, rfl⟩ := List.mem_map.mp h
      exact Or.inr ⟨m, rfl⟩
    · rw [List.mem_singleton.mp h]
      exact Or.inl rfl
  | upsert m =>
    rw [List.mem_singleton.mp h]
    exact Or.inr ⟨m, rfl⟩
  | _ =>
    rw [List.mem_singleton.mp h]
    exact Or.inl rfl

namespace Conversation

/-- Messages that are stored under different keys describe different events. -/
def OneRecord (c : Conversation) : Prop :=
  ∀ k k' m n, c.message? k = some m → c.message? k' = some n → m.sameEvent n = true → k = k'

theorem oneRecord_new (uri : String) (s : Connection) : (new uri s).OneRecord :=
  fun _ _ _ _ h ↦ nomatch h

/-! ### Names that are taken -/

/-- Another message than the one under `k` is known as `u`. -/
def Taken (c : Conversation) (k u : String) : Prop :=
  ∃ k' n, k' ≠ k ∧ c.message? k' = some n ∧ n.isKnownAs u = true

/-- No other message has a name of the message under `k`. -/
theorem OneRecord.not_taken {c : Conversation} (h : c.OneRecord) {k u : String} {m : Message}
    (hm : c.message? k = some m) (hu : m.isKnownAs u = true) : ¬c.Taken k u := by
  rintro ⟨k', n, hne, hn, hnu⟩
  exact hne (h k' k n m hn hm (Message.sameEvent_iff_exists.mpr ⟨u, hnu, hu⟩))

/-- A message may be put where none of its names is taken. -/
theorem OneRecord.put_iff {c : Conversation} (h : c.OneRecord) (m : Message) :
    (c.put m).OneRecord ↔ ∀ u, m.isKnownAs u = true → ¬c.Taken m.uri u := by
  constructor
  · rintro hput u hu ⟨k, n, hk, hn, hnu⟩
    have hn' : (c.put m).message? k = some n := by rw [message?_put, if_neg hk, hn]
    have hsame : n.sameEvent m = true := Message.sameEvent_iff_exists.mpr ⟨u, hnu, hu⟩
    exact hk (hput k m.uri n m hn' (c.message?_put_self m) hsame)
  · intro hfree k k' p q hp hq hpq
    obtain ⟨u, hpu, hqu⟩ := Message.sameEvent_iff_exists.mp hpq
    -- if just one of the two messages is the new one, the other has taken the common name
    rcases eq_or_of_message?_put hp with ⟨rfl, rfl⟩ | ⟨hk, hp'⟩ <;>
      rcases eq_or_of_message?_put hq with ⟨rfl, rfl⟩ | ⟨hk', hq'⟩
    · rfl
    · exact absurd ⟨k', q, hk', hq', hqu⟩ (hfree u hpu)
    · exact absurd ⟨k, p, hk, hp', hpu⟩ (hfree u hqu)
    · exact h k k' p q hp' hq' hpq

/-- Nothing is taken from others by a message that has no new name. -/
theorem OneRecord.put_of_known {c : Conversation} (h : c.OneRecord) {m old : Message}
    (hold : c.message? m.uri = some old)
    (hm : ∀ u, m.isKnownAs u = true → old.isKnownAs u = true) : (c.put m).OneRecord :=
  (h.put_iff m).mpr fun u hu ↦ h.not_taken hold (hm u hu)

/-- Of a message with one new name only that name has to be looked at. -/
theorem OneRecord.put_learning_iff {c : Conversation} (h : c.OneRecord) {m old : Message}
    {u : String} (hold : c.message? m.uri = some old) (hu : m.isKnownAs u = true)
    (hm : ∀ v, m.isKnownAs v = true → old.isKnownAs v = true ∨ v = u) :
    (c.put m).OneRecord ↔ ¬c.Taken m.uri u := by
  rw [h.put_iff]
  constructor
  · exact fun hfree ↦ hfree u hu
  · intro hfree v hv
    rcases hm v hv with hv | rfl
    · exact h.not_taken hold hv
    · exact hfree

/-! ### Names that are learnt -/

/-- By the record `m` the message that is stored under a key learns a name. -/
inductive Teaches (c : Conversation) (m : Message) : String → String → Prop
  /-- The record is fetched again, and now it has a URI of the other side. -/
  | again {old : Message} {u : String} (hc : m.connectionUri = c.uri)
      (hold : c.message? m.uri = some old) (hu : m.remoteUri = some u) : Teaches c m m.uri u
  /-- The record is the other side's copy of a message without a URI of the other side. -/
  | copy {known : Message} (hc : m.connectionUri = c.uri) (hnew : c.message? m.uri = none)
      (hfind : c.messageList.find? (·.sameEvent m) = some known)
      (hnone : known.remoteUri = none) : Teaches c m known.uri m.uri

/-- The record `m` teaches a stored message a name that another one has. -/
def Collides (c : Conversation) (m : Message) : Prop := ∃ k u, c.Teaches m k u ∧ c.Taken k u

/-- A record under a key that is in use collides if another message has the alias that it brings. -/
theorem collides_iff_of_stored {c : Conversation} {m old : Message}
    (hc : m.connectionUri = c.uri) (hold : c.message? m.uri = some old) :
    c.Collides m ↔ ∃ u, m.remoteUri = some u ∧ c.Taken m.uri u := by
  constructor
  · rintro ⟨_, u, ⟨-, -, hu⟩ | ⟨-, hnew⟩, ht⟩
    · exact ⟨u, hu, ht⟩
    · exact nomatch hold.symm.trans hnew
  · rintro ⟨u, hu, ht⟩
    exact ⟨m.uri, u, .again hc hold hu, ht⟩

/-- A record that is absorbed collides if the known message had no alias, and another message has
the URI of the record. -/
theorem collides_iff_of_known {c : Conversation} {m known : Message}
    (hc : m.connectionUri = c.uri) (hnew : c.message? m.uri = none)
    (hfind : c.messageList.find? (·.sameEvent m) = some known) :
    c.Collides m ↔ known.remoteUri = none ∧ c.Taken known.uri m.uri := by
  constructor
  · rintro ⟨_, _, ⟨-, hold⟩ | ⟨-, -, hfind', hnone⟩, ht⟩
    · exact nomatch hold.symm.trans hnew
    · obtain rfl := Option.some.inj (hfind.symm.trans hfind')
      exact ⟨hnone, ht⟩
  · rintro ⟨hnone, ht⟩
    exact ⟨known.uri, m.uri, .copy hc hnew hfind hnone, ht⟩

/-- A record of an unknown event teaches nothing. -/
theorem not_collides_of_unknown {c : Conversation} {m : Message} (hnew : c.message? m.uri = none)
    (hfind : c.messageList.find? (·.sameEvent m) = none) : ¬c.Collides m := by
  rintro ⟨_, _, ⟨-, hold⟩ | ⟨-, -, hfind'⟩, -⟩
  · exact nomatch hold.symm.trans hnew
  · exact nomatch hfind.symm.trans hfind'

theorem not_collides_of_foreign {c : Conversation} {m : Message} (hc : m.connectionUri ≠ c.uri) :
    ¬c.Collides m := by
  rintro ⟨_, _, ⟨hc'⟩ | ⟨hc'⟩, -⟩ <;> exact hc hc'

/-- A refreshed message has one new name if the record has a URI of the other side, or else none. -/
theorem OneRecord.refresh_iff {c : Conversation} (h : c.OneRecord) {m old : Message}
    (huri : old.uri = m.uri) (hold : c.message? m.uri = some old) :
    (c.put (refresh old m)).OneRecord ↔ ∀ u, m.remoteUri = some u → ¬c.Taken m.uri u := by
  rcases hr : m.remoteUri with - | u
  · have hv : ∀ v, (refresh old m).isKnownAs v = true → old.isKnownAs v = true := by
      intro v hv
      rw [Message.isKnownAs_iff] at hv ⊢
      rw [huri]
      simpa [hr] using hv
    exact iff_of_true (h.put_of_known (m := refresh old m) hold hv) fun u hu ↦ nomatch hu
  · have hu : (refresh old m).isKnownAs u = true :=
      Message.isKnownAs_iff.mpr (Or.inr (by simp [hr]))
    have hv : ∀ v, (refresh old m).isKnownAs v = true → old.isKnownAs v = true ∨ v = u := by
      intro v hv
      rcases Message.isKnownAs_iff.mp hv with hv | hv
      · exact Or.inl (Message.isKnownAs_iff.mpr (Or.inl (huri.trans hv)))
      · exact Or.inr (by simpa [hr, eq_comm] using hv)
    rw [h.put_learning_iff (m := refresh old m) hold hu hv]
    simp

/-- A message without a URI of the other side has that of an absorbed record as its only new name,
any other message has no new name. -/
theorem OneRecord.absorb_iff {c : Conversation} (h : c.OneRecord) {m known : Message}
    (hknown : c.message? known.uri = some known) :
    (c.put (absorb known m)).OneRecord ↔
      ¬(known.remoteUri = none ∧ c.Taken known.uri m.uri) := by
  rcases hr : known.remoteUri with - | w
  · have hu : (absorb known m).isKnownAs m.uri = true :=
      Message.isKnownAs_iff.mpr (Or.inr (by simp [hr]))
    have hv : ∀ v, (absorb known m).isKnownAs v = true →
        known.isKnownAs v = true ∨ v = m.uri := by
      intro v hv
      rcases Message.isKnownAs_iff.mp hv with hv | hv
      · exact Or.inl (Message.isKnownAs_iff.mpr (Or.inl hv))
      · exact Or.inr (by simpa [hr, eq_comm] using hv)
    rw [h.put_learning_iff (m := absorb known m) hknown hu hv]
    simp
  · refine iff_of_true (h.put_of_known (m := absorb known m) hknown fun v hv ↦ ?_) (by simp)
    rw [Message.isKnownAs_iff] at hv ⊢
    simpa [hr] using hv

/-- **One record.** Taking in a record leaves one record per event just if it does not collide. -/
theorem oneRecord_upsert_iff {c : Conversation} (hk : c.Keyed) (h : c.OneRecord) (m : Message) :
    (c.upsert m).1.OneRecord ↔ ¬c.Collides m := by
  have hi := intake_upsert hk m
  generalize c.upsert m = r at hi ⊢
  cases hi with
  | foreign hc => exact iff_of_true h (not_collides_of_foreign hc)
  | refreshed old hc hold =>
    rw [h.refresh_iff (hk.uri_eq hold) hold, collides_iff_of_stored hc hold, not_exists]
    exact forall_congr' fun u ↦ not_and.symm
  | absorbed known hc hnew hfind hknown =>
    rw [h.absorb_iff hknown, collides_iff_of_known hc hnew hfind]
  | added hc hnew hfind hnone =>
    refine iff_of_true ((h.put_iff m).mpr ?_) (not_collides_of_unknown hnew hfind)
    rintro u hu ⟨k, n, -, hn, hnu⟩
    have hsame := Message.sameEvent_iff_exists.mpr ⟨u, hnu, hu⟩
    rw [hnone hn] at hsame
    exact Bool.false_ne_true hsame

/-! ### Actions that deliver no record -/

theorem OneRecord.of_sameNames {c d : Conversation} (h : c.OneRecord) (hs : SameNames c d) :
    d.OneRecord := by
  intro k k' p q hp hq hpq
  obtain ⟨m, hm, hmp⟩ := hs.exists_of_message? hp
  obtain ⟨n, hn, hnq⟩ := hs.exists_of_message? hq
  obtain ⟨u, hpu, hqu⟩ := Message.sameEvent_iff_exists.mp hpq
  rw [← isKnownAs_eq_of_names_eq hmp] at hpu
  rw [← isKnownAs_eq_of_names_eq hnq] at hqu
  exact h k k' m n hm hn (Message.sameEvent_iff_exists.mpr ⟨u, hpu, hqu⟩)

/-- An action that delivers no record keeps one message for an event. -/
theorem OneRecord.perform {c : Conversation} (h : c.OneRecord) {a : Action}
    (ha : a.records = []) : (c.perform a).1.OneRecord :=
  perform_preserves (fun hs h ↦ h.of_sameNames hs.sameNames)
    (fun _ hm _ ↦ absurd hm (ha ▸ List.not_mem_nil))
    (fun p _ h ↦ h.of_sameNames (sameNames_applyPatch _ p))
    (fun h ↦ h.of_sameNames (sameNames_reconcile _))
    (fun h ↦ h.of_sameNames (sameNames_markAllRead _))
    (fun s h ↦ h.of_sameNames (sameNames_applySnapshot _ s)) h

/-! ### Runs -/

theorem run_upserts (l : List Message) :
    ∀ c : Conversation, c.run (l.map .upsert) = (c.upsertAll l).1 := by
  induction l with
  | nil => exact fun _ ↦ rfl
  | cons m l ih => exact fun c ↦ ih (c.upsert m).1

/-- An action may be taken apart into its records. -/
theorem run_singles (c : Conversation) (a : Action) : c.run a.singles = (c.perform a).1 := by
  cases a with
  | upsertAll l => exact run_upserts l c
  | finishMessages l =>
    rw [Action.singles, run_append, run_upserts]
    rfl
  | _ => rfl

/-- A run may be taken apart into single records. -/
theorem run_flatMap_singles (actions : List Action) :
    ∀ c : Conversation, c.run (actions.flatMap Action.singles) = c.run actions := by
  induction actions with
  | nil => exact fun _ ↦ rfl
  | cons a actions ih =>
    intro c
    rw [List.flatMap_cons, run_append, run_singles, ih]
    rfl

/-- **One record per event, exactly.** Taking the batches of a run apart does not change where it
leads; and before and after every record there is one record per event just if no record collides
when it arrives. -/
theorem oneRecord_run_iff (uri : String) (s : Connection) (actions : List Action) :
    (new uri s).run (actions.flatMap Action.singles) = (new uri s).run actions ∧
      ((∀ steps, steps <+: actions.flatMap Action.singles → ((new uri s).run steps).OneRecord) ↔
        ∀ steps m, steps ++ [.upsert m] <+: actions.flatMap Action.singles →
          ¬((new uri s).run steps).Collides m) := by
  refine ⟨run_flatMap_singles actions _, fun h steps m hsteps ↦ ?_, fun h steps ↦ ?_⟩
  · have hbefore := h steps ((List.prefix_append _ _).trans hsteps)
    have hafter := h _ hsteps
    rw [run_concat] at hafter
    exact (oneRecord_upsert_iff (keyed_run uri s steps) hbefore m).mp hafter
  · induction steps using List.reverseRecOn with
    | nil => exact fun _ ↦ oneRecord_new uri s
    | append_singleton steps a ih =>
      intro hsteps
      have hbefore := ih ((List.prefix_append _ _).trans hsteps)
      have hmem : a ∈ actions.flatMap Action.singles := hsteps.mem (by simp)
      obtain ⟨b, -, hab⟩ := List.mem_flatMap.mp hmem
      rw [run_concat]
      -- a step that delivers no record keeps all names, and one record is the case of one step
      rcases Action.isSingle_of_mem_singles hab with ha | ⟨m, rfl⟩
      · exact hbefore.perform ha
      · exact (oneRecord_upsert_iff (keyed_run uri s steps) hbefore m).mpr (h steps m hsteps)

/-- An event is fetched under both its URIs before a record says that they belong together. -/
def lateLink : List Action :=
  [.upsert { uri := "m1", connectionUri := "c" }, .upsert { uri := "r1", connectionUri := "c" },
    .upsert { uri := "m1", connectionUri := "c", remoteUri := some "r1" }]

/-- The link comes too late: both messages are stored, and the record that joins them is merged into
one. -/
theorem not_oneRecord_lateLink : ¬((new "c" .connected).run lateLink).OneRecord := by
  intro h
  have hm : ((new "c" .connected).run lateLink).message? "m1" =
      some { uri := "m1", connectionUri := "c", remoteUri := some "r1" } := rfl
  have hr : ((new "c" .connected).run lateLink).message? "r1" =
      some { uri := "r1", connectionUri := "c" } := rfl
  have heq : "m1" = "r1" := h _ _ _ _ hm hr (by decide)
  exact absurd heq (by decide)

end Conversation

end Parley
