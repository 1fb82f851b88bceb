import Mathlib.Data.List.Induction
import Parley.Proofs.Markers

/-!
# Marker-driven against full reconciliation

`Conversation.reconcile` looks only at messages without a marker. The machine here does without
markers: its `reconcileFully` gives every visible message the status that the snapshot makes of it.
As long as no marker is brought in from outside, no run tells the two machines apart, except by the
markers themselves.

**The relation.** Two conversations are compared after their markers are taken away (`unmarked`). No
action but reconciling reads a marker for anything else than to set markers (`observe_perform`), so
both machines keep step there. Where they reconcile, a marked message is skipped by one machine and
revised by the other, and revising it changes nothing because its marker is true (`MarkersHold`).
-/

namespace Parley

/-- The message without its marker. -/
def Message.unmarked (m : Message) : Message := { m with upToDate := false }

/-- The message with the status that a snapshot makes of it, if it is visible. -/
def Message.revised (m : Message) (s : Snapshot) : Message :=
  if m.isVisible then { m with status := m.reconciled (some s) } else m

/-- Revising a message does not look at its marker. -/
theorem Message.unmarked_revised (m : Message) (s : Snapshot) :
    (m.unmarked.revised s).unmarked = (m.revised s).unmarked := by
  unfold revised
  rw [show m.unmarked.isVisible = m.isVisible from rfl]
  split <;> rfl

namespace Conversation

/-! ### The machine without markers -/

/-- Revises every visible message, whatever its marker says; without a snapshot nothing happens. -/
def reconcileFully (c : Conversation) : Conversation :=
  match c.agreement.data with
  | some s => c.withMessages (c.messages.map (·.revised s))
  | none => c

/-- The conversation after an action, and the answer, on the machine that reconciles fully. -/
def performFully (c : Conversation) : Action → Conversation × Outcome
  | .reconcile => (c.reconcileFully, .done)
  | a => c.perform a

/-- The conversation after some actions on the machine that reconciles fully. -/
def runFully (c : Conversation) (actions : List Action) : Conversation :=
  actions.foldl (fun c a ↦ (c.performFully a).1) c

theorem performFully_of_ne {a : Action} (h : a ≠ .reconcile) (c : Conversation) :
    c.performFully a = c.perform a := by
  cases a <;> first | rfl | exact absurd rfl h

theorem runFully_concat (c : Conversation) (actions : List Action) (a : Action) :
    c.runFully (actions ++ [a]) = ((c.runFully actions).performFully a).1 := List.foldl_append

/-! ### Conversations without markers -/

/-- The conversation with every marker taken away. -/
def unmarked (c : Conversation) : Conversation := c.withMessages (c.messages.map Message.unmarked)

/-- What is left of an answer and its conversation when markers are taken away. -/
def observe {α : Type} (r : Conversation × α) : Conversation × α := (r.1.unmarked, r.2)

/-- Observations are equal if conversations agree up to markers and the answers agree. -/
theorem observe_eq_iff {α : Type} {r r' : Conversation × α} :
    observe r = observe r' ↔ r.1.unmarked = r'.1.unmarked ∧ r.2 = r'.2 := Prod.ext_iff

/-- Taking markers away changes what is listed and not the order. -/
theorem messageList_unmarked (c : Conversation) :
    c.unmarked.messageList = c.messageList.map Message.unmarked := c.messages.values_map _

/-- Other messages in place of those of `c.unmarked` are other messages in place of those of `c`. -/
theorem unmarked_withMessages {c : Conversation} {ms ns : OrderedMap Message}
    (h : ms.map Message.unmarked = ns.map Message.unmarked) :
    (c.unmarked.withMessages ms).unmarked = (c.withMessages ns).unmarked :=
  congrArg c.withMessages h

theorem map_unmarked_unmarked (ms : OrderedMap Message) :
    (ms.map Message.unmarked).map Message.unmarked = ms.map Message.unmarked := by
  refine OrderedMap.ext fun k ↦ ?_
  simp only [OrderedMap.get?_map, Option.map_map]
  rfl

theorem unmarked_unmarked (c : Conversation) : c.unmarked.unmarked = c.unmarked :=
  congrArg c.withMessages (map_unmarked_unmarked c.messages)

/-- A change of one message that reads no marker but to set one may be made before or after the
markers are taken away. -/
theorem map_unmarked_modify (ms : OrderedMap Message) (k : String) {f : Message → Message}
    (hf : ∀ m : Message, (f m.unmarked).unmarked = (f m).unmarked) :
    ((ms.map Message.unmarked).modify k f).map Message.unmarked =
      (ms.modify k f).map Message.unmarked := by
  refine OrderedMap.ext fun k' ↦ ?_
  simp only [OrderedMap.get?_map, OrderedMap.get?_modify, Option.map_map]
  refine congrArg (Option.map · (ms.get? k')) (funext fun m ↦ ?_)
  by_cases hk : k' = k
  · simpa [hk] using hf m
  · simp [hk, Message.unmarked]

/-- A change of every message that does not look at markers may be made before or after they are
taken away. -/
theorem map_unmarked_map (ms : OrderedMap Message) {f : Message → Message}
    (hf : ∀ m : Message, (f m.unmarked).unmarked = (f m).unmarked) :
    ((ms.map Message.unmarked).map f).map Message.unmarked = (ms.map f).map Message.unmarked := by
  refine OrderedMap.ext fun k ↦ ?_
  simp only [OrderedMap.get?_map, Option.map_map]
  exact congrArg (Option.map · (ms.get? k)) (funext hf)

theorem contains_map_unmarked (ms : OrderedMap Message) (k : String) :
    (ms.map Message.unmarked).contains k = ms.contains k := by
  rw [OrderedMap.contains, OrderedMap.get?_map, Option.isSome_map]
  rfl

/-! ### No other action reads a marker -/

/-- **One record** is taken in alike with markers and without: which of the merges it is depends on
URIs, and what they leave depends on the marker in the marker alone. -/
theorem observe_upsert (c : Conversation) (m : Message) :
    observe (c.unmarked.upsert m) = observe (c.upsert m) := by
  have hcont : c.unmarked.messages.contains m.uri = c.messages.contains m.uri :=
    contains_map_unmarked c.messages m.uri
  have hfind : c.unmarked.messageList.find? (·.sameEvent m) =
      (c.messageList.find? (·.sameEvent m)).map Message.unmarked := by
    rw [messageList_unmarked, List.find?_map]
    rfl
  unfold upsert
  rw [hcont, hfind]
  by_cases hc : m.connectionUri ≠ c.uri
  · rw [if_pos hc, if_pos (show m.connectionUri ≠ c.unmarked.uri from hc)]
    exact Prod.ext c.unmarked_unmarked rfl
  · rw [if_neg hc, if_neg (show ¬m.connectionUri ≠ c.unmarked.uri from hc)]
    -- either way the record is merged with the same message, and its marker is only kept or dropped
    split
    · exact Prod.ext (unmarked_withMessages (map_unmarked_modify _ _ fun _ ↦ rfl)) rfl
    · cases c.messageList.find? (·.sameEvent m) with
      | none =>
        refine Prod.ext (unmarked_withMessages (OrderedMap.ext fun k ↦ ?_)) rfl
        simp only [OrderedMap.get?_map, OrderedMap.get?_insert, unmarked, messages_withMessages]
        split
        · rfl
        · rw [Option.map_map]
          rfl
      | some known =>
        exact Prod.ext (unmarked_withMessages (map_unmarked_modify _ _ fun _ ↦ rfl)) rfl

/-- What does not see markers treats conversations alike that differ only in markers. -/
theorem observe_congr {α : Type} {f : Conversation → Conversation × α}
    (hf : ∀ c, observe (f c.unmarked) = observe (f c)) {c d : Conversation}
    (h : c.unmarked = d.unmarked) : observe (f c) = observe (f d) := by
  rw [← hf c, h, hf d]

theorem observe_upsertAll (l : List Message) :
    ∀ c : Conversation, observe (c.unmarked.upsertAll l) = observe (c.upsertAll l) := by
  induction l with
  | nil => exact fun c ↦ Prod.ext c.unmarked_unmarked rfl
  | cons m l ih =>
    intro c
    have hstep := observe_upsert c m
    have hrest := observe_congr (f := (·.upsertAll l)) ih (congrArg Prod.fst hstep)
    obtain ⟨hfst, hcount⟩ := observe_eq_iff.mp hrest
    refine observe_eq_iff.mpr ⟨hfst, ?_⟩
    rw [snd_upsertAll_cons, hcount, (observe_eq_iff.mp hstep).2, snd_upsertAll_cons]

/-- A patch sets flags and the marker, so up to markers it does not matter what markers there
were. -/
theorem observe_applyPatch (c : Conversation) (p : Patch) :
    observe (c.unmarked.applyPatch p) = observe (c.applyPatch p) := by
  have hcont : c.unmarked.messages.contains p.messageUri = c.messages.contains p.messageUri :=
    contains_map_unmarked c.messages p.messageUri
  unfold applyPatch
  rw [hcont]
  split
  · exact Prod.ext (unmarked_withMessages (map_unmarked_modify _ _ fun _ ↦ rfl)) rfl
  · exact Prod.ext c.unmarked_unmarked rfl

/-- Reading everything looks at no marker, neither for what it changes nor for what it answers. -/
theorem observe_markAllRead (c : Conversation) :
    observe c.unmarked.markAllRead = observe c.markAllRead := by
  refine Prod.ext (unmarked_withMessages (map_unmarked_map _ fun _ ↦ rfl)) ?_
  show (c.unmarked.messageList.filter (·.unread)).length = (c.messageList.filter (·.unread)).length
  rw [messageList_unmarked, List.filter_map, List.length_map]
  rfl

/-- A change of the connection has nothing to do with markers. -/
theorem unmarked_setConnection (c : Conversation) (s : Connection) :
    (c.unmarked.setConnection s).unmarked = (c.setConnection s).unmarked := by
  have hms : c.unmarked.messages.map Message.unmarked = c.messages.map Message.unmarked :=
    map_unmarked_unmarked c.messages
  unfold setConnection
  split
  · rename_i hs
    rw [if_pos (show s = c.connection from hs)]
    exact c.unmarked_unmarked
  · rename_i hs
    rw [if_neg (show s ≠ c.connection from hs)]
    split
    · exact congrArg (withMessages _) hms
    · exact congrArg (withMessages _) hms

theorem unmarked_failMessages (c : Conversation) :
    c.unmarked.failMessages.unmarked = c.failMessages.unmarked := by
  have hempty : c.unmarked.isEmpty = c.isEmpty := List.isEmpty_map
  rw [failMessages, hempty]
  exact congrArg (withMessages c.failMessages) (map_unmarked_unmarked c.messages)

/-- A new snapshot clears markers, which without markers is nothing to do. -/
theorem unmarked_applySnapshot (c : Conversation) (s : Snapshot) :
    (c.unmarked.applySnapshot s).unmarked = (c.applySnapshot s).unmarked := by
  have hdata : c.unmarked.agreement.data = c.agreement.data := rfl
  rcases hprior : c.agreement.data with - | prior
  · rw [applySnapshot_of_none hprior, applySnapshot_of_none (hdata.trans hprior)]
    exact congrArg (withMessages _) (map_unmarked_unmarked c.messages)
  · unfold applySnapshot
    rw [hdata, hprior]
    refine congrArg (withMessages { c with agreement := c.agreement.install s })
      (map_unmarked_map c.messages fun m ↦ ?_)
    unfold invalidate
    rw [show isMentioned _ m.unmarked = isMentioned _ m from rfl]
    split <;> rfl

/-- Installing a snapshot changes markers only. -/
theorem map_unmarked_applySnapshot (c : Conversation) (s : Snapshot) (k : String) :
    ((c.applySnapshot s).message? k).map Message.unmarked =
      (c.message? k).map Message.unmarked := by
  rcases h : c.agreement.data with - | prior
  · rw [applySnapshot_of_none h]
    rfl
  · rw [message?_applySnapshot h, Option.map_map]
    refine congrArg (Option.map · (c.message? k)) (funext fun m ↦ ?_)
    rw [Function.comp_apply, invalidate]
    split <;> rfl

/-- **Only reconciling reads markers.** -/
theorem observe_perform {a : Action} (ha : a ≠ .reconcile) (c : Conversation) :
    observe (c.unmarked.perform a) = observe (c.perform a) := by
  cases a with
  | reconcile => exact absurd rfl ha
  | setConnection s => exact Prod.ext (c.unmarked_setConnection s) rfl
  | upsert m => exact congrArg (Prod.map id Outcome.flag) (c.observe_upsert m)
  | upsertAll l => exact congrArg (Prod.map id Outcome.count) (observe_upsertAll l c)
  | applyPatch p => exact congrArg (Prod.map id Outcome.flag) (c.observe_applyPatch p)
  | markAllRead => exact congrArg (Prod.map id Outcome.count) c.observe_markAllRead
  | finishMessages l =>
    obtain ⟨hfst, hcount⟩ := observe_eq_iff.mp (observe_upsertAll l c)
    refine observe_eq_iff.mpr ⟨?_, congrArg Outcome.count hcount⟩
    exact congrArg (fun d : Conversation ↦ { d with loading := .loaded }) hfst
  | failMessages f => exact Prod.ext c.unmarked_failMessages rfl
  | applySnapshot s => exact Prod.ext (c.unmarked_applySnapshot s) rfl
  | setRemoteNeed _ | beginMessages | markExhausted | beginSnapshot | failSnapshot _
  | beginPetriNet | applyPetriNet _ | failPetriNet _ =>
    refine observe_eq_iff.mpr ⟨?_, rfl⟩
    exact congrArg (withMessages _) (map_unmarked_unmarked c.messages)

/-! ### Reconciling -/

/-- Reconciling fully does not look at markers. That is the point of it. -/
theorem unmarked_reconcileFully (c : Conversation) :
    c.unmarked.reconcileFully.unmarked = c.reconcileFully.unmarked := by
  have hdata : c.unmarked.agreement.data = c.agreement.data := rfl
  unfold reconcileFully
  rw [hdata]
  split
  · exact unmarked_withMessages (map_unmarked_map c.messages (·.unmarked_revised _))
  · exact c.unmarked_unmarked

/-- What reconciling makes of a message is what revising makes of it, up to the marker: it is not
visible, or it is settled, or its marker says that nothing is to be done. -/
theorem MarkerHolds.unmarked_revised {c : Conversation} {s : Snapshot}
    (hs : c.agreement.data = some s) {m : Message} (h : c.MarkerHolds m) :
    (if m.isVisible && !m.upToDate then m.settled s else m).unmarked = (m.revised s).unmarked := by
  unfold Message.revised
  cases hv : m.isVisible with
  | false => rfl
  | true =>
    cases hmark : m.upToDate with
    | false => rfl
    | true =>
      obtain ⟨t, ht, hstatus⟩ := h hmark
      obtain rfl : s = t := Option.some.inj (hs.symm.trans ht)
      rw [hstatus]
      rfl

/-- **Skipping is sound.** Where markers are true, the messages that `reconcile` leaves out are
those that `reconcileFully` revises in vain. -/
theorem MarkersHold.unmarked_reconcile {c : Conversation} (h : c.MarkersHold) :
    c.reconcile.1.unmarked = c.reconcileFully.unmarked := by
  rcases hs : c.agreement.data with - | s
  · rw [Conversation.reconcile_of_none hs, reconcileFully, hs]
  · obtain ⟨ms, hms⟩ := exists_applyPatches_eq (Patch.forMessages c.messageList (some s)) c
    have hrec : c.reconcile.1 = c.withMessages ms := by rw [Conversation.reconcile, hs, hms]
    have hget := message?_reconcile h.toKeyed hs
    rw [hrec] at hget
    rw [reconcileFully, hs, hrec]
    refine congrArg c.withMessages (OrderedMap.ext fun k ↦ ?_)
    rw [OrderedMap.get?_map, OrderedMap.get?_map, messages_withMessages, messages_withMessages,
      OrderedMap.get?_map, show ms.get? k = _ from hget k]
    rcases hk : c.message? k with - | m
    · rw [show c.messages.get? k = none from hk]
      rfl
    · rw [show c.messages.get? k = some m from hk]
      exact congrArg some ((h.holds hk).unmarked_revised hs)

/-! ### Runs in step -/

/-- **One step.** Conversations that differ in markers, those of the first being true, still do so
after an action of both machines, and the answers are the same unless they count patches. -/
theorem MarkersHold.perform_agrees {c d : Conversation} (h : c.MarkersHold)
    (hcd : c.unmarked = d.unmarked) (a : Action) :
    (c.perform a).1.unmarked = (d.performFully a).1.unmarked ∧
      (a ≠ .reconcile → (c.perform a).2 = (d.performFully a).2) := by
  by_cases ha : a = .reconcile
  · subst ha
    refine ⟨?_, fun hne ↦ absurd rfl hne⟩
    show c.reconcile.1.unmarked = d.reconcileFully.unmarked
    rw [h.unmarked_reconcile, ← unmarked_reconcileFully, hcd, unmarked_reconcileFully]
  · rw [performFully_of_ne ha]
    have hobs := observe_congr (f := (·.perform a)) (observe_perform ha) hcd
    obtain ⟨hfst, hsnd⟩ := observe_eq_iff.mp hobs
    exact ⟨hfst, fun _ ↦ hsnd⟩

/-- **Markers only save work.** If no action of a run brings in a marker from outside, marker-driven
and full reconciliation lead to conversations that differ in markers at most, every action that does
not reconcile is answered alike there, and a message is marked only if there is a snapshot and the
status of the message takes it into account. -/
theorem run_agrees_runFully (uri : String) (s : Connection) (actions : List Action)
    (h : ∀ a ∈ actions, a.BringsNoMarker) :
    ((new uri s).run actions).unmarked = ((new uri s).runFully actions).unmarked ∧
      (∀ a, a ≠ .reconcile →
        (((new uri s).run actions).perform a).2 =
          (((new uri s).runFully actions).performFully a).2) ∧
      ∀ k m, ((new uri s).run actions).message? k = some m → m.upToDate = true →
        ∃ t, ((new uri s).run actions).agreement.data = some t ∧
          m.reconciled (some t) = m.status := by
  have hrun : ((new uri s).run actions).unmarked = ((new uri s).runFully actions).unmarked := by
    induction actions using List.reverseRecOn with
    | nil => rfl
    | append_singleton actions a ih =>
      have hinit : ∀ b ∈ actions, b.BringsNoMarker :=
        fun b hb ↦ h b (List.mem_append_left _ hb)
      rw [run_concat, runFully_concat]
      -- the markers of the first machine are true before the step, so it loses nothing by them
      exact ((markersHold_run uri s hinit).perform_agrees (ih hinit) a).1
  have hmarkers := markersHold_run uri s h
  exact ⟨hrun, fun a ha ↦ (hmarkers.perform_agrees hrun a).2 ha, fun k m ↦ hmarkers.holds⟩

/-- A message is reconciled, learns the URI of the other side, which drops its marker, and is
reconciled again. -/
def aliasRun : List Action :=
  [.upsert { uri := "m", connectionUri := "c" },
    .applySnapshot { agreements := .ofList ["r"] }, .reconcile,
    .upsert { uri := "r", connectionUri := "c", remoteUri := some "m" }, .reconcile]

/-- The run is without marked records, so the machines agree on it; both ends are spelled out, with
the flag raised under the alias. -/
theorem run_agrees_runFully_aliasRun :
    (∀ a ∈ aliasRun, a.BringsNoMarker) ∧
      ((new "c" .connected).run aliasRun).unmarked =
        ((new "c" .connected).runFully aliasRun).unmarked ∧
      ((new "c" .connected).run aliasRun).message? "m" =
        some { uri := "m", connectionUri := "c", remoteUri := some "r",
               status := .ofFlags [.accepted], upToDate := true } := by
  have h : ∀ a ∈ aliasRun, a.BringsNoMarker := by
    simp [aliasRun, Action.BringsNoMarker, Action.records]
  exact ⟨h, (run_agrees_runFully "c" .connected aliasRun h).1, by decide +kernel⟩

end Conversation

end Parley
