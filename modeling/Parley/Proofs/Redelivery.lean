import Mathlib.Tactic.Tauto
import Parley.Proofs.FullReconciliation

/-!
# Snapshots delivered in any order

A snapshot is delivered by installing it and reconciling with it. What a series of deliveries makes
of the messages depends only on which snapshots were delivered: every visible message ends with the
flags that it had and those that some snapshot of the series raises for it (`Message.raised`). Order
and repetitions show in nothing but the markers.

**Why nothing is skipped.** A delivery looks only at messages without a marker, and which messages
have one depends on the snapshots that came before. But where markers are true (`MarkersHold`), the
messages that are left out have the flags already, so a delivery does to every visible message what
full reconciliation does (`map_unmarked_delivery`).
-/

namespace Parley

/-- The flags that some snapshot of the list raises for a message. -/
def Snapshot.deriveAny (l : List Snapshot) (m : Message) : Status :=
  .ofFn fun f ↦ l.any fun s ↦ s.holds f.category m.uri m.remoteUri

/-- The message with the flags that some snapshot of the list raises for it, if it is visible. -/
def Message.raised (m : Message) (l : List Snapshot) : Message :=
  if m.isVisible then { m with status := m.status.merge (Snapshot.deriveAny l m) } else m

namespace Snapshot

/-- What the first of several snapshots raises is merged with what the others do. -/
theorem deriveAny_cons (s : Snapshot) (l : List Snapshot) (m : Message) :
    deriveAny (s :: l) m = (s.derive m).merge (deriveAny l m) :=
  Status.ext fun f ↦ by simp [deriveAny, derive]

/-- Which flags are raised depends only on which snapshots are listed. -/
theorem deriveAny_congr {l l' : List Snapshot} (h : ∀ s, s ∈ l' ↔ s ∈ l) (m : Message) :
    deriveAny l' m = deriveAny l m := by
  refine Status.ext fun f ↦ ?_
  rw [deriveAny, deriveAny, Status.get_ofFn, Status.get_ofFn, Bool.eq_iff_iff, List.any_eq_true,
    List.any_eq_true]
  exact exists_congr fun s ↦ and_congr_left fun _ ↦ h s

end Snapshot

namespace Message

theorem raised_nil (m : Message) : m.raised [] = m := by
  have hstatus : m.status.merge (Snapshot.deriveAny [] m) = m.status :=
    Status.ext fun f ↦ by simp [Snapshot.deriveAny]
  rw [raised, hstatus]
  split <;> rfl

/-- Raising flags for a list of snapshots is raising them snapshot by snapshot. -/
theorem raised_cons (m : Message) (s : Snapshot) (l : List Snapshot) :
    m.raised (s :: l) = (m.revised s).raised l := by
  cases hv : m.isVisible with
  | false =>
    have hrevised : m.revised s = m := by rw [revised, hv]; rfl
    rw [hrevised, raised, raised, hv]
    rfl
  | true =>
    have hrevised : m.revised s = { m with status := m.reconciled (some s) } := by
      rw [revised, hv]
      rfl
    have hvisible : (m.revised s).isVisible = true := by rw [hrevised]; exact hv
    have hderive : Snapshot.deriveAny l (m.revised s) = Snapshot.deriveAny l m := by
      rw [hrevised]
      rfl
    rw [raised, hv, raised, hvisible, hderive, Snapshot.deriveAny_cons, ← Status.merge_assoc,
      hrevised]
    rfl

/-- What is raised depends on which snapshots there are, not on their order nor on how often they
come. -/
theorem raised_congr {l l' : List Snapshot} (h : ∀ s, s ∈ l' ↔ s ∈ l) (m : Message) :
    m.raised l' = m.raised l := by
  rw [raised, Snapshot.deriveAny_congr h, raised]

/-- Markers have no part in it. -/
theorem unmarked_raised (m : Message) (l : List Snapshot) :
    (m.unmarked.raised l).unmarked = (m.raised l).unmarked := by
  unfold raised
  rw [show m.unmarked.isVisible = m.isVisible from rfl]
  split <;> rfl

end Message

namespace Conversation

/-! ### Deliveries -/

/-- The snapshots are installed one after the other, with a reconciliation after each. -/
def deliveries (l : List Snapshot) : List Action :=
  l.flatMap fun s ↦ [.applySnapshot s, .reconcile]

theorem run_deliveries_cons (c : Conversation) (s : Snapshot) (l : List Snapshot) :
    c.run (deliveries (s :: l)) = (c.applySnapshot s).reconcile.1.run (deliveries l) := rfl

theorem run_deliveries_concat (c : Conversation) (l : List Snapshot) (s : Snapshot) :
    c.run (deliveries (l ++ [s])) = ((c.run (deliveries l)).applySnapshot s).reconcile.1 := by
  rw [deliveries, List.flatMap_append, run_append]
  rfl

/-- **One delivery.** Up to markers, every visible message gets the flags that the snapshot raises
for it, whether it was looked at or not. -/
theorem MarkersHold.map_unmarked_delivery {c : Conversation} (h : c.MarkersHold) (s : Snapshot) :
    (c.applySnapshot s).reconcile.1.messages.map Message.unmarked =
      (c.messages.map (·.revised s)).map Message.unmarked := by
  have hfull : (c.applySnapshot s).reconcile.1.messages.map Message.unmarked =
      ((c.applySnapshot s).messages.map (·.revised s)).map Message.unmarked :=
    congrArg (·.messages) (h.applySnapshot s).unmarked_reconcile
  have hsame : (c.applySnapshot s).messages.map Message.unmarked =
      c.messages.map Message.unmarked := by
    refine OrderedMap.ext fun k ↦ ?_
    rw [OrderedMap.get?_map, OrderedMap.get?_map]
    exact map_unmarked_applySnapshot c s k
  -- installing the snapshot drops markers, which have no part in what is compared
  rw [hfull, ← map_unmarked_map _ (·.unmarked_revised s), hsame,
    map_unmarked_map _ (·.unmarked_revised s)]

/-- One delivery keeps markers true. -/
theorem MarkersHold.delivery {c : Conversation} (h : c.MarkersHold) (s : Snapshot) :
    (c.applySnapshot s).reconcile.1.MarkersHold := (h.applySnapshot s).reconcile

theorem MarkersHold.run_deliveries (l : List Snapshot) :
    ∀ {c : Conversation}, c.MarkersHold → (c.run (deliveries l)).MarkersHold := by
  induction l with
  | nil => exact fun h ↦ h
  | cons s l ih => exact fun h ↦ ih (h.delivery s)

/-- **A series of deliveries.** -/
theorem MarkersHold.map_unmarked_deliveries (l : List Snapshot) :
    ∀ {c : Conversation}, c.MarkersHold →
      (c.run (deliveries l)).messages.map Message.unmarked =
        (c.messages.map (·.raised l)).map Message.unmarked := by
  induction l with
  | nil =>
    intro c _
    simp only [Message.raised_nil]
    refine OrderedMap.ext fun k ↦ ?_
    simp only [OrderedMap.get?_map, Option.map_map]
    rfl
  | cons s l ih =>
    intro c h
    rw [run_deliveries_cons, ih (h.delivery s), ← map_unmarked_map _ (·.unmarked_raised l),
      h.map_unmarked_delivery, map_unmarked_map _ (·.unmarked_raised l)]
    refine congrArg (OrderedMap.map Message.unmarked) (OrderedMap.ext fun k ↦ ?_)
    simp only [OrderedMap.get?_map, Option.map_map, Message.raised_cons]
    rfl

/-- **A list of deliveries** raises, on every visible message, the flags that any of the snapshots
raises. The induction is on the list; that markers are true is what makes a skipped message one that
has them already. -/
theorem MarkersHold.message?_deliveries {c : Conversation} (h : c.MarkersHold)
    (l : List Snapshot) (k : String) :
    ((c.run (deliveries l)).message? k).map Message.unmarked =
      (c.message? k).map fun m ↦ (m.raised l).unmarked := by
  have hk := congrArg (·.get? k) (h.map_unmarked_deliveries l)
  simp only [OrderedMap.get?_map, Option.map_map] at hk
  exact hk

/-! ### The last snapshot once more -/

/-- A snapshot that is there already changes no message when it is installed again. -/
theorem messages_applySnapshot_self {c : Conversation} {s : Snapshot}
    (h : c.agreement.data = some s) : (c.applySnapshot s).messages = c.messages :=
  messages_applySnapshot_of_subset h fun _ _ hu ↦ hu

/-- Where everything is up to date, reconciling does nothing. -/
theorem reconcile_of_unreconciled_eq_nil {c : Conversation} (h : c.unreconciled = []) :
    c.reconcile = (c, 0) := by
  rcases hs : c.agreement.data with - | s
  · exact reconcile_of_none hs
  · have hnone : Patch.forMessages c.messageList (some s) = c.unreconciled.map (Patch.of s) := rfl
    rw [reconcile, hs, hnone, h]
    rfl

/-- **Order and repetitions do not matter.** Let snapshots be delivered to a conversation that a run
without markers from outside has reached. Every message stays under its key and ends with the flags
that it had and, if it is visible, with those that some delivered snapshot raises for it; nothing
else about it changes but its marker. Any other series of the same snapshots leads to the same, and
when the last snapshot is delivered once more there is nothing to reconcile. -/
theorem messages_run_deliveries (uri : String) (s : Connection) {actions : List Action}
    (h : ∀ a ∈ actions, a.BringsNoMarker) {c : Conversation} (hc : (new uri s).run actions = c)
    (l : List Snapshot) :
    (∀ k, ((c.run (deliveries l)).message? k).map Message.unmarked =
        (c.message? k).map fun m ↦ (m.raised l).unmarked) ∧
      (∀ l' : List Snapshot, (∀ t, t ∈ l' ↔ t ∈ l) →
        ∀ k, ((c.run (deliveries l')).message? k).map Message.unmarked =
          ((c.run (deliveries l)).message? k).map Message.unmarked) ∧
      ∀ t, l.getLast? = some t → ((c.run (deliveries l)).applySnapshot t).reconcile.2 = 0 := by
  have hmarkers : c.MarkersHold := hc ▸ markersHold_run uri s h
  refine ⟨hmarkers.message?_deliveries l, fun l' hl k ↦ ?_, fun t ht ↦ ?_⟩
  · rw [hmarkers.message?_deliveries l' k, hmarkers.message?_deliveries l k]
    exact congrArg (Option.map · (c.message? k)) (funext fun m ↦ by rw [m.raised_congr hl])
  · obtain ⟨l₀, rfl⟩ := List.getLast?_eq_some_iff.mp ht
    have hbefore : (c.run (deliveries l₀)).MarkersHold := hmarkers.run_deliveries l₀
    have hdata : (c.run (deliveries (l₀ ++ [t]))).agreement.data = some t := by
      rw [run_deliveries_concat, agreement_reconcile]
      rfl
    -- the first delivery of `t` leaves nothing to reconcile, and the second one drops no marker
    have hdone : (c.run (deliveries (l₀ ++ [t]))).unreconciled = [] := by
      rw [run_deliveries_concat]
      exact (hbefore.applySnapshot t).toKeyed.unreconciled_reconcile rfl
    have hagain : ((c.run (deliveries (l₀ ++ [t]))).applySnapshot t).unreconciled = [] := by
      rw [unreconciled, messageList, messages_applySnapshot_self hdata]
      exact hdone
    rw [reconcile_of_unreconciled_eq_nil hagain]

/-- A message that is known under two URIs and reconciled with a snapshot that proposes it. -/
def proposedRun : List Action :=
  [.upsert { uri := "m", connectionUri := "c", remoteUri := some "r" },
    .applySnapshot { proposedMessages := .ofList ["m"] }, .reconcile]

/-- The message moves from one category to another under its other URI, and back. -/
def movingSnapshots : List Snapshot :=
  [{ agreements := .ofList ["m"] }, { rejectedMessages := .ofList ["r"] },
    { agreements := .ofList ["m"] }]

/-- The message collects the flags of all the categories it has been in. The first delivery may be
left out, since the last one repeats it. -/
theorem messages_run_deliveries_moving :
    (∀ a ∈ proposedRun, a.BringsNoMarker) ∧
      (((new "c" .connected).run proposedRun).run (deliveries movingSnapshots)).message? "m" =
        some { uri := "m", connectionUri := "c", remoteUri := some "r",
               status := .ofFlags [.proposed, .accepted, .rejected], upToDate := true } ∧
      (∀ t, movingSnapshots.getLast? = some t →
        ((((new "c" .connected).run proposedRun).run (deliveries movingSnapshots)).applySnapshot
          t).reconcile.2 = 0) ∧
      (∀ k, ((((new "c" .connected).run proposedRun).run
          (deliveries movingSnapshots.tail)).message? k).map Message.unmarked =
        ((((new "c" .connected).run proposedRun).run (deliveries movingSnapshots)).message? k).map
          Message.unmarked) := by
  have h : ∀ a ∈ proposedRun, a.BringsNoMarker := by
    simp [proposedRun, Action.BringsNoMarker, Action.records]
  obtain ⟨-, hsame, hlast⟩ := messages_run_deliveries "c" .connected h rfl movingSnapshots
  have hmem : ∀ t, t ∈ movingSnapshots.tail ↔ t ∈ movingSnapshots := by
    intro t
    simp only [movingSnapshots, List.tail_cons, List.mem_cons, List.not_mem_nil, or_false]
    tauto
  exact ⟨h, by decide +kernel, hlast, hsame _ hmem⟩

end Conversation

end Parley
