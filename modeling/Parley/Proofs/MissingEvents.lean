import Parley.Proofs.Fetching
import Parley.Proofs.Growth
import Parley.Proofs.History

/-!
# The events that a refresh looks up

A refresh of the agreements looks up the URIs that the new snapshot mentions and the conversation
does not know (`Conversation.mem_missing_iff`), each once and in increasing order, and takes in the
records that are found. How a single look-up goes, and what a fault leads to, `Resolution` says.

**Faults stay where they are.** A look-up that fails costs the refresh one record and nothing else.
Where the answer to a look-up depends on the URI alone, this can be said without a source: the
records are those of `Sync.resolved`, which does not even tell one fault from another
(`Sync.received_fetchEvents`).
-/

namespace Parley

namespace Conversation

variable {c : Conversation}

/-! ### What is missing -/

theorem Keyed.containsEvent_eq_false_iff (hc : c.Keyed) {u : String} :
    c.containsEvent u = false ↔ ∀ m ∈ c.messageList, m.isKnownAs u = false := by
  rw [← Bool.not_eq_true, hc.containsEvent_iff]
  constructor
  · intro hnot m hm
    obtain ⟨k, hk⟩ := mem_messageList.mp hm
    exact (Bool.not_eq_true _).mp fun hu ↦ hnot ⟨k, m, hk, hu⟩
  · rintro hall ⟨k, m, hk, hu⟩
    exact Bool.false_ne_true ((hall m (mem_messageList.mpr ⟨k, hk⟩)).symm.trans hu)

/-- A snapshot that is fetched changes no name. -/
theorem sameNames_fetched (c : Conversation) (t : Snapshot) :
    SameNames c (c.beginSnapshot.applySnapshot t) := by
  have hbegin : SameNames c c.beginSnapshot := ⟨rfl, fun _ ↦ rfl⟩
  exact hbegin.trans (sameNames_applySnapshot c.beginSnapshot t)

/-- **What is missing** was so before the snapshot came. -/
theorem mem_missing_iff (hc : c.Keyed) (t : Snapshot) {u : String} :
    u ∈ (c.beginSnapshot.applySnapshot t).missing t ↔
      u ∈ t.allUris ∧ ∀ m ∈ c.messageList, m.isKnownAs u = false := by
  rw [missing, List.mem_filter, UriSet.mem_toList, (sameNames_fetched c t).containsEvent_eq hc,
    Bool.not_eq_true', hc.containsEvent_eq_false_iff]

/-- The missing events are listed in the order of their URIs, each once. -/
theorem pairwise_missing (c : Conversation) (t : Snapshot) :
    (c.missing t).Pairwise (· < ·) := t.allUris.sorted.filter _

theorem size_applySnapshot (c : Conversation) (t : Snapshot) :
    (c.applySnapshot t).size = c.size := by
  rw [size, applySnapshot]
  cases c.agreement.data with
  | none => rfl
  | some prior => exact List.length_map _

end Conversation

namespace Sync

open Conversation

variable {σ : Type} {y : Sync σ} {c : Conversation}

/-! ### Single look-ups -/

/-- What an event resolves to is no own echo. -/
theorem Resolution.isOwnEcho_eq_false {need uri : String} {t : List Exchange} {m : Message}
    (h : Resolution need uri t (.ok m)) : m.isOwnEcho need = false := by
  cases h with
  | found h => exact h
  | second _ _ _ ha =>
    cases ha with
    | found h => exact h

theorem isOwnEcho_eq_false_of_fetchEvent {uri : String} {s : σ} {m : Message}
    (h : ((y.fetchEvent uri).run s).1 = .ok m) : m.isOwnEcho y.ownedNeed = false := by
  obtain ⟨t, -, -, ht⟩ := transcribes_fetchEvent id y uri s []
  rw [h] at ht
  exact ht.isOwnEcho_eq_false

/-- The record of the event `uri` where `find` finds records by their URI. An own echo leads to the
record under its other URI. -/
def resolved (need : String) (find : String → Option Message) (uri : String) : Option Message :=
  (find uri).bind fun m ↦
    if m.isOwnEcho need then
      m.remoteUri.bind fun remote ↦
        if remote = uri then none else (find remote).filter fun n ↦ !n.isOwnEcho need
    else some m

variable {find : String → Answer Message}

/-- If the source answers by URI and in no other way, an event is fetched as `resolved` says. -/
theorem run_fetchEvent_of_find (hfind : ∀ u s, (y.source.message y.ownedNeed u).run s = (find u, s))
    (uri : String) (s : σ) :
    ∃ answer, (y.fetchEvent uri).run s = (answer, s) ∧
      answer.toOption = resolved y.ownedNeed (fun u ↦ (find u).toOption) uri := by
  rw [fetchEvent, run_bind, hfind, resolved]
  rcases find uri with f | m
  · exact ⟨.error f, rfl, rfl⟩
  dsimp only [Except.toOption, Option.bind_some]
  split
  · rcases m.remoteUri with - | remote
    · exact ⟨_, rfl, rfl⟩
    dsimp only [Option.bind_some]
    split
    · exact ⟨_, rfl, rfl⟩
    · rw [fetchEvent.second, run_bind, hfind]
      rcases find remote with f | n
      · exact ⟨.error f, rfl, rfl⟩
      dsimp only
      cases hecho : n.isOwnEcho y.ownedNeed with
      | false => exact ⟨.ok n, rfl, (Option.filter_eq_some_iff.mpr ⟨rfl, by simp [hecho]⟩).symm⟩
      | true =>
        have hnone : (some n).filter (fun n ↦ !n.isOwnEcho y.ownedNeed) = none := by simp [hecho]
        rw [if_pos rfl]
        split <;> exact ⟨_, rfl, hnone.symm⟩
  · exact ⟨.ok m, rfl, rfl⟩

/-- **Faults stay where they are.** Where the answer to a look-up depends on the URI alone, the
records that are taken in do not depend on what the faults are. -/
theorem received_fetchEvents (hfind : ∀ u s, (y.source.message y.ownedNeed u).run s = (find u, s))
    (uris : List String) (s : σ) :
    received ((y.fetchEvents uris).run s).1 =
      uris.filterMap (resolved y.ownedNeed fun u ↦ (find u).toOption) := by
  induction uris with
  | nil => rfl
  | cons uri uris ih =>
    obtain ⟨answer, hrun, hanswer⟩ := run_fetchEvent_of_find hfind uri s
    have hcons : ((y.fetchEvents (uri :: uris)).run s).1 =
        answer :: ((y.fetchEvents uris).run s).1 := by
      rw [fetchEvents, List.mapM_cons, run_bind, hrun]
      rfl
    rw [hcons, received, List.filterMap_cons, List.filterMap_cons, hanswer, ← ih]
    rfl

/-! ### The refresh -/

/-- A recorded source answers as the source does, and notes the exchange. -/
theorem run_recorded_agreement {s s' : σ} {a : Answer Response} {connection : String}
    (hr : (y.source.agreement connection).run s = (a, s')) (t : List Exchange) :
    (y.recorded.source.agreement connection).run (s, t) =
      (a, (s', t ++ [.agreement connection a])) := by
  obtain rfl : ((y.source.agreement connection).run s).1 = a := congrArg Prod.fst hr
  obtain rfl : ((y.source.agreement connection).run s).2 = s' := congrArg Prod.snd hr
  rfl

/-- A refresh takes in what the look-ups of the missing events find. -/
theorem run_refreshAgreement_of_fetchEvents {force : Bool} (hdue : c.needsAgreement force = true)
    {s s' s'' : σ} {response : Response}
    (hr : (y.source.agreement c.uri).run s = (.ok response, s')) {d : Conversation}
    (hd : c.beginSnapshot.applySnapshot response.snapshot = d) {answers : List (Answer Message)}
    (ha : (y.fetchEvents (d.missing response.snapshot)).run s' = (answers, s'')) :
    (y.refreshAgreement c force).run s = ((d.upsertAll (received answers)).map id .ok, s'') := by
  subst hd
  exact (run_refreshAgreement hdue hr).trans (congrArg (fun r ↦ (Prod.map id Except.ok
    ((c.beginSnapshot.applySnapshot response.snapshot).upsertAll (received r.1)), r.2)) ha)

/-- **A refresh looks up what is missing**, and takes in what it finds. The URIs that it looks up
are those that the snapshot mentions and no message is known by, each once and in increasing order.
It answers without a fault, whatever becomes of the look-ups, and counts by how many messages the
conversation grows. Where the answer to a look-up depends on the URI alone, it does not depend on
what the faults are what becomes of the conversation. -/
theorem refreshAgreement_looks_up {uri : String} {st : Connection} {actions : List Action}
    (hc : (new uri st).run actions = c) {force : Bool} (hdue : c.needsAgreement force = true)
    {s s' : σ} {response : Response}
    (hr : (y.source.agreement c.uri).run s = (.ok response, s')) {d : Conversation}
    (hd : c.beginSnapshot.applySnapshot response.snapshot = d) {answers : List (Answer Message)}
    (ha : ((y.fetchEvents (d.missing response.snapshot)).run s').1 = answers) :
    (∀ u, u ∈ d.missing response.snapshot ↔
        u ∈ response.snapshot.allUris ∧ ∀ m ∈ c.messageList, m.isKnownAs u = false) ∧
      (d.missing response.snapshot).Pairwise (· < ·) ∧
      (∃ t e n s'', Lookups y.ownedNeed (d.missing response.snapshot) t answers ∧
        (y.refreshAgreement c force).run s = ((e, .ok n), s'') ∧
        (y.recorded.refreshAgreement c force).run (s, []) =
          ((e, .ok n), (s'', .agreement c.uri (.ok response) :: t)) ∧
        e = (d.upsertAll (received answers)).1 ∧ e.size = c.size + n) ∧
      (∀ find : String → Answer Message,
        (∀ u s, (y.source.message y.ownedNeed u).run s = (find u, s)) →
          received answers = (d.missing response.snapshot).filterMap
            (resolved y.ownedNeed fun u ↦ (find u).toOption)) ∧
      (∀ u, Transcribes y.source id (y.fetchEvent u) (y.recorded.fetchEvent u)
        (Resolution y.ownedNeed u)) ∧
      ∀ u s m, ((y.fetchEvent u).run s).1 = .ok m → m.isOwnEcho y.ownedNeed = false := by
  have hkeyed : c.Keyed := hc ▸ keyed_run uri st actions
  have hkeyed' : d.Keyed := hd ▸ (sameNames_fetched c _).keyed hkeyed
  refine ⟨fun u ↦ hd ▸ mem_missing_iff hkeyed response.snapshot, pairwise_missing _ _, ?_,
    fun find hfind ↦ ha ▸ received_fetchEvents hfind _ s', transcribes_fetchEvent id y,
    fun u s m ↦ isOwnEcho_eq_false_of_fetchEvent⟩
  rcases hlook : (y.fetchEvents (d.missing response.snapshot)).run s' with ⟨answers', s''⟩
  obtain rfl : answers' = answers := (congrArg Prod.fst hlook).symm.trans ha
  obtain ⟨t, hrun, -, ht⟩ := transcribes_fetchEvents id y (d.missing response.snapshot) s'
    [.agreement c.uri (.ok response)]
  rw [hlook, List.map_id] at hrun
  rw [hlook] at ht
  refine ⟨t, _, _, s'', ht, run_refreshAgreement_of_fetchEvents hdue hr hd hlook,
    run_refreshAgreement_of_fetchEvents hdue (run_recorded_agreement hr []) hd hrun, rfl, ?_⟩
  have hsize : d.size = c.size := hd ▸ size_applySnapshot c.beginSnapshot response.snapshot
  rw [← hsize]
  exact hkeyed'.size_upsertAll (received answers')

/-- A conversation that knows one event, by both its URIs. -/
def oneKnown : Conversation :=
  (new "c" .connected).run
    [.upsert { uri := "m1", connectionUri := "c", remoteUri := some "r1" }]

/-- The server tells of five events. It finds one of them by way of an own echo, does not know one,
and has nothing but an own echo of one. -/
def echoing : Sync (List Response) where
  source := .archive
    [{ uri := "b1", connectionUri := "c" },
      { uri := "a1", connectionUri := "c", remoteUri := some "b1", outgoing := true,
        receiverNeed := some "n" },
      { uri := "z1", connectionUri := "c", remoteUri := some "z1", outgoing := true,
        receiverNeed := some "n" }]
  ownedNeed := "n"
  initialCount := 15
  moreCount := 5

/-- What the server tells. -/
def fiveMentioned : Response where
  agreements := ["r1", "a1", "m1"]
  rejectedMessages := ["z1", "x1"]

/-- Two of the five events are known by one message and are not looked up. Of the other three one is
found by way of its echo, one is unknown, and one is an own echo that leads nowhere. -/
theorem refreshAgreement_looks_up_oneKnown :
    oneKnown.needsAgreement false = true ∧
      (oneKnown.beginSnapshot.applySnapshot fiveMentioned.snapshot).missing fiveMentioned.snapshot =
        ["a1", "x1", "z1"] ∧
      ∃ t e n s'', Lookups "n" ["a1", "x1", "z1"] t
          [.ok { uri := "b1", connectionUri := "c" }, .error ⟨.notFound, "x1"⟩,
            .error (EchoProblem.noRemoteUri "z1").fault] ∧
        (echoing.recorded.refreshAgreement oneKnown false).run ([fiveMentioned], []) =
          ((e, .ok n), (s'', .agreement "c" (.ok fiveMentioned) :: t)) ∧
        e.messageList.map (·.uri) = ["b1", "m1"] ∧ e.size = oneKnown.size + n := by
  have hc : (new "c" .connected).run
      [.upsert { uri := "m1", connectionUri := "c", remoteUri := some "r1" }] = oneKnown := rfl
  have hdue : oneKnown.needsAgreement false = true := by decide
  have hmissing : (oneKnown.beginSnapshot.applySnapshot fiveMentioned.snapshot).missing
      fiveMentioned.snapshot = ["a1", "x1", "z1"] := by decide
  have hanswers : ((echoing.fetchEvents ((oneKnown.beginSnapshot.applySnapshot
      fiveMentioned.snapshot).missing fiveMentioned.snapshot)).run []).1 =
        [.ok { uri := "b1", connectionUri := "c" }, .error ⟨.notFound, "x1"⟩,
          .error (EchoProblem.noRemoteUri "z1").fault] := by
    rw [hmissing]
    rfl
  obtain ⟨-, -, ⟨t, e, n, s'', ht, -, hrun, he, hsize⟩, -⟩ :=
    refreshAgreement_looks_up (y := echoing) hc hdue (s := [fiveMentioned]) rfl rfl hanswers
  rw [hmissing] at ht
  refine ⟨hdue, hmissing, t, e, n, s'', ht, hrun, ?_, hsize⟩
  rw [he]
  rfl

end Sync

end Parley
