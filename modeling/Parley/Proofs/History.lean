import Mathlib.Data.List.Pairwise
import Mathlib.Tactic.ByContra
import Parley.Source

/-!
# Histories that are served in pages

A `History` is what a server keeps of one connection, and a `Timeline` is a history in which no two
messages have the same date. `Newest` says what a page is, whatever the order of its messages: of
the messages in question there are as many as the limit allows, and none is left out for an older
one. A source `Serves` a history if it answers every request for messages with such a page of the
messages that are older than the cursor.

`Source.archive` is a source of this kind. It takes its pages by sorting (`newest_page`).
-/

namespace Parley

/-- Both messages are dated, and `m` is the older one. -/
def Message.IsOlder (m n : Message) : Prop := ∃ s t, m.date = some s ∧ n.date = some t ∧ s < t

theorem Message.isOlder_iff {m n : Message} {s t : Timestamp} (hm : m.date = some s)
    (hn : n.date = some t) : m.IsOlder n ↔ s < t := by
  constructor
  · rintro ⟨s', t', hs', ht', hlt⟩
    rwa [Option.some.inj (hm.symm.trans hs'), Option.some.inj (hn.symm.trans ht')]
  · exact fun hlt ↦ ⟨s, t, hm, hn, hlt⟩

theorem Message.IsOlder.not_isOlder {m n : Message} (h : m.IsOlder n) : ¬n.IsOlder m := by
  obtain ⟨s, t, hs, ht, hlt⟩ := h
  rw [isOlder_iff ht hs]
  exact Timestamp.not_lt_of_le (Int.le_of_lt hlt)

/-- Whether a message is older depends on its date alone. -/
theorem Message.isOlder_congr_left {m n p : Message} (h : m.date = n.date) :
    m.IsOlder p ↔ n.IsOlder p := by
  rw [IsOlder, IsOlder, h]

theorem Message.isOlder_congr_right {m n p : Message} (h : m.date = n.date) :
    p.IsOlder m ↔ p.IsOlder n := by
  rw [IsOlder, IsOlder, h]

theorem Message.not_isOlder_self (m : Message) : ¬m.IsOlder m := fun h ↦ h.not_isOlder h

instance (m n : Message) : Decidable (m.IsOlder n) :=
  decidable_of_iff ((m.date.any fun s ↦ n.date.any fun t ↦ decide (s < t)) = true) <| by
    simp [Message.IsOlder, Option.any_eq_true]

theorem Message.sameEvent_self (m : Message) : m.sameEvent m = true :=
  sameEvent_iff_exists.mpr ⟨m.uri, m.isKnownAs_uri, m.isKnownAs_uri⟩

/-! ### Histories -/

/-- The messages of one connection that a server keeps: all of them are dated and part of the chat,
and each is of another event. -/
structure History (uri : String) (l : List Message) : Prop where
  connectionUri_eq : ∀ m ∈ l, m.connectionUri = uri
  visible : ∀ m ∈ l, m.isVisible = true
  dated : ∀ m ∈ l, ∃ t, m.date = some t
  events : l.Pairwise fun m n ↦ m.sameEvent n = false

/-- A history in which all dates differ, and only the oldest message may ask for the connection. -/
structure Timeline (uri : String) (l : List Message) : Prop extends History uri l where
  dates : l.Pairwise fun m n ↦ m.date ≠ n.date
  connect_oldest : ∀ m ∈ l, m.kind = .connect → ∀ n ∈ l, ¬n.IsOlder m

instance (uri : String) (l : List Message) : Decidable (History uri l) :=
  decidable_of_iff
    ((∀ m ∈ l, m.connectionUri = uri) ∧ (∀ m ∈ l, m.isVisible = true) ∧
      (∀ m ∈ l, m.date.isSome = true) ∧ l.Pairwise fun m n ↦ m.sameEvent n = false)
    ⟨fun ⟨hc, hv, hd, he⟩ ↦ ⟨hc, hv, fun m hm ↦ Option.isSome_iff_exists.mp (hd m hm), he⟩,
      fun h ↦ ⟨h.connectionUri_eq, h.visible,
        fun m hm ↦ Option.isSome_iff_exists.mpr (h.dated m hm), h.events⟩⟩

instance (uri : String) (l : List Message) : Decidable (Timeline uri l) :=
  decidable_of_iff
    (History uri l ∧ (l.Pairwise fun m n ↦ m.date ≠ n.date) ∧
      ∀ m ∈ l, m.kind = .connect → ∀ n ∈ l, ¬n.IsOlder m)
    ⟨fun ⟨h, hd, hc⟩ ↦ ⟨h, hd, hc⟩, fun h ↦ ⟨h.toHistory, h.dates, h.connect_oldest⟩⟩

section

variable {uri : String} {l : List Message}

/-- Messages of one event are one message. -/
theorem History.eq_of_sameEvent (h : History uri l) {m n : Message} (hm : m ∈ l) (hn : n ∈ l)
    (hmn : m.sameEvent n = true) : m = n := by
  have : Std.Symm fun m n : Message ↦ m.sameEvent n = false :=
    ⟨fun m n hmn ↦ (n.sameEvent_comm m).trans hmn⟩
  by_contra hne
  rw [h.events.forall hm hn hne] at hmn
  exact Bool.false_ne_true hmn

/-- Messages of a history with the same URI are the same. -/
theorem History.eq_of_uri_eq (h : History uri l) {m n : Message} (hm : m ∈ l) (hn : n ∈ l)
    (hu : m.uri = n.uri) : m = n := by
  refine h.eq_of_sameEvent hm hn (Message.sameEvent_iff_exists.mpr ⟨m.uri, m.isKnownAs_uri, ?_⟩)
  rw [hu]
  exact n.isKnownAs_uri

/-- A history has no message twice, since a message is of the same event as itself. -/
theorem History.nodup (h : History uri l) : l.Nodup := by
  refine h.events.imp fun {m n} hmn he ↦ ?_
  rw [he, n.sameEvent_self] at hmn
  exact Bool.false_ne_true hmn.symm

/-- Two messages of a history have the same date if neither is older. -/
theorem History.date_eq_of_not_isOlder (h : History uri l) {m n : Message} (hm : m ∈ l)
    (hn : n ∈ l) (hmn : ¬m.IsOlder n) (hnm : ¬n.IsOlder m) : m.date = n.date := by
  obtain ⟨s, hs⟩ := h.dated m hm
  obtain ⟨t, ht⟩ := h.dated n hn
  rw [Message.isOlder_iff hs ht] at hmn
  rw [Message.isOlder_iff ht hs] at hnm
  by_contra hne
  rw [hs, ht, Option.some_inj] at hne
  exact (Timestamp.lt_or_lt_of_ne hne).elim hmn hnm

/-- Of two messages of a timeline one is older. -/
theorem Timeline.isOlder_or (h : Timeline uri l) {m n : Message} (hm : m ∈ l) (hn : n ∈ l)
    (hmn : m ≠ n) : m.IsOlder n ∨ n.IsOlder m := by
  have : Std.Symm fun m n : Message ↦ m.date ≠ n.date := ⟨fun _ _ ↦ Ne.symm⟩
  obtain ⟨s, hs⟩ := h.dated m hm
  obtain ⟨t, ht⟩ := h.dated n hn
  have hst : s ≠ t := by
    intro he
    exact h.dates.forall hm hn hmn (by rw [hs, ht, he])
  rw [Message.isOlder_iff hs ht, Message.isOlder_iff ht hs]
  exact Timestamp.lt_or_lt_of_ne hst

end

/-! ### Pages -/

/-- The list `page` consists of the newest `limit` messages of `l`, or of all if there are fewer. -/
structure Newest (limit : Nat) (l page : List Message) : Prop where
  nodup : page.Nodup
  subset : ∀ m ∈ page, m ∈ l
  length_eq : page.length = min limit l.length
  /-- No message is left out for an older one. -/
  newest : ∀ m ∈ page, ∀ n ∈ l, n ∉ page → ¬m.IsOlder n

namespace Source

/-- The order in which a server sorts: an undated message goes behind every dated one. -/
theorem newestFirst_iff {m n : Message} :
    newestFirst m n = true ↔ ∀ t, n.date = some t → ∃ s, m.date = some s ∧ t ≤ s := by
  rw [newestFirst]
  rcases hn : n.date with - | t
  · rcases hm : m.date with - | s <;> simp [compare]
  · rcases hm : m.date with - | s
    · simp [compare]
    · have hcompare : compare (some t) (some s) = compare t.rank s.rank := rfl
      rw [hcompare, Int.isLE_compare]
      simp [Timestamp.le_iff]

theorem newestFirst_trans (m n p : Message) (hmn : newestFirst m n = true)
    (hnp : newestFirst n p = true) : newestFirst m p = true := by
  rw [newestFirst_iff] at *
  intro t ht
  obtain ⟨s, hs, hts⟩ := hnp t ht
  obtain ⟨r, hr, hsr⟩ := hmn s hs
  exact ⟨r, hr, Int.le_trans hts hsr⟩

/-- The order is total, so sorting by it leaves nothing out of place. -/
theorem newestFirst_total (m n : Message) : (newestFirst m n || newestFirst n m) = true := by
  rw [Bool.or_eq_true, newestFirst_iff, newestFirst_iff]
  rcases n.date with - | t
  · exact Or.inl fun _ h ↦ nomatch h
  · rcases m.date with - | s
    · exact Or.inr fun _ h ↦ nomatch h
    · simpa [Timestamp.le_iff] using Int.le_total t.rank s.rank

/-- What is sorted in front is not older. -/
theorem not_isOlder_of_newestFirst {m n : Message} (h : newestFirst m n = true) :
    ¬m.IsOlder n := by
  rintro ⟨s, t, hs, ht, hlt⟩
  obtain ⟨s', hs', hle⟩ := newestFirst_iff.mp h t ht
  rw [← Option.some.inj (hs.symm.trans hs')] at hle
  exact Timestamp.not_lt_of_le hle hlt

/-- What is left of a list without repetitions has none. -/
theorem nodup_olderThan {l : List Message} (h : l.Nodup) (before : Option Timestamp) :
    (olderThan before l).Nodup := by
  unfold olderThan
  split
  · exact h
  · exact h.filter _

/-- **Sorting makes pages.** -/
theorem newest_page {history : List Message} (h : history.Nodup) (limit : Nat)
    (before : Option Timestamp) :
    Newest limit (olderThan before history) (page history limit before) := by
  have hnodup : (olderThan before history).Nodup := nodup_olderThan h before
  unfold page
  generalize olderThan before history = l at hnodup ⊢
  have hperm : (l.mergeSort newestFirst).Perm l := l.mergeSort_perm newestFirst
  have hsorted := List.pairwise_mergeSort newestFirst_trans newestFirst_total l
  refine ⟨(hperm.nodup_iff.mpr hnodup).sublist (List.take_sublist _ _),
    fun m hm ↦ hperm.mem_iff.mp (List.mem_of_mem_take hm), ?_, fun m hm n hn hnot ↦ ?_⟩
  · rw [List.length_take, hperm.length_eq]
  · -- what the page leaves out stands behind it
    rw [← List.take_append_drop limit (l.mergeSort newestFirst)] at hsorted
    have hdrop : n ∈ (l.mergeSort newestFirst).drop limit := by
      have hmem : n ∈ l.mergeSort newestFirst := hperm.mem_iff.mpr hn
      rw [← List.take_append_drop limit (l.mergeSort newestFirst)] at hmem
      exact (List.mem_append.mp hmem).resolve_left hnot
    exact not_isOlder_of_newestFirst ((List.pairwise_append.mp hsorted).2.2 m hm n hdrop)

end Source

/-! ### Sources that keep a history -/

namespace Source

variable {σ : Type}

/-- Every request for messages of the connection is answered with a page of its history. -/
def Serves (source : Source σ) (uri : String) (history : List Message) : Prop :=
  ∀ limit before s, ∃ batch s', (source.messages uri limit before).run s = (.ok batch, s') ∧
    Newest limit (olderThan before history) batch

/-- Every event that is found by its URI is one of the history. -/
def LooksUp (source : Source σ) (history : List Message) : Prop :=
  ∀ need uri s m, ((source.message need uri).run s).1 = .ok m → m ∈ history

/-- The source that serves a history, and answers requests for agreements from a list. -/
def archive (history : List Message) : Source (List Response) where
  message _ uri := return (history.find? (·.isKnownAs uri)).elim (.error ⟨.notFound, uri⟩) .ok
  messages _ limit before := return .ok (page history limit before)
  agreement uri := do
    match ← get with
    | response :: rest =>
      set rest
      return .ok response
    | [] => return .error ⟨.fetch, uri⟩
  processes _ := return .ok []

/-- An archive serves its history, page by page. -/
theorem serves_archive {uri : String} {history : List Message} (h : History uri history) :
    (archive history).Serves uri history :=
  fun limit before s ↦ ⟨page history limit before, s, rfl, newest_page h.nodup limit before⟩

/-- What an archive finds is the first message of the history with that name. -/
theorem find?_eq_some_of_archive {history : List Message} {need uri : String} {s : List Response}
    {m : Message} (hm : (((archive history).message need uri).run s).1 = .ok m) :
    history.find? (·.isKnownAs uri) = some m := by
  change ((history.find? (·.isKnownAs uri)).elim (.error ⟨.notFound, uri⟩) .ok : Answer Message) =
    .ok m at hm
  rcases hfind : history.find? (·.isKnownAs uri) with - | n
  · rw [hfind] at hm
    exact nomatch hm
  · rw [hfind] at hm
    rw [hfind, Except.ok.inj hm]

/-- So it finds messages of its history only. -/
theorem looksUp_archive (history : List Message) : (archive history).LooksUp history :=
  fun _ _ _ _ hm ↦ List.mem_of_find?_eq_some (find?_eq_some_of_archive hm)

end Source

/-! ### Histories to look at -/

/-- A moment of a minute in June. -/
def juneMinute (second : Fin 60) : Timestamp where
  day := ⟨2018, 6, 1, by decide⟩
  second := 72000 + second
  nano := 0
  second_lt := by omega
  nano_lt := by decide

/-- Five messages of the connection `c`, a second apart; the first asks for the connection. -/
def fiveMessages : List Message :=
  [{ uri := "m0", connectionUri := "c", date := some (juneMinute 0), kind := .connect },
    { uri := "m1", connectionUri := "c", date := some (juneMinute 1) },
    { uri := "m2", connectionUri := "c", date := some (juneMinute 2) },
    { uri := "m3", connectionUri := "c", date := some (juneMinute 3) },
    { uri := "m4", connectionUri := "c", date := some (juneMinute 4) }]

/-- The five messages are a timeline. -/
theorem timeline_fiveMessages : Timeline "c" fiveMessages := by decide +kernel

/-- Two messages of the connection `c` at the same moment. The server has the one first that comes
last in the chat. -/
def tiedPair : List Message :=
  [{ uri := "m2", connectionUri := "c", date := some (juneMinute 0) },
    { uri := "m1", connectionUri := "c", date := some (juneMinute 0) }]

/-- The two messages are a history, although their dates do not tell them apart. -/
theorem history_tiedPair : History "c" tiedPair := by decide +kernel

end Parley
