import Parley.Proofs.Drawn
import Parley.Proofs.Fetching

/-!
# Paging through a history

A source serves the history of a connection in pages, and a conversation stores messages of it. The
cursor for the next page is the date of the oldest stored message, so a page holds messages that are
older than every stored one (`DrawnFrom.mem_olderThan_oldestDate`). None of them is stored yet, so
all of them are added.

**Gaps.** A history message is in a gap if it is not stored but an older one is (`Gapless` says that
none is). A page never opens a gap, since it leaves no message out for an older one; and it never
closes one, since a message in a gap is not older than every stored one (`IsPage.inGap_iff`).

**The end.** Paging ends when a page brings nothing new or the first message of the history is
stored. Then no message of the history is older than every stored one (`Paging.reachesBack`), so
that just the messages in gaps are missing (`ReachesBack.stores_iff`).
-/

namespace Parley

namespace Conversation

variable {uri : String} {l : List Message} {c d : Conversation} {limit : Nat}
  {batch : List Message}

/-! ### The cursor -/

namespace DrawnFrom

/-- The dates of the visible messages are those of the stored records of the history. -/
theorem mem_dates_iff (h : c.DrawnFrom uri l) (hl : History uri l) {t : Timestamp} :
    t ∈ (c.messageList.filter Message.isVisible).filterMap (·.date) ↔
      ∃ n ∈ l, c.Stores n ∧ n.date = some t := by
  simp only [List.mem_filterMap, List.mem_filter, mem_messageList]
  constructor
  · rintro ⟨n, ⟨⟨k, hk⟩, -⟩, hdate⟩
    obtain ⟨m, hm, hnm, hstored⟩ := h.exists_stores hk
    rw [Message.congr_of_unmarked_eq (f := Message.date) (fun _ ↦ rfl) hnm] at hdate
    exact ⟨m, hm, hstored, hdate⟩
  · rintro ⟨m, hm, hstored, hdate⟩
    obtain ⟨n, hn, hnm⟩ := stores_iff.mp hstored
    rw [← Message.congr_of_unmarked_eq (f := Message.date) (fun _ ↦ rfl) hnm] at hdate
    have hv : n.isVisible = true := by
      rw [Message.congr_of_unmarked_eq (f := Message.isVisible) (fun _ ↦ rfl) hnm]
      exact hl.visible m hm
    exact ⟨n, ⟨⟨_, hn⟩, hv⟩, hdate⟩

/-- **The cursor.** The messages that a source is asked for are those that are older than every
stored message. -/
theorem mem_olderThan_oldestDate (h : c.DrawnFrom uri l) (hl : History uri l) {m : Message} :
    m ∈ Source.olderThan c.oldestDate l ↔ m ∈ l ∧ ∀ n ∈ l, c.Stores n → m.IsOlder n := by
  have hdates := fun t ↦ h.mem_dates_iff hl (t := t)
  rcases ht : c.oldestDate with - | t
  · have hnil := List.min?_eq_none_iff.mp ht
    refine (and_iff_left fun n hn hstored ↦ ?_).symm
    obtain ⟨t, hdate⟩ := hl.dated n hn
    have hmem := (hdates t).mpr ⟨n, hn, hstored, hdate⟩
    rw [hnil] at hmem
    exact absurd hmem List.not_mem_nil
  · obtain ⟨hmem, hle⟩ := List.min?_eq_some_iff.mp ht
    rw [Source.olderThan, List.mem_filter]
    refine and_congr_right fun hm ↦ ?_
    obtain ⟨s, hs⟩ := hl.dated m hm
    rw [hs, Option.any_some, Bool.not_eq_true', decide_eq_false_iff_not]
    constructor
    · intro hlt n hn hstored
      obtain ⟨r, hr⟩ := hl.dated n hn
      have htr : t ≤ r := hle r ((hdates r).mpr ⟨n, hn, hstored, hr⟩)
      rw [Message.isOlder_iff hs hr]
      rw [Timestamp.le_iff] at hlt htr
      rw [Timestamp.lt_iff]
      omega
    · intro hall
      obtain ⟨n, hn, hstored, hdate⟩ := (hdates t).mp hmem
      have hlt := (Message.isOlder_iff hs hdate).mp (hall n hn hstored)
      exact fun hts ↦ Timestamp.not_lt_of_le hts hlt

end DrawnFrom

/-! ### Pages -/

/-- The batch is a page of the messages that are older than every stored one. -/
abbrev IsPage (c : Conversation) (l : List Message) (limit : Nat) (batch : List Message) : Prop :=
  Newest limit (Source.olderThan c.oldestDate l) batch

/-- A page holds records of the history that are not stored: they are older than everything that
is. -/
theorem IsPage.not_stores (hb : c.IsPage l limit batch) (h : c.DrawnFrom uri l)
    (hl : History uri l) {m : Message} (hm : m ∈ batch) : m ∈ l ∧ ¬c.Stores m := by
  obtain ⟨hml, hold⟩ := (h.mem_olderThan_oldestDate hl).mp (hb.subset m hm)
  exact ⟨hml, fun hstored ↦ m.not_isOlder_self (hold m hml hstored)⟩

/-! ### Gaps -/

/-- The message is not stored although an older one of the history is. -/
def InGap (c : Conversation) (l : List Message) (m : Message) : Prop :=
  ¬c.Stores m ∧ ∃ n ∈ l, c.Stores n ∧ n.IsOlder m

/-- No message of the history is in a gap. -/
def Gapless (c : Conversation) (l : List Message) : Prop := ∀ m ∈ l, ¬c.InGap l m

/-- A message that is neither stored nor in a gap is older than every stored one. -/
theorem isOlder_of_not_inGap (hl : Timeline uri l) {m n : Message} (hm : m ∈ l) (hn : n ∈ l)
    (hnot : ¬c.Stores m) (hgap : ¬c.InGap l m) (hstored : c.Stores n) : m.IsOlder n := by
  have hmn : m ≠ n := fun he ↦ hnot (he ▸ hstored)
  exact (hl.isOlder_or hm hn hmn).resolve_right fun hold ↦ hgap ⟨hnot, n, hn, hstored, hold⟩

/-- **Pages and gaps.** A page neither opens nor closes a gap. -/
theorem IsPage.inGap_iff (hb : c.IsPage l limit batch) (h : c.DrawnFrom uri l)
    (hl : Timeline uri l) (hd : Takes c batch d) {m : Message} (hm : m ∈ l) :
    d.InGap l m ↔ c.InGap l m := by
  have hmem : ∀ n ∈ batch, n ∈ l := fun n hn ↦ (hb.not_stores h hl.toHistory hn).1
  have hstores : ∀ {n}, n ∈ l → (d.Stores n ↔ c.Stores n ∨ n ∈ batch) :=
    fun hn ↦ hd.stores_iff hl.toHistory hmem hn
  constructor
  · rintro ⟨hnot, n, hn, hstored, hnm⟩
    rw [hstores hm, not_or] at hnot
    by_contra hgap
    -- the message would be a candidate for the page, and left out for an older one
    have hcand : m ∈ Source.olderThan c.oldestDate l :=
      (h.mem_olderThan_oldestDate hl.toHistory).mpr
        ⟨hm, fun p hp hp' ↦ isOlder_of_not_inGap hl hm hp hnot.1 hgap hp'⟩
    rcases (hstores hn).mp hstored with hstored | hnb
    · exact hgap ⟨hnot.1, n, hn, hstored, hnm⟩
    · exact hb.newest n hnb m hcand hnot.2 hnm
  · rintro ⟨hnot, n, hn, hstored, hnm⟩
    refine ⟨fun hstored' ↦ ?_, n, hn, hd.stores_of_stores hstored, hnm⟩
    -- what is in the page is older than every stored message
    have hmb : m ∈ batch := ((hstores hm).mp hstored').resolve_left hnot
    have hmn : m.IsOlder n :=
      ((h.mem_olderThan_oldestDate hl.toHistory).mp (hb.subset m hmb)).2 n hn hstored
    exact hmn.not_isOlder hnm

/-! ### The end -/

/-- No message of the history is older than every stored one. -/
def ReachesBack (c : Conversation) (l : List Message) : Prop :=
  ∀ m ∈ l, ∃ n ∈ l, c.Stores n ∧ ¬m.IsOlder n

theorem ReachesBack.mono (h : c.ReachesBack l) (hd : ∀ m, c.Stores m → d.Stores m) :
    d.ReachesBack l := by
  intro m hm
  obtain ⟨n, hn, hstored, hold⟩ := h m hm
  exact ⟨n, hn, hd n hstored, hold⟩

/-- Where no message is older than every stored one, just the messages in gaps are missing. -/
theorem ReachesBack.stores_iff (h : c.ReachesBack l) (hl : Timeline uri l) {m : Message}
    (hm : m ∈ l) : c.Stores m ↔ ¬c.InGap l m := by
  constructor
  · exact fun hstored hgap ↦ hgap.1 hstored
  · intro hgap
    by_contra hnot
    obtain ⟨n, hn, hstored, hold⟩ := h m hm
    exact hold (isOlder_of_not_inGap hl hm hn hnot hgap hstored)

/-- **An empty page is the end.** -/
theorem IsPage.reachesBack (hb : c.IsPage l limit []) (hlimit : 0 < limit)
    (h : c.DrawnFrom uri l) (hl : History uri l) : c.ReachesBack l := by
  intro m hm
  have hlength : 0 = min limit (Source.olderThan c.oldestDate l).length := hb.length_eq
  have hnil : Source.olderThan c.oldestDate l = [] := List.eq_nil_iff_length_eq_zero.mpr (by omega)
  by_contra hnone
  have hcand : m ∈ Source.olderThan c.oldestDate l := by
    refine (h.mem_olderThan_oldestDate hl).mpr ⟨hm, fun n hn hstored ↦ ?_⟩
    by_contra hold
    exact hnone ⟨n, hn, hstored, hold⟩
  rw [hnil] at hcand
  exact List.not_mem_nil hcand

/-- **The first message is the end.** -/
theorem DrawnFrom.reachesBack (h : c.DrawnFrom uri l)
    (holdest : ∀ m ∈ l, m.kind = .connect → ∀ n ∈ l, ¬n.IsOlder m)
    (hcomplete : c.isComplete = true) : c.ReachesBack l := by
  obtain ⟨n, hn, hkind⟩ := List.any_eq_true.mp hcomplete
  obtain ⟨k, hk⟩ := mem_messageList.mp hn
  obtain ⟨m, hm, hnm, hstored⟩ := h.exists_stores hk
  have hconnect : m.kind = .connect := by
    rw [← Message.congr_of_unmarked_eq (f := Message.kind) (fun _ ↦ rfl) hnm]
    simpa using (Bool.and_eq_true_iff.mp hkind).2
  exact fun p hp ↦ ⟨m, hm, hstored, holdest m hm hconnect p hp⟩

/-! ### Conversations that are paging -/

/-- The conversation stores messages of the history and nobody is fetching any; and if it counts as
exhausted, no message of the history is older than every stored one. -/
structure Paging (c : Conversation) (uri : String) (l : List Message) : Prop
    extends DrawnFrom c uri l where
  idle : c.isLoading = false
  exhausted : c.exhausted = true → c.ReachesBack l

theorem paging_new (uri : String) (s : Connection) (l : List Message) :
    (new uri s).Paging uri l where
  toDrawnFrom := drawnFrom_new uri s l
  idle := rfl
  exhausted h := nomatch h

namespace Paging

/-- When no more can be loaded, no message of the history is older than every stored one. -/
theorem reachesBack (h : c.Paging uri l)
    (holdest : ∀ m ∈ l, m.kind = .connect → ∀ n ∈ l, ¬n.IsOlder m)
    (hmore : c.canLoadMore = false) : c.ReachesBack l := by
  rw [canLoadMore, h.idle] at hmore
  cases hex : c.exhausted with
  | true => exact h.exhausted hex
  | false =>
    rw [hex] at hmore
    exact h.toDrawnFrom.reachesBack holdest (by simpa using hmore)

/-- What changes in messages nothing but markers keeps paging going. -/
theorem of_map_unmarked (h : c.Paging uri l) (hu : d.uri = c.uri)
    (hd : ∀ k, (d.message? k).map Message.unmarked = (c.message? k).map Message.unmarked)
    (hidle : d.isLoading = false) (hex : d.exhausted = c.exhausted) : d.Paging uri l where
  toDrawnFrom := h.toDrawnFrom.of_map_unmarked hu hd
  idle := hidle
  exhausted hdex := by
    refine (h.exhausted (hex.symm.trans hdex)).mono fun m hm ↦ ?_
    rw [Stores, hd]
    exact hm

theorem of_takes (h : c.Paging uri l) (hd : Takes c batch d) (hmem : ∀ m ∈ batch, m ∈ l)
    (hidle : d.isLoading = false) (hex : d.exhausted = c.exhausted) : d.Paging uri l where
  toDrawnFrom := hd.drawnFrom h.toDrawnFrom hmem
  idle := hidle
  exhausted hdex := (h.exhausted (hex.symm.trans hdex)).mono fun _ ↦ hd.stores_of_stores

end Paging

/-! ### Calls for a page -/

/-- A call has brought in the page `batch` and is answered with its length. -/
structure TakesPage (uri : String) (l : List Message) (limit : Nat) (c : Conversation)
    (batch : List Message) (r : Conversation × Answer Nat) : Prop extends Takes c batch r.1 where
  isPage : c.IsPage l limit batch
  paging : r.1.Paging uri l
  answer_eq : r.2 = .ok batch.length

/-- A first page is taken in and counted. -/
theorem Paging.takesPage_finishMessages (h : c.Paging uri l) (hl : History uri l)
    (hb : c.IsPage l limit batch) :
    TakesPage uri l limit c batch ((c.beginMessages.finishMessages batch).map id .ok) := by
  have hmem : ∀ m ∈ batch, m ∈ l := fun m hm ↦ (hb.not_stores h.toDrawnFrom hl hm).1
  have hdrawn : c.beginMessages.DrawnFrom uri l := h.toDrawnFrom.of_map_unmarked rfl fun _ ↦ rfl
  have hupsert : Takes c.beginMessages batch (c.beginMessages.upsertAll batch).1 :=
    hdrawn.takes_upsertAll hl hmem
  have hcount : (c.beginMessages.upsertAll batch).2 = batch.length :=
    hdrawn.snd_upsertAll hl hb.nodup hmem fun m hm ↦ (hb.not_stores h.toDrawnFrom hl hm).2
  -- the state of the fetch does not count for what is stored
  have htakes : Takes c batch (c.beginMessages.finishMessages batch).1 :=
    ⟨hupsert.uri_eq, hupsert.kept, hupsert.added, hupsert.taken⟩
  have hex : (c.beginMessages.upsertAll batch).1.exhausted = c.exhausted := by
    obtain ⟨ms, hms⟩ := exists_upsertAll_eq batch c.beginMessages
    rw [hms]
    rfl
  exact ⟨htakes, hb, h.of_takes htakes hmem rfl hex, congrArg Except.ok hcount⟩

/-- A further page is taken in and counted, and the history is exhausted when it was empty. -/
theorem Paging.takesPage_finishMore (h : c.Paging uri l) (hl : History uri l)
    (hb : c.IsPage l limit batch) (hlimit : 0 < limit) :
    TakesPage uri l limit c batch ((Sync.finishMore c.beginMessages batch).map id .ok) ∧
      (batch = [] → (Sync.finishMore c.beginMessages batch).1.exhausted = true) := by
  have hpage := h.takesPage_finishMessages hl hb
  have hcount : (c.beginMessages.finishMessages batch).2 = batch.length :=
    Except.ok.inj hpage.answer_eq
  rw [Sync.finishMore_eq, hcount]
  cases batch with
  | nil =>
    have hend : (c.beginMessages.finishMessages []).1.markExhausted.ReachesBack l :=
      (hb.reachesBack hlimit h.toDrawnFrom hl).mono fun _ ↦ hpage.stores_of_stores
    have hdrawn : (c.beginMessages.finishMessages []).1.markExhausted.DrawnFrom uri l :=
      hpage.paging.toDrawnFrom.of_map_unmarked rfl fun _ ↦ rfl
    exact ⟨⟨⟨hpage.uri_eq, hpage.kept, hpage.added, hpage.taken⟩, hb,
      ⟨hdrawn, rfl, fun _ ↦ hend⟩, rfl⟩, fun _ ↦ rfl⟩
  | cons m batch =>
    have hne : (m :: batch).length ≠ 0 := Nat.succ_ne_zero _
    rw [if_neg hne, ← hcount]
    exact ⟨hpage, fun hnil ↦ nomatch hnil⟩

end Conversation

namespace Sync

open Conversation

variable {σ : Type} {y : Sync σ} {uri : String} {l : List Message} {c : Conversation}

/-- **The first page.** -/
theorem takesPage_loadLatest (hserves : y.source.Serves uri l) (hl : History uri l)
    (h : c.Paging uri l) (hdue : c.needsMessages = true) (s : σ) :
    ∃ batch, TakesPage uri l y.initialCount c batch ((y.loadLatest c).run s).1 := by
  obtain ⟨batch, s', hrun, hb⟩ := hserves y.initialCount none s
  -- there are no messages, so no cursor is as good as the date of the oldest one
  have hcursor : c.oldestDate = none := by
    have hempty : c.isEmpty = true := (Bool.and_eq_true_iff.mp hdue).2
    rw [← isEmpty_messageList] at hempty
    rw [oldestDate, List.isEmpty_iff.mp hempty]
    rfl
  rw [run_loadLatest hdue (h.uri_eq ▸ hrun)]
  exact ⟨batch, h.takesPage_finishMessages hl (by rwa [IsPage, hcursor])⟩

/-- **A further page.** If it is empty, it is the last one. -/
theorem takesPage_loadMore (hserves : y.source.Serves uri l) (hl : History uri l)
    (hcount : 0 < y.moreCount) (h : c.Paging uri l) (hdue : c.canLoadMore = true) (s : σ) :
    ∃ batch, TakesPage uri l y.moreCount c batch ((y.loadMore c).run s).1 ∧
      (batch = [] → ((y.loadMore c).run s).1.1.exhausted = true) := by
  obtain ⟨batch, s', hrun, hb⟩ := hserves y.moreCount c.oldestDate s
  rw [run_loadMore hdue (h.uri_eq ▸ hrun)]
  exact ⟨batch, h.takesPage_finishMore hl hb hcount⟩

end Sync

end Parley
