import Mathlib.Algebra.Order.Floor.Div
import Parley.Proofs.Paging

/-!
# Paging without anything in between

What a conversation stores that is only filled page by page is what the history has (`Copies`), and
if all dates differ it has no gaps (`Paged`). So it stores the newest messages of the history, and
these and the messages that are older than the cursor make up all of it (`Paged.perm_append`). From
this follows how many messages a page adds (`Paged.size_of_takesPage`) and, by induction on the
number of calls, what a run does (`Sync.run_loads_more`).

**The end.** The call after the one that has reached the number of all messages finds nothing new,
or the first message was stored and it is not due. Either way it is the last one that may ask the
source.
-/

namespace Parley

/-- Logging changes nothing about the pages that are served. -/
theorem Source.Serves.logged {σ : Type} {source : Source σ} {uri : String} {l : List Message}
    (h : source.Serves uri l) : source.logged.Serves uri l := by
  rintro limit before ⟨s, calls⟩
  obtain ⟨batch, s', hrun, hb⟩ := h limit before s
  refine ⟨batch, (s', calls ++ [.messages uri limit before]), ?_, hb⟩
  change (((source.messages uri limit before).run s).1,
    ((source.messages uri limit before).run s).2, calls ++ [Call.messages uri limit before]) = _
  rw [hrun]

namespace Conversation

variable {uri : String} {l : List Message} {c d : Conversation} {limit : Nat}
  {batch : List Message}

theorem needsMessages_new (uri : String) {s : Connection} (hs : s ≠ .closed) :
    (new uri s).needsMessages = true := by
  rw [needsMessages, Bool.and_eq_true, Bool.and_eq_true, bne_iff_ne]
  exact ⟨⟨hs, rfl⟩, rfl⟩

/-! ### Stored messages without gaps -/

/-- A keyed conversation lists no message twice. -/
theorem Keyed.nodup_messageList (h : c.Keyed) : c.messageList.Nodup :=
  h.pairwise_messageList.imp fun hne he ↦ hne (congrArg Message.uri he)

/-- The length of the list is the size of the map. -/
theorem length_messageList (c : Conversation) : c.messageList.length = c.size := List.length_map _

/-- The conversation stores messages as they are in the history. -/
structure Copies (c : Conversation) (uri : String) (l : List Message) : Prop
    extends Paging c uri l where
  mem : ∀ {k n}, c.message? k = some n → n ∈ l

theorem copies_new (uri : String) (s : Connection) (l : List Message) :
    (new uri s).Copies uri l where
  toPaging := paging_new uri s l
  mem h := nomatch h

namespace Copies

variable (h : c.Copies uri l) (hl : History uri l)
include h hl

/-- A message is listed just if it is one of the history and stored. -/
theorem mem_messageList_iff {m : Message} : m ∈ c.messageList ↔ m ∈ l ∧ c.Stores m := by
  rw [mem_messageList, stores_iff]
  constructor
  · rintro ⟨k, hk⟩
    obtain rfl := (h.toDrawnFrom.keyed hl).uri_eq hk
    exact ⟨h.mem hk, m, hk, rfl⟩
  · rintro ⟨hm, n, hn, -⟩
    have hu : n.uri = m.uri := (h.toDrawnFrom.keyed hl).uri_eq hn
    exact ⟨m.uri, hl.eq_of_uri_eq (h.mem hn) hm hu ▸ hn⟩

theorem nodup : c.messageList.Nodup := (h.toDrawnFrom.keyed hl).nodup_messageList

/-- **Stored or still to come.** If what is not stored is older than all that is, then the stored
messages and those that are older than the cursor make up the history. -/
theorem perm_append
    (hold : ∀ m ∈ l, ¬c.Stores m → ∀ n ∈ l, c.Stores n → m.IsOlder n) :
    (c.messageList ++ Source.olderThan c.oldestDate l).Perm l := by
  have hcand : ∀ {m}, m ∈ Source.olderThan c.oldestDate l ↔ m ∈ l ∧ ¬c.Stores m := by
    intro m
    rw [h.toDrawnFrom.mem_olderThan_oldestDate hl]
    refine and_congr_right fun hm ↦ ⟨fun hall hstored ↦ ?_, hold m hm⟩
    exact m.not_isOlder_self (hall m hm hstored)
  have hnodup : (c.messageList ++ Source.olderThan c.oldestDate l).Nodup := by
    refine List.nodup_append.mpr ⟨h.nodup hl, Source.nodup_olderThan hl.nodup _, ?_⟩
    rintro m hm _ hn rfl
    exact (hcand.mp hn).2 ((h.mem_messageList_iff hl).mp hm).2
  refine (List.perm_ext_iff_of_nodup hnodup hl.nodup).mpr fun m ↦ ?_
  rw [List.mem_append, h.mem_messageList_iff hl, hcand, ← and_or_left]
  exact and_iff_left (Decidable.em _)

variable {r : Conversation × Answer Nat} (hr : TakesPage uri l limit c batch r)
include hr

/-- What was copied stays a copy with the page that a call took in. -/
theorem of_takesPage : r.1.Copies uri l where
  toPaging := hr.paging
  mem := by
    intro k n hn
    rcases hr.added hn with hn | ⟨hn, -⟩
    · exact h.mem hn
    · exact (hr.isPage.not_stores h.toDrawnFrom hl hn).1

/-- After a page the stored messages are those that were stored and those of the page. -/
theorem stores_iff_of_takesPage {m : Message} (hm : m ∈ l) :
    r.1.Stores m ↔ c.Stores m ∨ m ∈ batch :=
  hr.toTakes.stores_iff hl (fun _ hn ↦ (hr.isPage.not_stores h.toDrawnFrom hl hn).1) hm

/-- What a page leaves is what was stored and the page. -/
theorem perm_of_takesPage : r.1.messageList.Perm (c.messageList ++ batch) := by
  have hcopies : r.1.Copies uri l := h.of_takesPage hl hr
  have hnot : ∀ m ∈ batch, m ∈ l ∧ ¬c.Stores m :=
    fun m hm ↦ hr.isPage.not_stores h.toDrawnFrom hl hm
  have hnodup : (c.messageList ++ batch).Nodup := by
    refine List.nodup_append.mpr ⟨h.nodup hl, hr.isPage.nodup, ?_⟩
    rintro m hm _ hn rfl
    exact (hnot m hn).2 ((h.mem_messageList_iff hl).mp hm).2
  refine (List.perm_ext_iff_of_nodup (hcopies.nodup hl) hnodup).mpr fun m ↦ ?_
  rw [List.mem_append, hcopies.mem_messageList_iff hl, h.mem_messageList_iff hl]
  constructor
  · rintro ⟨hm, hstored⟩
    exact ((h.stores_iff_of_takesPage hl hr hm).mp hstored).imp_left fun hc ↦ ⟨hm, hc⟩
  · rintro (⟨hm, hstored⟩ | hm)
    · exact ⟨hm, hr.stores_of_stores hstored⟩
    · exact ⟨(hnot m hm).1, hr.taken m hm⟩

/-- A page adds as many messages as it has, since all of them are older than what was stored. -/
theorem size_of_takesPage : r.1.size = c.size + batch.length := by
  rw [← length_messageList, (h.perm_of_takesPage hl hr).length_eq, List.length_append,
    length_messageList]

end Copies

/-- The conversation stores messages as they are in the history, and none is in a gap. -/
structure Paged (c : Conversation) (uri : String) (l : List Message) : Prop
    extends Paging c uri l where
  mem : ∀ {k n}, c.message? k = some n → n ∈ l
  gapless : c.Gapless l

theorem paged_new (uri : String) (s : Connection) (l : List Message) : (new uri s).Paged uri l where
  toPaging := paging_new uri s l
  mem h := nomatch h
  gapless := fun _ _ ⟨_, _, _, hstored, _⟩ ↦ nomatch hstored

namespace Paged

theorem copies (h : c.Paged uri l) : c.Copies uri l := ⟨h.toPaging, h.mem⟩

/-- In a paged conversation a message is listed just if it is one of the history and stored. -/
theorem mem_messageList_iff (h : c.Paged uri l) (hl : History uri l) {m : Message} :
    m ∈ c.messageList ↔ m ∈ l ∧ c.Stores m := h.copies.mem_messageList_iff hl

theorem nodup (h : c.Paged uri l) (hl : History uri l) : c.messageList.Nodup := h.copies.nodup hl

/-- **Stored or still to come.** The stored messages and those that are older than the cursor make
up the history. -/
theorem perm_append (h : c.Paged uri l) (hl : Timeline uri l) :
    (c.messageList ++ Source.olderThan c.oldestDate l).Perm l :=
  h.copies.perm_append hl.toHistory fun m hm hnot _ hn hstored ↦
    isOlder_of_not_inGap hl hm hn hnot (h.gapless m hm) hstored

/-- **What is missing is older.** The stored messages and the older ones add up to the history:
nothing else is missing. -/
theorem size_add_length (h : c.Paged uri l) (hl : Timeline uri l) :
    c.size + (Source.olderThan c.oldestDate l).length = l.length := by
  rw [← (h.perm_append hl).length_eq, List.length_append, length_messageList]

/-- What is stored are the newest messages. -/
theorem newest (h : c.Paged uri l) (hl : Timeline uri l) {k : Nat} (hk : c.size = min k l.length) :
    Newest k l c.messageList where
  nodup := h.nodup hl.toHistory
  subset m hm := ((h.mem_messageList_iff hl.toHistory).mp hm).1
  length_eq := by rw [length_messageList, hk]
  newest := by
    intro m hm n hn hnot hmn
    obtain ⟨hml, hstored⟩ := (h.mem_messageList_iff hl.toHistory).mp hm
    rw [h.mem_messageList_iff hl.toHistory, and_iff_right hn] at hnot
    exact h.gapless n hn ⟨hnot, m, hml, hstored, hmn⟩

/-- When no more can be loaded, all messages are stored. -/
theorem perm_of_not_canLoadMore (h : c.Paged uri l) (hl : Timeline uri l)
    (hmore : c.canLoadMore = false) : c.messageList.Perm l := by
  refine (List.perm_ext_iff_of_nodup (h.nodup hl.toHistory) hl.nodup).mpr fun m ↦ ?_
  rw [h.mem_messageList_iff hl.toHistory]
  refine and_iff_left_of_imp fun hm ↦ ?_
  exact ((h.toPaging.reachesBack hl.connect_oldest hmore).stores_iff hl hm).mpr (h.gapless m hm)

variable {r : Conversation × Answer Nat}

/-- **One page** leaves no gap: its messages are the newest of those that are missing. -/
theorem of_takesPage (h : c.Paged uri l) (hl : Timeline uri l)
    (hr : TakesPage uri l limit c batch r) : r.1.Paged uri l where
  toPaging := hr.paging
  mem := (h.copies.of_takesPage hl.toHistory hr).mem
  gapless m hm := by
    rw [hr.isPage.inGap_iff h.toDrawnFrom hl hr.toTakes hm]
    exact h.gapless m hm

/-- **A page** adds as many messages as it may and there are. -/
theorem size_of_takesPage (h : c.Paged uri l) (hl : Timeline uri l)
    (hr : TakesPage uri l limit c batch r) :
    r.1.size = c.size + batch.length ∧ r.1.size = min (c.size + limit) l.length := by
  have hsize : r.1.size = c.size + batch.length := h.copies.size_of_takesPage hl.toHistory hr
  have hlength : batch.length = min limit (Source.olderThan c.oldestDate l).length :=
    hr.isPage.length_eq
  have htotal := h.size_add_length hl
  exact ⟨hsize, by omega⟩

end Paged

end Conversation

namespace Sync

open Conversation

variable {σ : Type} {y : Sync σ} {uri : String} {l : List Message} {c : Conversation}

/-! ### Calls -/

/-- The outcome of a call that brings the number of messages from `c.size` up to `size`. -/
structure Fills (uri : String) (l : List Message) (size : Nat) (c : Conversation)
    (r : Conversation × Answer Nat) : Prop where
  paged : r.1.Paged uri l
  size_eq : r.1.size = size
  answer_eq : r.2 = .ok (size - c.size)

/-- The first page brings as many messages as it may, or all that there are. -/
theorem fills_loadLatest (hserves : y.source.Serves uri l) (hl : Timeline uri l)
    (h : c.Paged uri l) (hdue : c.needsMessages = true) (s : σ) :
    Fills uri l (min (c.size + y.initialCount) l.length) c ((y.loadLatest c).run s).1 := by
  obtain ⟨batch, hpage⟩ := takesPage_loadLatest hserves hl.toHistory h.toPaging hdue s
  obtain ⟨hadded, hsize⟩ := h.size_of_takesPage hl hpage
  refine ⟨h.of_takesPage hl hpage, hsize, hpage.answer_eq.trans (congrArg Except.ok ?_)⟩
  omega

/-- A further page. When all messages are stored, no more can be loaded afterwards. -/
theorem fills_loadMore (hserves : y.source.Serves uri l) (hl : Timeline uri l)
    (hcount : 0 < y.moreCount) (h : c.Paged uri l) (s : σ) :
    Fills uri l (min (c.size + y.moreCount) l.length) c ((y.loadMore c).run s).1 ∧
      (c.size = l.length → ((y.loadMore c).run s).1.1.canLoadMore = false) := by
  cases hdue : c.canLoadMore with
  | false =>
    have hall := (h.perm_of_not_canLoadMore hl hdue).length_eq
    rw [length_messageList] at hall
    rw [loadMore_of_not_possible hdue]
    have hsame : c.size = min (c.size + y.moreCount) l.length := by omega
    exact ⟨⟨h, hsame, congrArg Except.ok (by omega)⟩, fun _ ↦ hdue⟩
  | true =>
    obtain ⟨batch, hpage, hlast⟩ :=
      takesPage_loadMore hserves hl.toHistory hcount h.toPaging hdue s
    obtain ⟨hadded, hsize⟩ := h.size_of_takesPage hl hpage
    refine ⟨⟨h.of_takesPage hl hpage, hsize, hpage.answer_eq.trans (congrArg Except.ok ?_)⟩,
      fun hall ↦ ?_⟩
    · omega
    · have hnil : batch = [] := List.eq_nil_iff_length_eq_zero.mpr (by omega)
      rw [canLoadMore, hlast hnil]
      simp

/-- A call that is not due makes no request. -/
theorem run_loads_of_not_due {calls : List Load} (hmore : c.canLoadMore = false)
    (hcalls : ∀ call ∈ calls, call = .more ∨ call = .latest ∧ c.isEmpty = false) (s : σ) :
    (y.loads c calls).run s = ((c, calls.map fun _ ↦ .ok 0), s) := by
  induction calls with
  | nil => rfl
  | cons call calls ih =>
    have hcall : y.load c call = pure (c, .ok 0) := by
      rcases hcalls call List.mem_cons_self with rfl | ⟨rfl, hempty⟩
      · exact loadMore_of_not_possible hmore
      · exact loadLatest_of_not_needed (by rw [needsMessages, hempty, Bool.and_false])
    have hrest := ih fun call' hmem ↦ hcalls call' (List.mem_cons_of_mem _ hmem)
    rw [run_loads_cons, hcall]
    change ((((y.loads c calls).run s).1.1, .ok 0 :: ((y.loads c calls).run s).1.2),
      ((y.loads c calls).run s).2) = _
    rw [hrest]
    rfl

/-! ### Runs -/

theorem run_loads_concat (c : Conversation) (calls : List Load) (call : Load) (s : σ) :
    (y.loads c (calls ++ [call])).run s =
      let r := (y.loads c calls).run s
      let r' := (y.load r.1.1 call).run r.2
      ((r'.1.1, r.1.2 ++ [r'.1.2]), r'.2) := by
  rw [run_loads_append]
  rfl

/-- **Further pages**, one after the other. -/
theorem run_loads_more (hserves : y.source.Serves uri l) (hl : Timeline uri l)
    (hcount : 0 < y.moreCount) (h : c.Paged uri l) (s : σ) (j : Nat) :
    let r := (y.loads c (List.replicate j .more)).run s
    r.1.1.Paged uri l ∧ r.1.1.size = min (c.size + j * y.moreCount) l.length ∧
      r.1.2 = (List.range j).map fun t ↦
        .ok (min (c.size + (t + 1) * y.moreCount) l.length -
          min (c.size + t * y.moreCount) l.length) := by
  induction j with
  | zero =>
    have htotal := h.size_add_length hl
    exact ⟨h, by simp only [List.replicate_zero, run_loads_nil]; omega, rfl⟩
  | succ j ih =>
    obtain ⟨hpaged, hsize, hanswers⟩ := ih
    obtain ⟨hfills, -⟩ := fills_loadMore hserves hl hcount hpaged
      ((y.loads c (List.replicate j .more)).run s).2
    rw [List.replicate_succ', run_loads_concat]
    have hstep : min (min (c.size + j * y.moreCount) l.length + y.moreCount) l.length =
        min (c.size + (j + 1) * y.moreCount) l.length := by
      rw [Nat.succ_mul]
      omega
    have hsize' := hfills.size_eq
    have hanswer := hfills.answer_eq
    rw [hsize, hstep] at hsize' hanswer
    refine ⟨hfills.paged, hsize', ?_⟩
    rw [List.range_succ, List.map_append, ← hanswers]
    exact congrArg (_ ++ [·]) hanswer

/-- The call after the one that has reached the number of all messages is the last one. -/
theorem canLoadMore_run_loads_more (hserves : y.source.Serves uri l) (hl : Timeline uri l)
    (hcount : 0 < y.moreCount) (h : c.Paged uri l) (s : σ) {j : Nat}
    (hj : l.length ≤ c.size + j * y.moreCount) :
    ((y.loads c (List.replicate (j + 1) .more)).run s).1.1.canLoadMore = false := by
  obtain ⟨hpaged, hsize, -⟩ := run_loads_more hserves hl hcount h s j
  obtain ⟨-, hlast⟩ := fills_loadMore hserves hl hcount hpaged
    ((y.loads c (List.replicate j .more)).run s).2
  rw [List.replicate_succ', run_loads_concat]
  exact hlast (hsize.trans (Nat.min_eq_right hj))

/-- The first page and further ones, for a fresh conversation. -/
theorem run_loads_pages (hserves : y.source.Serves uri l) (hl : Timeline uri l)
    (hcount : 0 < y.moreCount) {s : Connection} (hs : s ≠ .closed) (server : σ) (j : Nat) :
    let r := (y.loads (new uri s) (.latest :: List.replicate j .more)).run server
    r.1.1.Paged uri l ∧ r.1.1.size = min (y.initialCount + j * y.moreCount) l.length ∧
      r.1.2 = .ok (min y.initialCount l.length) :: (List.range j).map (fun t ↦
        .ok (min (y.initialCount + (t + 1) * y.moreCount) l.length -
          min (y.initialCount + t * y.moreCount) l.length)) ∧
      ((l.length - y.initialCount) ⌈/⌉ y.moreCount + 1 ≤ j → r.1.1.canLoadMore = false) := by
  have hdue : (new uri s).needsMessages = true := needsMessages_new uri hs
  obtain ⟨hfirst, hsize₁, hanswer₁⟩ :=
    fills_loadLatest hserves hl (paged_new uri s l) hdue server
  rw [show (new uri s).size = 0 from rfl, Nat.zero_add] at hsize₁ hanswer₁
  rw [run_loads_cons, show y.load (new uri s) .latest = y.loadLatest (new uri s) from rfl]
  generalize (y.loadLatest (new uri s)).run server = r at hfirst hsize₁ hanswer₁ ⊢
  obtain ⟨hpaged, hsize, hanswers⟩ := run_loads_more hserves hl hcount hfirst r.2 j
  -- whether the first page is full or not, the same number is reached from there
  have hreach : ∀ t, min (r.1.1.size + t * y.moreCount) l.length =
      min (y.initialCount + t * y.moreCount) l.length := fun t ↦ by omega
  refine ⟨hpaged, hsize.trans (hreach j), ?_, fun hj ↦ ?_⟩
  · refine congrArg₂ List.cons hanswer₁ (hanswers.trans (List.map_congr_left fun t _ ↦ ?_))
    rw [hreach, hreach]
  · cases j with
    | zero => exact absurd hj (Nat.not_succ_le_zero _)
    | succ j =>
      have hfull : l.length - y.initialCount ≤ y.moreCount * j :=
        (ceilDiv_le_iff_le_smul hcount).mp (Nat.le_of_succ_le_succ hj)
      rw [Nat.mul_comm] at hfull
      exact canLoadMore_run_loads_more hserves hl hcount hfirst r.2 (by omega)

/-- **Paging delivers the history.** A source serves a history in pages to a fresh conversation that
is not closed. After the first page and `j` further calls the newest messages are stored, as many as
the pages hold together or all of them, and each call is answered with how many it added. When the
calls are one more than the full pages need, no more can be loaded, all of the history is stored,
and no later call for a page makes a request: the state and the log of the source stay as they are.
Only the first page of an empty history can be asked for again. -/
theorem paging_delivers_history {history : List Message} (hserves : y.source.Serves uri history)
    (hl : Timeline uri history) (hcount : 0 < y.moreCount) {s : Connection} (hs : s ≠ .closed)
    {server : σ} {j : Nat} {answers : List (Answer Nat)} {state : σ × List Call}
    (hrun : (y.logged.loads (new uri s) (.latest :: List.replicate j .more)).run (server, []) =
      ((c, answers), state)) :
    Newest (y.initialCount + j * y.moreCount) history c.messageList ∧
      answers = .ok (min y.initialCount history.length) :: (List.range j).map (fun t ↦
        .ok (min (y.initialCount + (t + 1) * y.moreCount) history.length -
          min (y.initialCount + t * y.moreCount) history.length)) ∧
      ((history.length - y.initialCount) ⌈/⌉ y.moreCount + 1 ≤ j →
        c.canLoadMore = false ∧ c.messageList.Perm history ∧
          ∀ calls : List Load, (∀ call ∈ calls, call = .more ∨ call = .latest ∧ history ≠ []) →
            (y.logged.loads c calls).run state = ((c, calls.map fun _ ↦ .ok 0), state)) := by
  have hserves' : y.logged.source.Serves uri history := hserves.logged
  obtain ⟨hpaged, hsize, hanswers, hend⟩ := run_loads_pages hserves' hl hcount hs (server, []) j
  rw [hrun] at hpaged hsize hanswers hend
  refine ⟨hpaged.newest hl hsize, hanswers, fun hj ↦ ?_⟩
  have hmore : c.canLoadMore = false := hend hj
  have hperm : c.messageList.Perm history := hpaged.perm_of_not_canLoadMore hl hmore
  refine ⟨hmore, hperm, fun calls hcalls ↦ run_loads_of_not_due hmore (fun call hcall ↦ ?_) state⟩
  refine (hcalls call hcall).imp_right (And.imp_right fun hne ↦ ?_)
  rw [← isEmpty_messageList, List.isEmpty_eq_false_iff]
  exact fun hnil ↦ hne (List.nil_perm.mp (hnil ▸ hperm))

/-- Serves the five messages in pages of two. -/
def inTwos : Sync (List Response) := ⟨.archive fiveMessages, "n", 2, 2⟩

/-- The third further call finds nothing that is not stored, or is not due. -/
theorem paging_delivers_history_inTwos :
    inTwos.source.Serves "c" fiveMessages ∧ Timeline "c" fiveMessages ∧ 0 < inTwos.moreCount ∧
      Connection.suggested ≠ .closed ∧
      (fiveMessages.length - inTwos.initialCount) ⌈/⌉ inTwos.moreCount + 1 ≤ 3 ∧
      ((inTwos.logged.loads (new "c" .suggested) (.latest :: List.replicate 3 .more)).run
        ([], [])).1.1.messageList.Perm fiveMessages := by
  have hserves : inTwos.source.Serves "c" fiveMessages :=
    Source.serves_archive timeline_fiveMessages.toHistory
  have hcount : 0 < inTwos.moreCount := by decide
  have hs : Connection.suggested ≠ .closed := by decide
  have hj : (fiveMessages.length - inTwos.initialCount) ⌈/⌉ inTwos.moreCount + 1 ≤ 3 := by decide
  refine ⟨hserves, timeline_fiveMessages, hcount, hs, hj, ?_⟩
  exact ((paging_delivers_history hserves timeline_fiveMessages hcount hs rfl).2.2 hj).2.1

end Sync

end Parley
