import Mathlib
import Parley.Proofs.PurePaging

/-!
# Paging through equal dates

The cursor of paging is a date, and a page holds what is strictly older. Where several messages of
the history have the same date, a page may end between them. The ones that it leaves out are then
never asked for again, since the cursor has reached their date (`LeftOut`), and paging goes on
behind them. Apart from them nothing is missing (`Tied`).

**The exact condition.** Up to the first cut the messages that are stored are the newest ones, as
many as the pages hold together. So all of the history is stored in the end if and only if no number
of messages that is reached so cuts a group of equal dates (`Cuts`, `Sync.whole_afterPages_iff`).
The page sizes do not matter at all if and only if all dates differ (`Sync.pagedOut_iff`).
-/

namespace Parley

/-! ### Groups of equal dates -/

/-- The messages of `l` that are newer than `m`. -/
def newerThan (l : List Message) (m : Message) : List Message := l.filter fun n ↦ m.IsOlder n

/-- The messages of `l` that are not older than `m`: the newer ones and those of the same date. -/
def notOlderThan (l : List Message) (m : Message) : List Message := l.filter fun n ↦ ¬n.IsOlder m

/-- The newest `k` messages of `l` hold some messages of one date and not all of them. -/
def Cuts (l : List Message) (k : Nat) : Prop :=
  ∃ m ∈ l, (newerThan l m).length < k ∧ k < (notOlderThan l m).length

instance (l : List Message) (k : Nat) : Decidable (Cuts l k) :=
  inferInstanceAs (Decidable (∃ m ∈ l, (newerThan l m).length < k ∧ k < (notOlderThan l m).length))

section

variable {uri : String} {l page : List Message} {k : Nat} {m n : Message}

theorem mem_newerThan : n ∈ newerThan l m ↔ n ∈ l ∧ m.IsOlder n := by simp [newerThan]

theorem mem_notOlderThan : n ∈ notOlderThan l m ↔ n ∈ l ∧ ¬n.IsOlder m := by simp [notOlderThan]

/-- Only a number below the length can cut a list. -/
theorem Cuts.lt_length (h : Cuts l k) : k < l.length := by
  obtain ⟨m, -, -, hk⟩ := h
  exact hk.trans_le (List.length_filter_le _ l)

/-- A message shares its date with another one: the newest messages up to it alone cut a group. -/
theorem History.cuts (hl : History uri l) (hm : m ∈ l) (hn : n ∈ l) (hne : m ≠ n)
    (hdate : m.date = n.date) : Cuts l ((newerThan l m).length + 1) := by
  refine ⟨m, hm, Nat.lt_succ_self _, ?_⟩
  have hnodup : (m :: n :: newerThan l m).Nodup := by
    have hnot : ∀ {p : Message}, p.date = m.date → p ∉ newerThan l m := fun hp hmem ↦
      m.not_isOlder_self ((Message.isOlder_congr_right hp).mp (mem_newerThan.mp hmem).2)
    refine List.nodup_cons.mpr ⟨?_, List.nodup_cons.mpr ⟨hnot hdate.symm, hl.nodup.filter _⟩⟩
    exact fun hmem ↦ (List.mem_cons.mp hmem).elim hne (hnot rfl)
  have hsub : m :: n :: newerThan l m ⊆ notOlderThan l m := by
    refine List.cons_subset.mpr ⟨mem_notOlderThan.mpr ⟨hm, m.not_isOlder_self⟩,
      List.cons_subset.mpr ⟨mem_notOlderThan.mpr ⟨hn, ?_⟩, fun p hp ↦ ?_⟩⟩
    · exact fun hold ↦ m.not_isOlder_self ((Message.isOlder_congr_left hdate).mpr hold)
    · obtain ⟨hpl, hold⟩ := mem_newerThan.mp hp
      exact mem_notOlderThan.mpr ⟨hpl, hold.not_isOlder⟩
  exact (List.subperm_of_subset hnodup hsub).length_le

/-- A page that leaves out a message, but none that is newer, and holds one of the same date, cuts a
group. -/
theorem Newest.cuts (h : Newest k l page) (hl : History uri l) (hm : m ∈ l) (hnot : m ∉ page)
    (hn : n ∈ page) (hdate : n.date = m.date) : Cuts l k := by
  have hlow : (n :: newerThan l m).length ≤ page.length := by
    refine (List.subperm_of_subset (List.nodup_cons.mpr ⟨?_, hl.nodup.filter _⟩) ?_).length_le
    · exact fun hmem ↦ m.not_isOlder_self
        ((Message.isOlder_congr_right hdate).mp (mem_newerThan.mp hmem).2)
    · refine List.cons_subset.mpr ⟨hn, fun p hp ↦ ?_⟩
      obtain ⟨hpl, hold⟩ := mem_newerThan.mp hp
      by_contra hpage
      exact h.newest n hn p hpl hpage ((Message.isOlder_congr_left hdate).mpr hold)
  have hhigh : (m :: page).length ≤ (notOlderThan l m).length := by
    refine (List.subperm_of_subset (List.nodup_cons.mpr ⟨hnot, h.nodup⟩) ?_).length_le
    exact List.cons_subset.mpr ⟨mem_notOlderThan.mpr ⟨hm, m.not_isOlder_self⟩,
      fun p hp ↦ mem_notOlderThan.mpr ⟨h.subset p hp, h.newest p hp m hm hnot⟩⟩
  have hall : (notOlderThan l m).length ≤ l.length := List.length_filter_le _ l
  have hlength := h.length_eq
  rw [List.length_cons] at hlow hhigh
  exact ⟨m, hm, by omega, by omega⟩

/-- Where the newest messages cut a group, the page leaves out a message of a date that it holds. -/
theorem Newest.exists_tied (h : Newest k l page) (hl : History uri l) (hcuts : Cuts l k) :
    ∃ m ∈ l, m ∉ page ∧ ∃ n ∈ page, n.date = m.date := by
  obtain ⟨m, hm, hlow, hhigh⟩ := hcuts
  have hall : (notOlderThan l m).length ≤ l.length := List.length_filter_le _ l
  have hlength := h.length_eq
  by_contra hnone
  have hsame : ∀ {p q}, p ∈ l → p ∉ page → q ∈ page → q.date ≠ p.date :=
    fun hp hnot hq hdate ↦ hnone ⟨_, hp, hnot, _, hq, hdate⟩
  by_cases hmem : m ∈ page
  · -- then the page holds all of the group and all that is newer
    have hsub : notOlderThan l m ⊆ page := by
      intro p hp
      obtain ⟨hpl, hold⟩ := mem_notOlderThan.mp hp
      by_contra hpage
      exact hsame hpl hpage hmem
        (hl.date_eq_of_not_isOlder hm hpl (h.newest m hmem p hpl hpage) hold)
    have hle : (notOlderThan l m).length ≤ page.length :=
      (List.subperm_of_subset (hl.nodup.filter _) hsub).length_le
    omega
  · -- then the page holds newer messages only
    have hsub : page ⊆ newerThan l m := by
      intro p hp
      have hpl : p ∈ l := h.subset p hp
      refine mem_newerThan.mpr ⟨hpl, ?_⟩
      by_contra hold
      exact hsame hm hmem hp (hl.date_eq_of_not_isOlder hpl hm (h.newest p hp m hm hmem) hold)
    have hle : page.length ≤ (newerThan l m).length :=
      (List.subperm_of_subset h.nodup hsub).length_le
    omega

end

namespace Conversation

variable {uri : String} {l : List Message} {c d : Conversation} {limit k : Nat}
  {batch : List Message}

/-! ### Messages that are left out -/

/-- The message is not stored although one of the same date is. -/
def LeftOut (c : Conversation) (l : List Message) (m : Message) : Prop :=
  ¬c.Stores m ∧ ∃ n ∈ l, c.Stores n ∧ n.date = m.date

/-- No message of the history is left out. -/
def Whole (c : Conversation) (l : List Message) : Prop := ∀ m ∈ l, ¬c.LeftOut l m

/-- Where all dates differ, no message is left out. -/
theorem whole_of_dates (hdates : l.Pairwise fun m n ↦ m.date ≠ n.date) : c.Whole l := by
  have : Std.Symm fun m n : Message ↦ m.date ≠ n.date := ⟨fun _ _ ↦ Ne.symm⟩
  rintro m hm ⟨hnot, n, hn, hstored, hdate⟩
  exact hdates.forall hn hm (fun he ↦ hnot (he ▸ hstored)) hdate

/-- The conversation copies a history, and what it does not store is left out or older than all that
it stores. -/
structure Tied (c : Conversation) (uri : String) (l : List Message) : Prop
    extends Copies c uri l where
  older : ∀ m ∈ l, ¬c.Stores m → ¬c.LeftOut l m → ∀ n ∈ l, c.Stores n → m.IsOlder n

theorem tied_new (uri : String) (s : Connection) (l : List Message) : (new uri s).Tied uri l where
  toCopies := copies_new uri s l
  older _ _ _ _ _ _ hstored := nomatch hstored

theorem whole_new (uri : String) (s : Connection) (l : List Message) : (new uri s).Whole l :=
  fun _ _ ⟨_, _, _, hstored, _⟩ ↦ nomatch hstored

theorem newest_new (uri : String) (s : Connection) (l : List Message) :
    Newest 0 l (new uri s).messageList where
  nodup := List.nodup_nil
  subset _ hm := nomatch hm
  length_eq := (Nat.zero_min _).symm
  newest _ hm := nomatch hm

namespace Tied

/-- When no more can be loaded, a message that is not stored is left out. -/
theorem leftOut_of_not_stores (h : c.Tied uri l)
    (holdest : ∀ m ∈ l, m.kind = .connect → ∀ n ∈ l, ¬n.IsOlder m)
    (hmore : c.canLoadMore = false) {m : Message} (hm : m ∈ l) (hnot : ¬c.Stores m) :
    c.LeftOut l m := by
  by_contra hleft
  obtain ⟨n, hn, hstored, hold⟩ := h.toPaging.reachesBack holdest hmore m hm
  exact hold (h.older m hm hnot hleft n hn hstored)

variable (h : c.Tied uri l) (hl : History uri l)
include h hl

/-- **What is stored and groups.** While the newest messages are stored, a message is left out just
if they cut a group. -/
theorem whole_iff (hk : Newest k l c.messageList) : c.Whole l ↔ ¬Cuts l k := by
  have hmem : ∀ {m}, m ∈ l → (m ∈ c.messageList ↔ c.Stores m) :=
    fun hm ↦ (h.mem_messageList_iff hl).trans (and_iff_right hm)
  constructor
  · intro hwhole hcuts
    obtain ⟨m, hm, hnot, n, hn, hdate⟩ := hk.exists_tied hl hcuts
    have hnl : n ∈ l := hk.subset n hn
    exact hwhole m hm ⟨fun hstored ↦ hnot ((hmem hm).mpr hstored), n, hnl, (hmem hnl).mp hn, hdate⟩
  · rintro hcuts m hm ⟨hnot, n, hn, hstored, hdate⟩
    exact hcuts (hk.cuts hl hm (fun hstored' ↦ hnot ((hmem hm).mp hstored'))
      ((hmem hn).mpr hstored) hdate)

/-- When no more can be loaded, all messages are stored just if none is left out. -/
theorem perm_iff_whole (holdest : ∀ m ∈ l, m.kind = .connect → ∀ n ∈ l, ¬n.IsOlder m)
    (hmore : c.canLoadMore = false) : c.messageList.Perm l ↔ c.Whole l := by
  rw [List.perm_ext_iff_of_nodup (h.nodup hl) hl.nodup]
  constructor
  · intro hperm m hm hleft
    exact hleft.1 ((h.mem_messageList_iff hl).mp ((hperm m).mpr hm)).2
  · intro hwhole m
    rw [h.mem_messageList_iff hl]
    refine and_iff_left_of_imp fun hm ↦ ?_
    by_contra hnot
    exact hwhole m hm (h.leftOut_of_not_stores holdest hmore hm hnot)

/-! ### Pages -/

variable {r : Conversation × Answer Nat} (hr : TakesPage uri l limit c batch r)
include hr

/-- A message that is left out is never stored. -/
theorem leftOut_of_takesPage {m : Message} (hm : m ∈ l) (hleft : c.LeftOut l m) :
    r.1.LeftOut l m := by
  obtain ⟨hnot, n, hn, hstored, hdate⟩ := hleft
  refine ⟨fun hstored' ↦ ?_, n, hn, hr.stores_of_stores hstored, hdate⟩
  -- a page holds what is older than every stored message
  have hmb : m ∈ batch := ((h.stores_iff_of_takesPage hl hr hm).mp hstored').resolve_left hnot
  have hmn : m.IsOlder n :=
    ((h.mem_olderThan_oldestDate hl).mp (hr.isPage.subset m hmb)).2 n hn hstored
  exact m.not_isOlder_self ((Message.isOlder_congr_right hdate).mp hmn)

/-- A page leaves a tied conversation tied. What a page skips has the date of a message in it, as it
takes the newest. -/
theorem of_takesPage : r.1.Tied uri l where
  toCopies := h.toCopies.of_takesPage hl hr
  older := by
    intro m hm hnot hleft n hn hstored
    rw [h.stores_iff_of_takesPage hl hr hm, not_or] at hnot
    have hold : ∀ p ∈ l, c.Stores p → m.IsOlder p :=
      h.older m hm hnot.1 fun hleft' ↦ hleft (h.leftOut_of_takesPage hl hr hm hleft')
    rcases (h.stores_iff_of_takesPage hl hr hn).mp hstored with hstored' | hnb
    · exact hold n hn hstored'
    · -- the message was a candidate for the page, and it is not of the date of any in it
      have hcand : m ∈ Source.olderThan c.oldestDate l :=
        (h.mem_olderThan_oldestDate hl).mpr ⟨hm, hold⟩
      by_contra hmn
      have hnot' : ¬r.1.Stores m := by
        rw [h.stores_iff_of_takesPage hl hr hm, not_or]
        exact hnot
      exact hleft ⟨hnot', n, hn, hstored,
        hl.date_eq_of_not_isOlder hn hm (hr.isPage.newest n hnb m hcand hnot.2) hmn⟩

/-- **A page** behind the newest messages, if they leave none out. -/
theorem newest_of_takesPage (hwhole : c.Whole l) (hk : Newest k l c.messageList) :
    Newest (k + limit) l r.1.messageList := by
  have hd : r.1.Copies uri l := h.toCopies.of_takesPage hl hr
  have hold : ∀ m ∈ l, ¬c.Stores m → ∀ n ∈ l, c.Stores n → m.IsOlder n :=
    fun m hm hnot ↦ h.older m hm hnot (hwhole m hm)
  refine ⟨hd.nodup hl, fun m hm ↦ ((hd.mem_messageList_iff hl).mp hm).1, ?_,
    fun m hm n hn hnot ↦ ?_⟩
  · have htotal := (h.toCopies.perm_append hl hold).length_eq
    have hadded := (h.toCopies.perm_of_takesPage hl hr).length_eq
    have hstored := hk.length_eq
    have hpage := hr.isPage.length_eq
    rw [List.length_append] at htotal hadded
    omega
  · obtain ⟨hml, hstored⟩ := (hd.mem_messageList_iff hl).mp hm
    rw [hd.mem_messageList_iff hl, and_iff_right hn, h.stores_iff_of_takesPage hl hr hn,
      not_or] at hnot
    rcases (h.stores_iff_of_takesPage hl hr hml).mp hstored with hstored' | hmb
    · exact (hold n hn hnot.1 m hml hstored').not_isOlder
    · have hcand : n ∈ Source.olderThan c.oldestDate l :=
        (h.mem_olderThan_oldestDate hl).mpr ⟨hn, hold n hn hnot.1⟩
      exact hr.isPage.newest m hmb n hcand hnot.2

end Tied

end Conversation

namespace Sync

open Conversation

variable {σ : Type} {y : Sync σ} {uri : String} {l : List Message} {c d : Conversation}

/-! ### Runs -/

/-- The conversation after a call for the newest messages and `j` calls for older ones. -/
def afterPages (y : Sync σ) (c : Conversation) (s : σ) (j : Nat) : Conversation :=
  ((y.loads c (.latest :: List.replicate j .more)).run s).1.1

/-- Paging has led from `c` to `d`, and no more can be loaded. -/
def PagedOut (y : Sync σ) (c : Conversation) (s : σ) (d : Conversation) : Prop :=
  d.canLoadMore = false ∧ ∃ j, y.afterPages c s j = d

/-- The same, with these sizes of the first and the further pages. -/
def sized (y : Sync σ) (first more : Nat) : Sync σ :=
  { y with initialCount := first, moreCount := more }

theorem afterPages_zero (y : Sync σ) (c : Conversation) (s : σ) :
    y.afterPages c s 0 = ((y.loadLatest c).run s).1.1 := rfl

/-- A further page is one more call for older messages. -/
theorem exists_afterPages_succ (y : Sync σ) (c : Conversation) (s : σ) (j : Nat) :
    ∃ s', y.afterPages c s (j + 1) = ((y.loadMore (y.afterPages c s j)).run s').1.1 := by
  refine ⟨((y.loads c (.latest :: List.replicate j .more)).run s).2, ?_⟩
  rw [afterPages, List.replicate_succ', ← List.cons_append, run_loads_concat]
  rfl

/-- A page of size `limit` has led from `c` to `d`, or there is none any more. -/
structure PageFollows (uri : String) (l : List Message) (limit : Nat) (c d : Conversation) :
    Prop where
  tied : d.Tied uri l
  whole : d.Whole l → c.Whole l
  newest : ∀ {k}, c.Whole l → Newest k l c.messageList → Newest (k + limit) l d.messageList

/-- What a page does, in terms of what is left out. -/
theorem pageFollows_of_takesPage {limit : Nat} {batch : List Message}
    {r : Conversation × Answer Nat} (h : c.Tied uri l) (hl : History uri l)
    (hr : TakesPage uri l limit c batch r) :
    PageFollows uri l limit c r.1 where
  tied := h.of_takesPage hl hr
  whole hwhole m hm hleft := hwhole m hm (h.leftOut_of_takesPage hl hr hm hleft)
  newest := h.newest_of_takesPage hl hr

/-- **A page and what is left out**: what was left out before, and what it leaves out at its end. -/
theorem PageFollows.whole_iff {limit k : Nat} (h : PageFollows uri l limit c d) (hl : History uri l)
    (hk : c.Whole l → Newest k l c.messageList) :
    d.Whole l ↔ c.Whole l ∧ ¬Cuts l (k + limit) := by
  constructor
  · intro hwhole
    have hc : c.Whole l := h.whole hwhole
    exact ⟨hc, (h.tied.whole_iff hl (h.newest hc (hk hc))).mp hwhole⟩
  · rintro ⟨hc, hcuts⟩
    exact (h.tied.whole_iff hl (h.newest hc (hk hc))).mpr hcuts

/-- Once all is stored, the newest messages are all, however many are asked for. -/
theorem newest_of_perm {k k' : Nat} (hk : Newest k l c.messageList) (hperm : c.messageList.Perm l)
    (hle : k ≤ k') : Newest k' l c.messageList := by
  have hlength := hk.length_eq
  have hall := hperm.length_eq
  exact ⟨hk.nodup, hk.subset, by omega, hk.newest⟩

section

variable (hl : History uri l) (hserves : y.source.Serves uri l)
include hl hserves

theorem pageFollows_loadLatest {s : Connection} (hs : s ≠ .closed) (server : σ) :
    PageFollows uri l y.initialCount (new uri s)
      ((y.loadLatest (new uri s)).run server).1.1 := by
  obtain ⟨batch, hpage⟩ :=
    takesPage_loadLatest hserves hl (paging_new uri s l) (needsMessages_new uri hs) server
  exact pageFollows_of_takesPage (tied_new uri s l) hl hpage

variable (hcount : 0 < y.moreCount)
include hcount

/-- A further page is taken in, or there is none: paging has come to an end, or a message that asks
for the connection is there. -/
theorem pageFollows_loadMore (holdest : ∀ m ∈ l, m.kind = .connect → ∀ n ∈ l, ¬n.IsOlder m)
    (h : c.Tied uri l) (s : σ) :
    PageFollows uri l y.moreCount c ((y.loadMore c).run s).1.1 := by
  cases hdue : c.canLoadMore with
  | false =>
    rw [loadMore_of_not_possible hdue]
    exact ⟨h, id, fun hwhole hk ↦
      newest_of_perm hk ((h.perm_iff_whole hl holdest hdue).mpr hwhole) (Nat.le_add_right _ _)⟩
  | true =>
    obtain ⟨batch, hpage, -⟩ := takesPage_loadMore hserves hl hcount h.toPaging hdue s
    exact pageFollows_of_takesPage h hl hpage

variable {s : Connection} (hs : s ≠ .closed) (server : σ)
  (holdest : ∀ m ∈ l, m.kind = .connect → ∀ n ∈ l, ¬n.IsOlder m)
include hs holdest

/-- **Paging and groups.** Nothing is left out just if no number of messages that was reached cuts a
group, and then the newest messages are stored. -/
theorem whole_afterPages_iff (j : Nat) :
    (y.afterPages (new uri s) server j).Tied uri l ∧
      ((y.afterPages (new uri s) server j).Whole l →
        Newest (y.initialCount + j * y.moreCount) l
          (y.afterPages (new uri s) server j).messageList) ∧
      ((y.afterPages (new uri s) server j).Whole l ↔
        ∀ t ≤ j, ¬Cuts l (y.initialCount + t * y.moreCount)) := by
  induction j with
  | zero =>
    have hpage := pageFollows_loadLatest hl hserves hs server
    have hk : Newest (0 + y.initialCount) l _ :=
      hpage.newest (whole_new uri s l) (newest_new uri s l)
    have hwhole := hpage.whole_iff hl fun _ ↦ newest_new uri s l
    rw [Nat.zero_add] at hk hwhole
    rw [afterPages_zero, Nat.zero_mul, Nat.add_zero, hwhole, and_iff_right (whole_new uri s l)]
    refine ⟨hpage.tied, fun _ ↦ hk, fun hcuts t ht ↦ ?_, fun hcuts ↦ ?_⟩
    · rwa [Nat.le_zero.mp ht, Nat.zero_mul, Nat.add_zero]
    · simpa using hcuts 0 (Nat.le_refl 0)
  | succ j ih =>
    obtain ⟨htied, hnewest, hiff⟩ := ih
    obtain ⟨s', hnext⟩ := y.exists_afterPages_succ (new uri s) server j
    have hpage := pageFollows_loadMore hl hserves hcount holdest htied s'
    have hwhole := hpage.whole_iff hl hnewest
    have hk := fun hc ↦ hpage.newest hc (hnewest hc)
    have hsum : y.initialCount + j * y.moreCount + y.moreCount =
        y.initialCount + (j + 1) * y.moreCount := by rw [Nat.succ_mul, Nat.add_assoc]
    rw [hsum] at hwhole hk
    rw [hnext]
    refine ⟨hpage.tied, fun hd ↦ hk (hpage.whole hd), hwhole.trans ?_⟩
    rw [hiff]
    refine ⟨fun ⟨hcuts, hlast⟩ t ht ↦ ?_, fun hcuts ↦ ⟨fun t ht ↦ hcuts t (by omega), ?_⟩⟩
    · rcases Nat.le_succ_iff.mp ht with ht | rfl
      · exact hcuts t ht
      · exact hlast
    · exact hcuts (j + 1) (Nat.le_refl _)

/-- Each page but the last one brings in some message. -/
theorem le_size_afterPages
    (hmore : ∀ j, (y.afterPages (new uri s) server j).canLoadMore = true) (j : Nat) :
    j ≤ (y.afterPages (new uri s) server j).size := by
  induction j with
  | zero => exact Nat.zero_le _
  | succ j ih =>
    have htied := (whole_afterPages_iff hl hserves hcount hs server holdest j).1
    obtain ⟨s', hnext⟩ := y.exists_afterPages_succ (new uri s) server j
    obtain ⟨batch, hpage, hlast⟩ :=
      takesPage_loadMore hserves hl hcount htied.toPaging (hmore j) s'
    have hsize := htied.toCopies.size_of_takesPage hl hpage
    have hmore' := hmore (j + 1)
    rw [hnext] at hmore' ⊢
    cases batch with
    | nil =>
      rw [canLoadMore, hlast rfl] at hmore'
      simp at hmore'
    | cons m batch =>
      rw [List.length_cons] at hsize
      omega

/-- **Paging ends**, since there are no more messages to store than the history has. -/
theorem exists_pagedOut : ∃ d, y.PagedOut (new uri s) server d := by
  by_contra hnone
  have hmore : ∀ j, (y.afterPages (new uri s) server j).canLoadMore = true := by
    intro j
    by_contra hend
    exact hnone ⟨_, Bool.eq_false_iff.mpr hend, j, rfl⟩
  have hcopies :=
    (whole_afterPages_iff hl hserves hcount hs server holdest (l.length + 1)).1.toCopies
  have hsub : (y.afterPages (new uri s) server (l.length + 1)).messageList ⊆ l :=
    fun m hm ↦ ((hcopies.mem_messageList_iff hl).mp hm).1
  have hle := (List.subperm_of_subset (hcopies.nodup hl) hsub).length_le
  rw [length_messageList] at hle
  have hgrows := le_size_afterPages hl hserves hcount hs server holdest hmore (l.length + 1)
  omega

/-- **What is missing in the end.** Every date of the history is there, and all of the history is if
and only if no number of messages that is reached page by page cuts a group of equal dates. -/
theorem PagedOut.perm_iff (hd : y.PagedOut (new uri s) server d) :
    (∀ m ∈ l, ∃ n ∈ d.messageList, n.date = m.date) ∧
      (d.messageList.Perm l ↔ ∀ t, ¬Cuts l (y.initialCount + t * y.moreCount)) := by
  obtain ⟨hmore, j, rfl⟩ := hd
  obtain ⟨htied, hnewest, hiff⟩ := whole_afterPages_iff hl hserves hcount hs server holdest j
  have hmem := fun m ↦ htied.toCopies.mem_messageList_iff hl (m := m)
  refine ⟨fun m hm ↦ ?_, ?_⟩
  · by_cases hstored : (y.afterPages (new uri s) server j).Stores m
    · exact ⟨m, (hmem m).mpr ⟨hm, hstored⟩, rfl⟩
    · obtain ⟨-, n, hn, hstored', hdate⟩ := htied.leftOut_of_not_stores holdest hmore hm hstored
      exact ⟨n, (hmem n).mpr ⟨hn, hstored'⟩, hdate⟩
  · rw [htied.perm_iff_whole hl holdest hmore]
    refine ⟨fun hwhole t hcuts ↦ ?_, fun hcuts ↦ hiff.mpr fun t _ ↦ hcuts t⟩
    -- up to the last call nothing was cut, and afterwards there is nothing more to cut
    have hlength := (hnewest hwhole).length_eq
    have hall := ((htied.perm_iff_whole hl holdest hmore).mpr hwhole).length_eq
    by_cases ht : t ≤ j
    · exact hiff.mp hwhole t ht hcuts
    · have hlt := hcuts.lt_length
      have hmul : j * y.moreCount ≤ t * y.moreCount := Nat.mul_le_mul_right _ (by omega)
      omega

end

/-! ### Page sizes -/

/-- **Page sizes and equal dates.** A source serves a history in pages to a fresh conversation that
is not closed. Whatever the page sizes, paging ends with every date of the history, and with all of
the history just if no number of messages that is reached page by page cuts a group of equal dates.
So what is stored in the end is the same for all page sizes if and only if all dates differ. -/
theorem pagedOut_iff {history : List Message} (hl : History uri history)
    (holdest : ∀ m ∈ history, m.kind = .connect → ∀ n ∈ history, ¬n.IsOlder m)
    (hserves : y.source.Serves uri history) {s : Connection} (hs : s ≠ .closed)
    (server server' : σ) :
    (∀ first more, 0 < more →
        (∃ d, (y.sized first more).PagedOut (new uri s) server d) ∧
          ∀ d, (y.sized first more).PagedOut (new uri s) server d →
            (∀ m ∈ history, ∃ n ∈ d.messageList, n.date = m.date) ∧
              (d.messageList.Perm history ↔ ∀ t, ¬Cuts history (first + t * more))) ∧
      ((∀ first more first' more', 0 < first → 0 < more → 0 < first' → 0 < more' → ∀ d d',
          (y.sized first more).PagedOut (new uri s) server d →
          (y.sized first' more').PagedOut (new uri s) server' d' →
          ∀ m, m ∈ d.messageList ↔ m ∈ d'.messageList) ↔
        history.Pairwise fun m n ↦ m.date ≠ n.date) := by
  have hends : ∀ first more, 0 < more → ∀ server,
      ∃ d, (y.sized first more).PagedOut (new uri s) server d :=
    fun first more hmore server ↦
      exists_pagedOut (y := y.sized first more) hl hserves hmore hs server holdest
  have htied : ∀ {first more server d}, 0 < more →
      (y.sized first more).PagedOut (new uri s) server d → d.Tied uri history := by
    rintro first more server _ hmore ⟨-, j, rfl⟩
    exact (whole_afterPages_iff (y := y.sized first more) hl hserves hmore hs server holdest j).1
  have hiff : ∀ {first more server d}, 0 < more →
      (y.sized first more).PagedOut (new uri s) server d →
        (∀ m ∈ history, ∃ n ∈ d.messageList, n.date = m.date) ∧
          (d.messageList.Perm history ↔ ∀ t, ¬Cuts history (first + t * more)) :=
    fun {first more server d} hmore hd ↦
      PagedOut.perm_iff (y := y.sized first more) hl hserves hmore hs server holdest hd
  refine ⟨fun first more hmore ↦ ⟨hends first more hmore server, fun d ↦ hiff hmore⟩,
    fun hsame ↦ hl.nodup.pairwise_of_forall_ne fun m hm n hn hne hdate ↦ ?_,
    fun hdates first more first' more' _ hmore _ hmore' d d' hd hd' m ↦ ?_⟩
  · -- one first page that cuts the group of the two messages, and one that holds all of the history
    have hcuts : Cuts history ((newerThan history m).length + 1) := hl.cuts hm hn hne hdate
    obtain ⟨d, hd⟩ := hends ((newerThan history m).length + 1) 1 Nat.one_pos server
    obtain ⟨d', hd'⟩ := hends history.length 1 Nat.one_pos server'
    have hall : d'.messageList.Perm history :=
      (hiff Nat.one_pos hd').2.mpr fun t hcuts' ↦ absurd hcuts'.lt_length (by omega)
    have hmem := hsame _ 1 _ 1 (Nat.succ_pos _) Nat.one_pos (List.length_pos_of_mem hm)
      Nat.one_pos d d' hd hd'
    have hperm : d.messageList.Perm history :=
      ((List.perm_ext_iff_of_nodup ((htied Nat.one_pos hd).toCopies.nodup hl)
        ((htied Nat.one_pos hd').toCopies.nodup hl)).mpr hmem).trans hall
    exact (hiff Nat.one_pos hd).2.mp hperm 0 (by rwa [Nat.zero_mul, Nat.add_zero])
  · have hall := ((htied hmore hd).perm_iff_whole hl holdest hd.1).mpr (whole_of_dates hdates)
    have hall' := ((htied hmore' hd').perm_iff_whole hl holdest hd'.1).mpr (whole_of_dates hdates)
    exact (hall.trans hall'.symm).mem_iff

/-- Serves the two messages one by one. -/
def singly : Sync (List Response) := ⟨.archive tiedPair, "n", 1, 1⟩

/-- A first page for both leaves none out, a first page for one does. -/
theorem pagedOut_iff_tiedPair :
    History "c" tiedPair ∧
      (∀ m ∈ tiedPair, m.kind = .connect → ∀ n ∈ tiedPair, ¬n.IsOlder m) ∧
      singly.source.Serves "c" tiedPair ∧ Connection.suggested ≠ .closed ∧
      (∃ d, (singly.sized 2 1).PagedOut (new "c" .suggested) [] d ∧ d.messageList.Perm tiedPair) ∧
      ∃ d, (singly.sized 1 1).PagedOut (new "c" .suggested) [] d ∧
        ¬d.messageList.Perm tiedPair := by
  have holdest : ∀ m ∈ tiedPair, m.kind = .connect → ∀ n ∈ tiedPair, ¬n.IsOlder m := by
    decide +kernel
  have hserves : singly.source.Serves "c" tiedPair := Source.serves_archive history_tiedPair
  have hs : Connection.suggested ≠ .closed := by decide
  have hsizes := (pagedOut_iff history_tiedPair holdest hserves hs [] []).1
  refine ⟨history_tiedPair, holdest, hserves, hs, ?_, ?_⟩
  · obtain ⟨⟨d, hd⟩, hall⟩ := hsizes 2 1 Nat.one_pos
    refine ⟨d, hd, (hall d hd).2.mpr fun t hcuts ↦ ?_⟩
    have hlt : 2 + t * 1 < 2 := hcuts.lt_length
    omega
  · obtain ⟨⟨d, hd⟩, hall⟩ := hsizes 1 1 Nat.one_pos
    exact ⟨d, hd, fun hperm ↦ (hall d hd).2.mp hperm 0 (by decide +kernel)⟩

/-- Paging one by one ends with the last message of the chat, paging two by two with both. -/
theorem not_same_tiedPair :
    History "c" tiedPair ∧ (∀ m ∈ tiedPair, m.kind ≠ .connect) ∧
      singly.source.Serves "c" tiedPair ∧
      (singly.sized 1 1).PagedOut (new "c" .connected) []
        ((singly.sized 1 1).afterPages (new "c" .connected) [] 1) ∧
      (singly.sized 2 2).PagedOut (new "c" .connected) []
        ((singly.sized 2 2).afterPages (new "c" .connected) [] 1) ∧
      ¬∀ m, m ∈ ((singly.sized 1 1).afterPages (new "c" .connected) [] 1).messageList ↔
        m ∈ ((singly.sized 2 2).afterPages (new "c" .connected) [] 1).messageList := by
  have hone : ((singly.sized 1 1).afterPages (new "c" .connected) [] 1).messageList =
      tiedPair.take 1 := by cbv
  have hboth : ((singly.sized 2 2).afterPages (new "c" .connected) [] 1).messageList =
      tiedPair.reverse := by cbv
  refine ⟨history_tiedPair, by decide, Source.serves_archive history_tiedPair, ⟨by cbv, 1, rfl⟩,
    ⟨by cbv, 1, rfl⟩, fun hsame ↦ ?_⟩
  rw [hone, hboth] at hsame
  exact absurd ((hsame _).mpr List.mem_cons_self) (by decide)

end Sync

end Parley
