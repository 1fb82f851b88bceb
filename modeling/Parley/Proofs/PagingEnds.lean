import Mathlib
import Parley.Proofs.AtRest
import Parley.Proofs.StepLogs
import Parley.Source.Script

/-!
# Paging ends

A call for older messages that gets a batch either takes in an event that was unknown, or notes that
the history is exhausted. The second happens once, since nothing resets the note. The first happens
at most once for each URI that is ever delivered, since the new event lies under a URI that was
free, and nothing that is stored is lost. So whatever the server answers, and whatever else happens
to the conversation, only finitely many calls get a batch.

**The measure.** `room` counts the URIs that are still free, and one more as long as the history is
not exhausted. No step makes room (`room_le_of_reaches`), and a call that gets a batch takes some
(`room_finishMore_lt`).
-/

namespace Parley

namespace Conversation

variable {c d : Conversation}

theorem canLoadMore_of_exhausted (h : c.exhausted = true) : c.canLoadMore = false := by
  simp [canLoadMore, h]

theorem exhausted_of_canLoadMore (h : c.canLoadMore = true) : c.exhausted = false := by
  rw [← Bool.not_eq_true]
  intro hex
  rw [canLoadMore_of_exhausted hex] at h
  exact Bool.false_ne_true h

/-- A failed call leaves it possible to try again. -/
theorem canLoadMore_failMessages (h : c.canLoadMore = true) :
    c.beginMessages.failMessages.canLoadMore = true := by
  have hidle : c.beginMessages.failMessages.isLoading = false := isLoading_failMessages _
  have hrest : (!c.exhausted && !c.isComplete) = true := by
    rw [canLoadMore, Bool.and_assoc] at h
    exact (Bool.and_eq_true_iff.mp h).2
  rw [canLoadMore, hidle, Bool.and_assoc]
  exact hrest

/-- A batch that has an unknown event fills a URI that was free. -/
theorem Keyed.exists_free_of_snd_upsertAll (l : List Message) :
    ∀ {c : Conversation}, c.Keyed → 0 < (c.upsertAll l).2 →
      ∃ m ∈ l, c.message? m.uri = none ∧ (c.upsertAll l).1.message? m.uri ≠ none := by
  induction l with
  | nil => exact fun _ hn ↦ absurd hn (Nat.lt_irrefl 0)
  | cons m l ih =>
    intro c h hn
    have hkeyed : (c.upsert m).1.Keyed := h.upsert m
    have hgrows : Grows (c.upsert m).1 ((c.upsert m).1.upsertAll l).1 :=
      hkeyed.grows_perform (.upsertAll l)
    cases hadded : (c.upsert m).2 with
    | true =>
      -- the record itself is the unknown event, and it stays
      have hi := intake_upsert h m
      rcases hr : c.upsert m with ⟨e, b⟩
      rw [hr] at hadded hi
      simp only at hadded
      subst hadded
      cases hi with
      | added _ hnew =>
        rw [hr] at hgrows
        obtain ⟨n, hn, -⟩ := hgrows.retained m.uri m (c.message?_put_self m)
        refine ⟨m, List.mem_cons_self, hnew, ?_⟩
        rw [fst_upsertAll_cons, hr, hn]
        exact Option.some_ne_none n
    | false =>
      rw [snd_upsertAll_cons, hadded] at hn
      obtain ⟨m', hm', hfree, hfilled⟩ := ih hkeyed hn
      refine ⟨m', List.mem_cons_of_mem _ hm', ?_, hfilled⟩
      refine Option.eq_none_iff_forall_ne_some.mpr fun n hn' ↦ ?_
      obtain ⟨n', hn'', -⟩ := (h.grows_upsert m).retained _ n hn'
      exact nomatch hfree.symm.trans hn''

/-! ### The measure -/

/-- The URIs under which no message is stored. -/
def free (U : Finset String) (c : Conversation) : Finset String :=
  U.filter fun u ↦ c.message? u = none

/-- How many more batches a conversation can get, if all records come with a URI of `U`: one for
each free URI, and the last one. -/
def room (U : Finset String) (c : Conversation) : Nat :=
  if c.exhausted then 0 else (free U c).card + 1

/-- There is never more room than a fresh conversation has. -/
theorem room_le_card (U : Finset String) (c : Conversation) : room U c ≤ U.card + 1 := by
  have hfree : (free U c).card ≤ U.card := Finset.card_filter_le _ _
  unfold room
  split
  · exact Nat.zero_le _
  · omega

/-- What has grown has no more free URIs than it had. -/
theorem Grows.free_subset (h : Grows c d) (U : Finset String) : free U d ⊆ free U c := by
  intro u hu
  obtain ⟨hmem, hnone⟩ := Finset.mem_filter.mp hu
  refine Finset.mem_filter.mpr ⟨hmem, Option.eq_none_iff_forall_ne_some.mpr fun m hm ↦ ?_⟩
  obtain ⟨n, hn, -⟩ := h.retained u m hm
  exact nomatch hnone.symm.trans hn

/-- **No step makes room.** -/
theorem room_le_of_reaches (h : c.Reaches d) (hc : c.Keyed) (U : Finset String) :
    room U d ≤ room U c := by
  have hfree : (free U d).card ≤ (free U c).card :=
    Finset.card_le_card ((h.grows hc).free_subset U)
  cases hex : c.exhausted with
  | true => simp [room, h.exhausted hex, hex]
  | false =>
    simp only [room, hex]
    split
    · exact Nat.zero_le _
    · simpa using hfree

end Conversation

namespace Sync

open Conversation

variable {σ : Type} {y : Sync σ} {c d : Conversation} {log : List Entry}

/-! ### Batches -/

/-- The answer is how many messages there are more. -/
theorem size_finishMore (hc : c.Keyed) (batch : List Message) :
    (finishMore c batch).1.size = c.size + (finishMore c batch).2 := by
  have hsize := hc.size_upsertAll batch
  by_cases hn : (c.upsertAll batch).2 = 0
  · rw [finishMore_of_eq_zero hn]
    rwa [hn] at hsize
  · rw [finishMore_of_ne_zero hn]
    exact hsize

theorem exhausted_finishMore {batch : List Message} (h : (finishMore c batch).2 = 0) :
    (finishMore c batch).1.exhausted = true := by
  have hn : (c.upsertAll batch).2 = 0 := h
  rw [finishMore_of_eq_zero hn]
  rfl

/-- **A batch takes room.** -/
theorem room_finishMore_lt (hc : c.Keyed) (hex : c.exhausted = false) {batch : List Message}
    {U : Finset String} (hU : ∀ m ∈ batch, m.uri ∈ U) :
    room U (finishMore c batch).1 < room U c := by
  have hroom : room U c = (free U c).card + 1 := by simp [room, hex]
  by_cases hn : (c.upsertAll batch).2 = 0
  · rw [finishMore_of_eq_zero hn, hroom]
    exact Nat.succ_pos _
  · obtain ⟨m, hm, hfree, hfilled⟩ := hc.exists_free_of_snd_upsertAll batch (Nat.pos_of_ne_zero hn)
    have hgrows : Grows c (c.finishMessages batch).1 := hc.grows_perform (.finishMessages batch)
    -- the URI of the new event was free and is not any more
    have hlt : (free U (c.finishMessages batch).1).card < (free U c).card := by
      refine Finset.card_lt_card (Finset.ssubset_iff_of_subset (hgrows.free_subset U) |>.mpr ?_)
      refine ⟨m.uri, Finset.mem_filter.mpr ⟨hU m hm, hfree⟩, fun hmem ↦ ?_⟩
      exact hfilled (Finset.mem_filter.mp hmem).2
    rw [finishMore_of_ne_zero hn, hroom]
    unfold room
    split
    · exact Nat.succ_pos _
    · omega

/-! ### Entries -/

/-- The batch that a call for older messages has got. -/
def Entry.batch? (e : Entry) : Option (List Message) :=
  match e.step, e.exchanges with
  | .load .more, [.messages _ _ _ (.ok batch)] => some batch
  | _, _ => none

/-- Only a call for older messages gets a batch, and it takes it in. -/
theorem StepExchange.of_batch? {x : Step} {t : List Exchange} {r : Conversation × Reply}
    (h : StepExchange y c x t r) {batch : List Message}
    (hb : Entry.batch? ⟨x, c, t, r.1, r.2⟩ = some batch) :
    c.canLoadMore = true ∧
      r = (finishMore c.beginMessages batch).map id fun n ↦ .count (.ok n) := by
  cases h with
  | more h =>
    cases h with
    | notDue | failed => exact nomatch hb
    | arrived hdue batch' =>
      obtain rfl : batch' = batch := Option.some.inj hb
      exact ⟨hdue, rfl⟩
  | _ => exact nomatch hb

/-- Batches take up room, so there are no more of them than there was room for at the start. -/
theorem Log.length_batches_le (h : Log y c log d) (hc : c.Keyed) {U : Finset String}
    (hU : ∀ e ∈ log, ∀ batch, e.batch? = some batch → ∀ m ∈ batch, m.uri ∈ U) :
    (log.filterMap Entry.batch?).length ≤ room U c := by
  induction h with
  | nil => exact Nat.zero_le _
  | @cons c d x t r log h _ ih =>
    obtain ⟨hfirst, hrest⟩ := List.forall_mem_cons.mp hU
    have hlater := ih (h.reaches.keyed hc) hrest
    rcases hb : Entry.batch? ⟨x, c, t, r.1, r.2⟩ with - | batch
    · rw [List.filterMap_cons_none hb]
      exact hlater.trans (room_le_of_reaches h.reaches hc U)
    · obtain ⟨hdue, rfl⟩ := h.of_batch? hb
      have hkeyed : c.beginMessages.Keyed := hc.perform .beginMessages
      have hex : c.exhausted = false := exhausted_of_canLoadMore hdue
      have hlt : room U (finishMore c.beginMessages batch).1 < room U c :=
        room_finishMore_lt hkeyed hex (hfirst batch hb)
      rw [List.filterMap_cons_some hb, List.length_cons]
      exact (Nat.succ_le_succ hlater).trans hlt

theorem StepExchange.moreExchange {x : Step} {t : List Exchange} {r : Conversation × Reply}
    (h : StepExchange y c x t r) (hx : x = .load .more) :
    ∃ answer, r.2 = .count answer ∧ MoreExchange y c t (r.1, answer) := by
  cases h with
  | more h => exact ⟨_, rfl, h⟩
  | _ => exact nomatch hx

/-- What a call for older messages answers. -/
theorem MoreExchange.outcome (hc : c.Keyed) {t : List Exchange} {r : Conversation × Answer Nat}
    (h : MoreExchange y c t r) :
    (c.canLoadMore = false ∧ t = [] ∧ r.2 = .ok 0 ∧ r.1 = c) ∨
      (∃ f, t = [.messages c.uri y.moreCount c.oldestDate (.error f)] ∧ r.2 = .error f ∧
        r.1.canLoadMore = true) ∨
      ∃ batch n, t = [.messages c.uri y.moreCount c.oldestDate (.ok batch)] ∧ r.2 = .ok n ∧
        r.1.size = c.size + n ∧ (n = 0 → r.1.canLoadMore = false) := by
  cases h with
  | notDue hdue => exact Or.inl ⟨hdue, rfl, rfl, rfl⟩
  | failed hdue f => exact Or.inr (Or.inl ⟨f, rfl, rfl, canLoadMore_failMessages hdue⟩)
  | arrived hdue batch =>
    have hkeyed : c.beginMessages.Keyed := hc.perform .beginMessages
    refine Or.inr (Or.inr ⟨batch, (finishMore c.beginMessages batch).2, rfl, rfl, ?_, fun hn ↦ ?_⟩)
    · exact size_finishMore hkeyed batch
    · exact canLoadMore_of_exhausted (exhausted_finishMore hn)

/-- Once the history is exhausted, calls for older messages do nothing. -/
theorem MoreExchange.of_exhausted (hc : c.exhausted = true) {t : List Exchange}
    {r : Conversation × Answer Nat} (h : MoreExchange y c t r) : t = [] ∧ r = (c, .ok 0) := by
  cases h with
  | notDue => exact ⟨rfl, rfl⟩
  | failed hdue | arrived hdue => exact nomatch (canLoadMore_of_exhausted hc).symm.trans hdue

/-- A call that has got a batch without an unknown event has exhausted the history. -/
theorem StepExchange.exhausted_of_batch? {x : Step} {t : List Exchange} {r : Conversation × Reply}
    (h : StepExchange y c x t r) (hb : (Entry.batch? ⟨x, c, t, r.1, r.2⟩).isSome = true)
    (hr : r.2 = .count (.ok 0)) : r.1.exhausted = true := by
  obtain ⟨batch, hbatch⟩ := Option.isSome_iff_exists.mp hb
  obtain ⟨-, rfl⟩ := h.of_batch? hbatch
  have hn : (finishMore c.beginMessages batch).2 = 0 := Except.ok.inj (Reply.count.inj hr)
  exact exhausted_finishMore hn

/-! ### Runs -/

/-- **Paging ends, whatever the server answers.** Take any steps with a conversation: actions, and
calls to any server. A call for older messages that is not possible asks for nothing and changes
nothing. One that fails leaves it possible to call again. One that gets a batch answers with how
many messages there are more; if there is none, it is not possible to call again, now or at any
later point of the run. So if all records that such calls have got come with URIs of a finite set,
there was at most one batch for each of these URIs, and one more. -/
theorem paging_ends (uri : String) (s : Connection) (y : Sync σ) (xs : List Step) (s₀ : σ)
    {log : List Entry} (hrun : ((y.steps (new uri s) xs).run s₀).1 = (d, log)) :
    log.map Entry.step = xs ∧
    (∀ e ∈ log, e.step = .load .more →
      (e.before.canLoadMore = false ∧ e.exchanges = [] ∧ e.reply = .count (.ok 0) ∧
        e.after = e.before) ∨
      (∃ f, e.exchanges = [.messages uri y.moreCount e.before.oldestDate (.error f)] ∧
        e.reply = .count (.error f) ∧ e.after.canLoadMore = true) ∨
      ∃ batch n, e.exchanges = [.messages uri y.moreCount e.before.oldestDate (.ok batch)] ∧
        e.reply = .count (.ok n) ∧ e.after.size = e.before.size + n ∧
        (n = 0 → e.after.canLoadMore = false)) ∧
    (log.Pairwise fun e later ↦ e.batch?.isSome = true → e.reply = .count (.ok 0) →
      later.before.canLoadMore = false ∧ later.after.canLoadMore = false ∧
        (later.step = .load .more →
          later.exchanges = [] ∧ later.reply = .count (.ok 0) ∧ later.after = later.before)) ∧
    ∀ U : Finset String,
      (∀ e ∈ log, ∀ batch, e.batch? = some batch → ∀ m ∈ batch, m.uri ∈ U) →
        (log.filterMap Entry.batch?).length ≤ U.card + 1 := by
  have hlog : Log y (new uri s) log d ∧ log.map Entry.step = xs := by
    have hsteps := log_steps y xs (new uri s) s₀
    rwa [hrun] at hsteps
  have hnew : (new uri s).Keyed := keyed_new uri s
  refine ⟨hlog.2, fun e he hmore ↦ ?_, ?_, fun U hU ↦ ?_⟩
  · obtain ⟨hreached, hstep⟩ := hlog.1.of_mem he
    obtain ⟨answer, hreply, hexchange⟩ := hstep.moreExchange hmore
    have houtcome := hexchange.outcome (hreached.keyed hnew)
    have huri : e.before.uri = uri := (hreached.grows hnew).uri_eq
    rw [huri] at houtcome
    obtain ⟨hdue, ht, rfl, hd⟩ | ⟨f, ht, rfl, hd⟩ | ⟨batch, n, ht, rfl, hsize, hend⟩ := houtcome
    · exact Or.inl ⟨hdue, ht, hreply, hd⟩
    · exact Or.inr (Or.inl ⟨f, ht, hreply, hd⟩)
    · exact Or.inr (Or.inr ⟨batch, n, ht, hreply, hsize, hend⟩)
  · refine hlog.1.pairwise_reaches.imp_of_mem fun {e later} he hlater hreaches hb hr ↦ ?_
    have hend : e.after.exhausted = true := (hlog.1.of_mem he).2.exhausted_of_batch? hb hr
    have hbefore : later.before.exhausted = true := hreaches.exhausted hend
    have hstep := (hlog.1.of_mem hlater).2
    have hafter : later.after.exhausted = true := hstep.reaches.exhausted hbefore
    refine ⟨canLoadMore_of_exhausted hbefore, canLoadMore_of_exhausted hafter, fun hmore ↦ ?_⟩
    obtain ⟨answer, hreply, hexchange⟩ := hstep.moreExchange hmore
    obtain ⟨ht, hsame⟩ := hexchange.of_exhausted hbefore
    obtain ⟨hd, rfl⟩ := Prod.mk.inj hsame
    exact ⟨ht, hreply, hd⟩
  · exact (hlog.1.length_batches_le hnew hU).trans (room_le_card U _)

/-- A message without a date. -/
def undated : Message := { uri := "m1", connectionUri := "c", unread := true }

/-- The server has one message, which it delivers again, as it has no date to go back from. A call
in between fails, and what would come next is never asked for. -/
def repeating : Script where
  batches := [.ok [undated], .error ⟨.fetch, "503"⟩, .ok [undated],
    .ok [{ undated with uri := "m2" }]]

/-- Older messages are asked for again and again. -/
def goingBack : List Step :=
  [.load .more, .perform .markAllRead, .load .more, .load .more, .sync, .load .more]

/-- The server sends the same message again, and that is the end of paging, however often older
messages are asked for. -/
theorem paging_ends_goingBack :
    ∃ d log,
      (((Sync.mk Script.source "n" 15 5).steps (new "c" .suggested) goingBack).run repeating).1 =
        (d, log) ∧
      log.filterMap Entry.batch? = [[undated], [undated]] ∧
      (log.filterMap Entry.batch?).length ≤ ({"m1"} : Finset String).card + 1 := by
  obtain ⟨-, -, -, hbound⟩ := paging_ends "c" .suggested ⟨Script.source, "n", 15, 5⟩ goingBack
    repeating rfl
  have hbatches : (((Sync.mk Script.source "n" 15 5).steps (new "c" .suggested) goingBack).run
      repeating).1.2.filterMap Entry.batch? = [[undated], [undated]] := by cbv
  refine ⟨_, _, rfl, hbatches, hbound {"m1"} fun e he batch hb m hm ↦ ?_⟩
  have hmem : batch ∈ [[undated], [undated]] :=
    hbatches ▸ List.mem_filterMap.mpr ⟨e, he, hb⟩
  obtain rfl : batch = [undated] := by simpa using hmem
  obtain rfl : m = undated := by simpa using hm
  decide

end Sync

end Parley
