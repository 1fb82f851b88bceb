import Mathlib
import Parley.Proofs.Paging

/-!
# Gaps that paging leaves

Refreshing the agreements looks up single messages, however old they are, and the next page starts
from the oldest message that is stored by then. What lies between such a message and the others is
never asked for again.

**The exact condition.** Every call leaves the conversation paging through the history
(`Paging.load`). A call for a page leaves all gaps as they are (`Paging.inGap_load_iff`), so that
only a refresh opens or closes one. When no more can be loaded, what is missing is just what lay in
a gap after the last refresh (`stores_iff_not_inGap`).
-/

namespace Parley

namespace Conversation

variable {σ : Type} {y : Sync σ} {uri : String} {l : List Message} {c d : Conversation}

/-! ### Refreshing the agreements -/

/-- A refresh takes in records of the history, so it keeps paging going; what it may do is leave a
gap. -/
theorem Paging.refreshed (h : c.Paging uri l) (hl : History uri l)
    (hlooks : y.source.LooksUp l) (hd : y.Refreshed c d) : d.Paging uri l := by
  cases hd with
  | notDue => exact h
  | failed => exact h.of_map_unmarked rfl (fun _ ↦ rfl) h.idle rfl
  | arrived snapshot found hfound =>
    have hmem : ∀ m ∈ found, m ∈ l := by
      intro m hm
      obtain ⟨need, u, s, hanswer⟩ := hfound m hm
      exact hlooks need u s m hanswer
    have hsnapshot : (c.beginSnapshot.applySnapshot snapshot).Paging uri l :=
      h.of_map_unmarked rfl (map_unmarked_applySnapshot c.beginSnapshot snapshot) h.idle rfl
    have htakes := hsnapshot.toDrawnFrom.takes_upsertAll hl hmem
    obtain ⟨ms, hms⟩ := exists_upsertAll_eq found (c.beginSnapshot.applySnapshot snapshot)
    refine hsnapshot.of_takes htakes hmem ?_ ?_
    · rw [hms]
      exact hsnapshot.idle
    · rw [hms]
      rfl

/-! ### Calls -/

/-- A call for a page that is not due changes nothing; any other brings in a page. -/
theorem Paging.load_page (h : c.Paging uri l) (hl : History uri l)
    (hserves : y.source.Serves uri l) (hcount : 0 < y.moreCount) {call : Load}
    (hcall : ∀ force, call ≠ .agreement force) (s : σ) :
    ((y.load c call).run s).1 = (c, .ok 0) ∨
      ∃ limit batch, TakesPage uri l limit c batch ((y.load c call).run s).1 := by
  cases call with
  | latest =>
    cases hdue : c.needsMessages with
    | false =>
      rw [Sync.load, Sync.loadLatest_of_not_needed hdue]
      exact Or.inl rfl
    | true => exact Or.inr ⟨_, Sync.takesPage_loadLatest hserves hl h hdue s⟩
  | more =>
    cases hdue : c.canLoadMore with
    | false =>
      rw [Sync.load, Sync.loadMore_of_not_possible hdue]
      exact Or.inl rfl
    | true =>
      obtain ⟨batch, hpage, -⟩ := Sync.takesPage_loadMore hserves hl hcount h hdue s
      exact Or.inr ⟨_, batch, hpage⟩
  | agreement force => exact absurd rfl (hcall force)

/-- **One call.** -/
theorem Paging.load (h : c.Paging uri l) (hl : History uri l) (hserves : y.source.Serves uri l)
    (hlooks : y.source.LooksUp l) (hcount : 0 < y.moreCount) (call : Load) (s : σ) :
    ((y.load c call).run s).1.1.Paging uri l := by
  by_cases hcall : ∃ force, call = .agreement force
  · obtain ⟨force, rfl⟩ := hcall
    exact h.refreshed hl hlooks (Sync.refreshed_refreshAgreement y c force s)
  · rcases h.load_page hl hserves hcount (not_exists.mp hcall) s with hsame | ⟨_, _, hpage⟩
    · rwa [hsame]
    · exact hpage.paging

/-- **One call and the gaps.** Only a refresh opens or closes a gap. -/
theorem Paging.inGap_load_iff (h : c.Paging uri l) (hl : Timeline uri l)
    (hserves : y.source.Serves uri l) (hcount : 0 < y.moreCount) {call : Load}
    (hcall : ∀ force, call ≠ .agreement force) (s : σ) {m : Message} (hm : m ∈ l) :
    ((y.load c call).run s).1.1.InGap l m ↔ c.InGap l m := by
  rcases h.load_page hl.toHistory hserves hcount hcall s with hsame | ⟨_, _, hpage⟩
  · rw [hsame]
  · exact hpage.isPage.inGap_iff h.toDrawnFrom hl hpage.toTakes hm

/-! ### Runs -/

/-- **A list of calls** keeps paging going: each one by what was said of it, from the first to the
last. -/
theorem Paging.loads (hl : History uri l) (hserves : y.source.Serves uri l)
    (hlooks : y.source.LooksUp l) (hcount : 0 < y.moreCount) (calls : List Load) :
    ∀ {c : Conversation}, c.Paging uri l → ∀ s : σ, ((y.loads c calls).run s).1.1.Paging uri l := by
  induction calls with
  | nil => exact fun h _ ↦ h
  | cons call calls ih =>
    intro c h s
    rw [Sync.run_loads_cons]
    exact ih (h.load hl hserves hlooks hcount call s) _

/-- As long as no refresh of the agreements is among the calls, gaps stay as they are. -/
theorem Paging.inGap_loads_iff (hl : Timeline uri l) (hserves : y.source.Serves uri l)
    (hlooks : y.source.LooksUp l) (hcount : 0 < y.moreCount) {calls : List Load}
    (hcalls : ∀ force, .agreement force ∉ calls) {m : Message} (hm : m ∈ l) :
    ∀ {c : Conversation}, c.Paging uri l → ∀ s : σ,
      (((y.loads c calls).run s).1.1.InGap l m ↔ c.InGap l m) := by
  induction calls with
  | nil => exact fun _ _ ↦ Iff.rfl
  | cons call calls ih =>
    intro c h s
    have hcall : ∀ force, call ≠ .agreement force :=
      fun force he ↦ hcalls force (he ▸ List.mem_cons_self)
    have hrest : ∀ force, .agreement force ∉ calls :=
      fun force hmem ↦ hcalls force (List.mem_cons_of_mem _ hmem)
    rw [Sync.run_loads_cons]
    exact (ih hrest (h.load hl.toHistory hserves hlooks hcount call s) _).trans
      (h.inGap_load_iff hl hserves hcount hcall s hm)

/-- **What paging brings in.** A source serves a history in pages and finds messages of it, and
calls for pages and refreshes of the agreements are made in any order; after the last refresh, if
there is any, come calls for pages only. When no more can be loaded, just the messages are missing
that lay in a gap after the last refresh. So all of the history is stored if and only if it had left
no gap. -/
theorem stores_iff_not_inGap {history : List Message} (hl : Timeline uri history)
    (hserves : y.source.Serves uri history) (hlooks : y.source.LooksUp history)
    (hcount : 0 < y.moreCount) {s : Connection} {server : σ} {before after : List Load}
    (hafter : ∀ force, .agreement force ∉ after)
    (hc : ((y.loads (new uri s) before).run server).1.1 = c)
    (hd : ((y.loads (new uri s) (before ++ after)).run server).1.1 = d)
    (hend : d.canLoadMore = false) :
    ((∀ m ∈ history, d.Stores m) ↔ c.Gapless history) ∧
      ∀ m ∈ history, d.Stores m ↔ ¬c.InGap history m := by
  have hpaging : c.Paging uri history :=
    hc ▸ Paging.loads hl.toHistory hserves hlooks hcount before (paging_new uri s history) server
  have hpaging' : d.Paging uri history :=
    hd ▸ Paging.loads hl.toHistory hserves hlooks hcount _ (paging_new uri s history) server
  have hstores : ∀ m ∈ history, (d.Stores m ↔ ¬c.InGap history m) := by
    intro m hm
    have hgap : d.InGap history m ↔ c.InGap history m := by
      rw [← hd, Sync.run_loads_append, ← hc]
      exact Paging.inGap_loads_iff hl hserves hlooks hcount hafter hm (hc ▸ hpaging) _
    rw [(hpaging'.reachesBack hl.connect_oldest hend).stores_iff hl hm, hgap]
  exact ⟨forall₂_congr hstores, hstores⟩

/-- Serves the five messages one by one. -/
def oneByOne : Sync (List Response) := ⟨.archive fiveMessages, "n", 1, 1⟩

/-- A conversation after some calls, when the server has these responses ready. -/
def afterLoads (calls : List Load) (responses : List Response) : Conversation :=
  ((oneByOne.loads (new "c" .connected) calls).run responses).1.1

/-- The first refresh opens a gap, the second one closes it. -/
theorem stores_iff_not_inGap_oneByOne :
    Timeline "c" fiveMessages ∧ oneByOne.source.Serves "c" fiveMessages ∧
      oneByOne.source.LooksUp fiveMessages ∧ 0 < oneByOne.moreCount ∧
      (∀ force, .agreement force ∉ [Load.more]) ∧
      (afterLoads ([.latest, .agreement false, .agreement true] ++ [.more])
        [{ agreements := ["m1"] }, { agreements := ["m2", "m3"] }]).canLoadMore = false ∧
      (afterLoads [.latest, .agreement false, .agreement true]
        [{ agreements := ["m1"] }, { agreements := ["m2", "m3"] }]).Gapless fiveMessages := by
  have hl : Timeline "c" fiveMessages := timeline_fiveMessages
  have hserves : oneByOne.source.Serves "c" fiveMessages := Source.serves_archive hl.toHistory
  have hlooks : oneByOne.source.LooksUp fiveMessages := Source.looksUp_archive fiveMessages
  have hcount : 0 < oneByOne.moreCount := by decide
  have hafter : ∀ force, .agreement force ∉ [Load.more] := by decide
  have hend : (afterLoads ([.latest, .agreement false, .agreement true] ++ [.more])
      [{ agreements := ["m1"] }, { agreements := ["m2", "m3"] }]).canLoadMore = false := by
    cbv
  refine ⟨hl, hserves, hlooks, hcount, hafter, hend, ?_⟩
  refine (stores_iff_not_inGap hl hserves hlooks hcount hafter rfl rfl hend).1.mp ?_
  exact of_decide_eq_true (by cbv)

/-- The refresh finds the second message, and the page after it the first. -/
theorem not_stores_oneByOne :
    Timeline "c" fiveMessages ∧ oneByOne.source.Serves "c" fiveMessages ∧
      oneByOne.source.LooksUp fiveMessages ∧ 0 < oneByOne.initialCount ∧ 0 < oneByOne.moreCount ∧
      (afterLoads [.latest, .agreement false, .more] [{ agreements := ["m1"] }]).canLoadMore =
        false ∧
      ¬∀ m ∈ fiveMessages,
        (afterLoads [.latest, .agreement false, .more] [{ agreements := ["m1"] }]).Stores m :=
  ⟨timeline_fiveMessages, Source.serves_archive timeline_fiveMessages.toHistory,
    Source.looksUp_archive fiveMessages, by decide, by decide, by cbv, of_decide_eq_false (by cbv)⟩

end Conversation

end Parley
