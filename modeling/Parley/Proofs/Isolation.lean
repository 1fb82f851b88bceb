import Mathlib
import Parley.Proofs.Growth
import Parley.Store.Operation

/-!
# Conversations of a store do not interfere

An operation reads and changes the conversation of its own address and no other: what it answers
and what it leaves there depends on what was there (`execute_congr`), and everything else stays
(`get?_execute_of_ne`). So operations on two connections may be interleaved in any way.

**Two ways of routing.** A store finds the conversation of a record by the key under which it is
kept, and the conversation compares the record's connection with its own URI. In every store that
operations have built the two agree (`Routed`), so no record is lost between them.
-/

namespace Parley

/-! ### Interleavings -/

/-- The third list is a merge of the other two that keeps the order of each. -/
inductive Interleaving {α : Type} : List α → List α → List α → Prop
  | nil : Interleaving [] [] []
  | left {x : α} {xs ys zs : List α} (h : Interleaving xs ys zs) :
      Interleaving (x :: xs) ys (x :: zs)
  | right {y : α} {xs ys zs : List α} (h : Interleaving xs ys zs) :
      Interleaving xs (y :: ys) (y :: zs)

theorem Interleaving.swap {α : Type} {xs ys zs : List α} (h : Interleaving xs ys zs) :
    Interleaving ys xs zs := by
  induction h with
  | nil => exact .nil
  | left _ ih => exact ih.right
  | right _ ih => exact ih.left

namespace Conversation

/-! ### Unread messages -/

/-- In a keyed conversation no stored message hides another from the chat. -/
theorem Keyed.perm_chat {c : Conversation} (h : c.Keyed) :
    c.chat.Perm (c.messageList.filter Message.isVisible) := by
  have hkept : Chat.kept c.messageList = c.messageList.filter Message.isVisible :=
    Chat.firstByUri_of_pairwise (h.pairwise_messageList.filter _)
  rw [← hkept]
  exact List.mergeSort_perm _ _

/-- As many messages are unread as are visible and not yet read: in a keyed conversation none hides
another. -/
theorem Keyed.length_unread {c : Conversation} (h : c.Keyed) :
    c.unread.length = c.messageList.countP fun m ↦ m.isVisible && m.unread := by
  have hperm : c.unread.Perm ((c.messageList.filter Message.isVisible).filter (·.unread)) :=
    h.perm_chat.filter _
  rw [hperm.length_eq, List.filter_filter, List.countP_eq_length_filter]
  simp only [Bool.and_comm]

end Conversation

namespace Store

/-! ### One operation -/

theorem get?_update_of_ne {α : Type} (s : Store) {uri k : String} (h : k ≠ uri)
    (f : Conversation → Conversation × α) : (s.update uri f).1.get? k = s.get? k := by
  rcases hc : s.get? uri with - | c
  · rw [update_of_none hc]
  · rw [update_of_some hc]
    exact s.get?_put_of_ne h _

/-- **The frame of an operation.** Under another key than its address nothing changes. -/
theorem get?_execute_of_ne (s : Store) {o : Operation} {k : String} (h : k ≠ o.address) :
    (s.execute o).1.get? k = s.get? k := by
  cases o with
  | openWith uri connection => exact s.get?_put_of_ne h _
  | close uri => exact OrderedMap.get?_erase_ne _ h
  | upsert m => exact s.get?_update_of_ne h _
  | applyPatch p => exact s.get?_update_of_ne h _
  | perform uri a => exact s.get?_update_of_ne h _

/-- What is done to a conversation, and the answer, depend on that conversation alone. -/
theorem update_congr {α : Type} {s t : Store} {uri : String} (h : s.get? uri = t.get? uri)
    (f : Conversation → Conversation × α) :
    (s.update uri f).2 = (t.update uri f).2 ∧
      (s.update uri f).1.get? uri = (t.update uri f).1.get? uri := by
  rcases hc : t.get? uri with - | c
  · rw [update_of_none hc, update_of_none (h.trans hc)]
    exact ⟨rfl, h⟩
  · rw [update_of_some hc, update_of_some (h.trans hc), get?_put_self, get?_put_self]
    exact ⟨rfl, rfl⟩

/-- **What an operation depends on.** Stores that agree at its address answer it alike and still
agree there. -/
theorem execute_congr {s t : Store} {o : Operation} (h : s.get? o.address = t.get? o.address) :
    (s.execute o).2 = (t.execute o).2 ∧
      (s.execute o).1.get? o.address = (t.execute o).1.get? o.address := by
  cases o with
  | openWith uri connection =>
    -- a conversation that is not there is opened new in both stores
    have hopen : (s.openWith uri connection).2 = (t.openWith uri connection).2 := by
      show (((s.get? uri).getD _).setConnection connection) = _
      rw [show s.get? uri = t.get? uri from h]
      rfl
    refine ⟨congrArg Operation.Answer.opened hopen, ?_⟩
    show (s.put uri (s.openWith uri connection).2).get? uri =
      (t.put uri (t.openWith uri connection).2).get? uri
    rw [get?_put_self, get?_put_self, hopen]
  | close uri =>
    refine ⟨congrArg Operation.Answer.closed h, ?_⟩
    show (s.conversations.erase uri).get? uri = (t.conversations.erase uri).get? uri
    rw [OrderedMap.get?_erase_self, OrderedMap.get?_erase_self]
  | upsert m =>
    obtain ⟨hanswer, hget⟩ := update_congr h (·.upsert m)
    exact ⟨congrArg Operation.Answer.flag hanswer, hget⟩
  | applyPatch p =>
    obtain ⟨hanswer, hget⟩ := update_congr h (·.applyPatch p)
    exact ⟨congrArg Operation.Answer.flag hanswer, hget⟩
  | perform uri a =>
    obtain ⟨hanswer, hget⟩ := update_congr h (·.perform a)
    exact ⟨congrArg Operation.Answer.outcome hanswer, hget⟩

/-! ### Runs -/

theorem fst_run_cons (s : Store) (o : Operation) (l : List Operation) :
    (s.run (o :: l)).1 = ((s.execute o).1.run l).1 := rfl

theorem snd_run_cons (s : Store) (o : Operation) (l : List Operation) :
    (s.run (o :: l)).2 = (o, (s.execute o).2) :: ((s.execute o).1.run l).2 := rfl

/-- Operations that address other conversations leave one as it is. -/
theorem get?_run_of_ne {l : List Operation} {k : String} :
    ∀ s : Store, (∀ o ∈ l, k ≠ o.address) → (s.run l).1.get? k = s.get? k := by
  induction l with
  | nil => exact fun _ _ ↦ rfl
  | cons o l ih =>
    intro s h
    rw [fst_run_cons, ih _ fun p hp ↦ h p (List.mem_cons_of_mem _ hp),
      s.get?_execute_of_ne (h o List.mem_cons_self)]

/-- The operations `zs` on `s` do at `a` what `xs` do on `t`, at `b` what `ys` do on `u`, and
nothing elsewhere; they are answered as those are. -/
structure Separates (a b : String) (s t u : Store) (xs ys zs : List Operation) : Prop where
  log : Interleaving (t.run xs).2 (u.run ys).2 (s.run zs).2
  left_eq : (s.run zs).1.get? a = (t.run xs).1.get? a
  right_eq : (s.run zs).1.get? b = (u.run ys).1.get? b
  rest_eq : ∀ k, k ≠ a → k ≠ b → (s.run zs).1.get? k = s.get? k

namespace Separates

variable {a b : String} {s t u : Store} {xs ys zs : List Operation}

theorem swap (h : Separates a b s t u xs ys zs) : Separates b a s u t ys xs zs :=
  ⟨h.log.swap, h.right_eq, h.left_eq, fun k hkb hka ↦ h.rest_eq k hka hkb⟩

/-- One more operation on `a`, at the front. -/
theorem cons {o : Operation} (ho : o.address = a) (hst : s.get? a = t.get? a)
    (h : Separates a b (s.execute o).1 (t.execute o).1 u xs ys zs) :
    Separates a b s t u (o :: xs) ys (o :: zs) where
  log := by
    obtain ⟨hanswer, -⟩ := execute_congr (s := s) (t := t) (o := o) (ho ▸ hst)
    rw [snd_run_cons, snd_run_cons, hanswer]
    exact h.log.left
  left_eq := h.left_eq
  right_eq := h.right_eq
  rest_eq k hka hkb := by
    rw [fst_run_cons, h.rest_eq k hka hkb, s.get?_execute_of_ne (ho ▸ hka)]

end Separates

/-- **Interleaved runs.** Where operations on `a` and on `b` are interleaved, each connection sees
its own operations only, as in a run of their own from any store that agrees with `s` there. -/
theorem separates_of_interleaving {a b : String} (hab : a ≠ b) {xs ys zs : List Operation}
    (h : Interleaving xs ys zs) :
    ∀ {s t u : Store}, (∀ o ∈ xs, o.address = a) → (∀ o ∈ ys, o.address = b) →
      s.get? a = t.get? a → s.get? b = u.get? b → Separates a b s t u xs ys zs := by
  induction h with
  | nil => exact fun _ _ hst hsu ↦ ⟨.nil, hst, hsu, fun _ _ _ ↦ rfl⟩
  | @left o xs ys zs _ ih =>
    intro s t u hxs hys hst hsu
    have ho : o.address = a := hxs o List.mem_cons_self
    have hb : (s.execute o).1.get? b = u.get? b := by
      rw [s.get?_execute_of_ne (ho ▸ hab.symm), hsu]
    -- both runs at `a` take the operation, while `b` does not notice it
    have ha := (execute_congr (s := s) (t := t) (o := o) (ho ▸ hst)).2
    exact (ih (fun p hp ↦ hxs p (List.mem_cons_of_mem _ hp)) hys (ho ▸ ha) hb).cons ho hst
  | @right o xs ys zs _ ih =>
    intro s t u hxs hys hst hsu
    have ho : o.address = b := hys o List.mem_cons_self
    have ha : (s.execute o).1.get? a = t.get? a := by
      rw [s.get?_execute_of_ne (ho ▸ hab), hst]
    have hb := (execute_congr (s := s) (t := u) (o := o) (ho ▸ hsu)).2
    have hrest := ih hxs (fun p hp ↦ hys p (List.mem_cons_of_mem _ hp)) ha (ho ▸ hb)
    exact (hrest.swap.cons ho hsu).swap

/-- Interleaved runs on different connections end like one run after the other. -/
theorem run_interleaving {a b : String} (hab : a ≠ b) {xs ys zs : List Operation}
    (hxs : ∀ o ∈ xs, o.address = a) (hys : ∀ o ∈ ys, o.address = b)
    (h : Interleaving xs ys zs) (s : Store) :
    (s.run zs).1 = ((s.run xs).1.run ys).1 ∧
      Interleaving (s.run xs).2 ((s.run xs).1.run ys).2 (s.run zs).2 := by
  have hbefore : ∀ k, k ≠ a → (s.run xs).1.get? k = s.get? k :=
    fun k hk ↦ s.get?_run_of_ne fun o ho ↦ (hxs o ho).symm ▸ hk
  have hafter : ∀ k, k ≠ b → ((s.run xs).1.run ys).1.get? k = (s.run xs).1.get? k :=
    fun k hk ↦ get?_run_of_ne _ fun o ho ↦ (hys o ho).symm ▸ hk
  have hsep : Separates a b s s (s.run xs).1 xs ys zs :=
    separates_of_interleaving hab h hxs hys rfl (hbefore b hab.symm).symm
  refine ⟨Store.ext fun k ↦ ?_, hsep.log⟩
  by_cases hka : k = a
  · rw [hka, hsep.left_eq, hafter a hab]
  · by_cases hkb : k = b
    · rw [hkb, hsep.right_eq]
    · rw [hsep.rest_eq k hka hkb, hafter k hkb, hbefore k hka]

/-! ### Routing -/

/-- Every conversation is kept under its own URI, with messages of its connection under theirs. -/
def Routed (s : Store) : Prop := ∀ k c, s.get? k = some c → c.uri = k ∧ c.Keyed

theorem routed_empty : empty.Routed := fun _ _ h ↦ nomatch h

/-- Keeping a keyed conversation under its own URI keeps a store routed. -/
theorem Routed.put {s : Store} (h : s.Routed) {c : Conversation} (hc : c.Keyed) :
    (s.put c.uri c).Routed := by
  intro k d hd
  by_cases hk : k = c.uri
  · rw [hk, get?_put_self] at hd
    rw [← Option.some.inj hd, hk]
    exact ⟨rfl, hc⟩
  · rw [s.get?_put_of_ne hk] at hd
    exact h k d hd

/-- So does an update that changes neither the URI of a conversation nor its being keyed. -/
theorem Routed.update {α : Type} {s : Store} (h : s.Routed) {uri : String}
    {f : Conversation → Conversation × α}
    (hf : ∀ c : Conversation, c.Keyed → (f c).1.uri = c.uri ∧ (f c).1.Keyed) :
    (s.update uri f).1.Routed := by
  rcases hc : s.get? uri with - | c
  · rw [update_of_none hc]
    exact h
  · rw [update_of_some hc]
    obtain ⟨huri, hkeyed⟩ := h uri c hc
    obtain ⟨hu, hk⟩ := hf c hkeyed
    -- it is put back under the key it came from, which is its URI
    have hput : (s.put (f c).1.uri (f c).1).Routed := h.put hk
    rwa [hu, huri] at hput

/-- Actions leave a conversation its URI. -/
theorem perform_routed (a : Action) (c : Conversation) (h : c.Keyed) :
    (c.perform a).1.uri = c.uri ∧ (c.perform a).1.Keyed :=
  ⟨(h.grows_perform a).uri_eq, h.perform a⟩

/-- **Every operation** keeps a store routed. -/
theorem Routed.execute {s : Store} (h : s.Routed) (o : Operation) : (s.execute o).1.Routed := by
  cases o with
  | openWith uri connection =>
    have hopen : ∀ c : Conversation, c.uri = uri → c.Keyed →
        (s.put uri (c.setConnection connection)).Routed := by
      intro c huri hc
      obtain ⟨hu, hk⟩ := perform_routed (.setConnection connection) c hc
      have hput : (s.put (c.setConnection connection).uri (c.setConnection connection)).Routed :=
        h.put hk
      rwa [show (c.setConnection connection).uri = c.uri from hu, huri] at hput
    show (s.put uri (((s.get? uri).getD (.new uri connection)).setConnection connection)).Routed
    rcases hc : s.get? uri with - | c
    · exact hopen _ rfl (Conversation.keyed_new uri connection)
    · exact hopen c (h uri c hc).1 (h uri c hc).2
  | close uri =>
    intro k c hc
    by_cases hk : k = uri
    · subst hk
      exact nomatch (OrderedMap.get?_erase_self s.conversations k).symm.trans hc
    · exact h k c ((OrderedMap.get?_erase_ne s.conversations hk).symm.trans hc)
  | upsert m => exact h.update (perform_routed (.upsert m))
  | applyPatch p => exact h.update (perform_routed (.applyPatch p))
  | perform uri a => exact h.update (perform_routed a)

/-- **Every run of operations** keeps a store routed. -/
theorem Routed.run (l : List Operation) : ∀ {s : Store}, s.Routed → (s.run l).1.Routed := by
  induction l with
  | nil => exact fun h ↦ h
  | cons o l ih => exact fun h ↦ ih (h.execute o)

/-- The number of unread messages of a store is the sum over its conversations. -/
theorem Routed.unreadCount_eq {s : Store} (h : s.Routed) :
    s.unreadCount = (s.conversations.values.map fun c ↦
      c.messageList.countP fun m ↦ m.isVisible && m.unread).sum := by
  have hlength : ∀ c ∈ s.conversations.values,
      c.unread.length = c.messageList.countP fun m ↦ m.isVisible && m.unread := by
    intro c hc
    obtain ⟨k, hk⟩ := OrderedMap.mem_values_iff.mp hc
    exact (h k c hk).2.length_unread
  rw [← List.map_congr_left hlength, List.sum_eq_foldl, List.foldl_map]
  rfl

/-- **Conversations do not interfere.** In a store that operations have built, every conversation
is kept under its own URI and holds messages of its connection only, the unread messages are counted
conversation by conversation, and what is meant for a connection that is not open is refused and
changes nothing. From there, operations on two connections may be interleaved in any way: store and
answers are as if those on one of them came before those on the other. -/
theorem interleaved_operations_eq (before : List Operation) {s : Store}
    (hs : (empty.run before).1 = s) {a b : String} (hab : a ≠ b) {xs ys zs : List Operation}
    (hxs : ∀ o ∈ xs, o.address = a) (hys : ∀ o ∈ ys, o.address = b)
    (h : Interleaving xs ys zs) :
    (∀ k c, s.get? k = some c → c.uri = k ∧ ∀ m ∈ c.messageList, m.connectionUri = k) ∧
      (s.unreadCount = (s.conversations.values.map fun c ↦
        c.messageList.countP fun m ↦ m.isVisible && m.unread).sum) ∧
      (∀ k, s.get? k = none →
        (∀ m : Message, m.connectionUri = k → s.upsert m = (s, .error (unknown k))) ∧
        (∀ p : Patch, p.connectionUri = k → s.applyPatch p = (s, .error (unknown k))) ∧
        ∀ (α : Type) (f : Conversation → Conversation × α),
          s.update k f = (s, .error (unknown k))) ∧
      (s.run zs).1 = ((s.run xs).1.run ys).1 ∧
      Interleaving (s.run xs).2 ((s.run xs).1.run ys).2 (s.run zs).2 := by
  have hrouted : s.Routed := hs ▸ routed_empty.run before
  refine ⟨fun k c hc ↦ ?_, hrouted.unreadCount_eq, fun k hk ↦ ⟨?_, ?_, fun α f ↦ ?_⟩,
    run_interleaving hab hxs hys h s⟩
  · obtain ⟨huri, hkeyed⟩ := hrouted k c hc
    refine ⟨huri, fun m hm ↦ ?_⟩
    rw [hkeyed.connectionUri_eq (hkeyed.message?_uri hm), huri]
  · rintro m rfl
    exact update_of_none hk _
  · rintro p rfl
    exact update_of_none hk _
  · exact update_of_none hk f

/-- A conversation that has an unread message. -/
def greeted : List Operation :=
  [.openWith "a" .connected, .upsert { uri := "m", connectionUri := "a", unread := true }]

/-- The conversation is closed and opened again, and an action is performed on it. -/
def reopening : List Operation :=
  [.close "a", .upsert { uri := "n", connectionUri := "a" }, .openWith "a" .suggested,
    .perform "a" (.upsert { uri := "n", connectionUri := "b" })]

/-- Another conversation is opened, and a message comes in. -/
def joining : List Operation :=
  [.openWith "b" .connected, .upsert { uri := "o", connectionUri := "b", unread := true }]

/-- The operations of `reopening` and `joining`, taken in turns. -/
def alternating : List Operation :=
  [.close "a", .openWith "b" .connected, .upsert { uri := "n", connectionUri := "a" },
    .upsert { uri := "o", connectionUri := "b", unread := true }, .openWith "a" .suggested,
    .perform "a" (.upsert { uri := "n", connectionUri := "b" })]

/-- Two conversations, operated on in turns: the hypotheses hold, and the outcome is that of one
after the other. -/
theorem interleaved_operations_eq_alternating :
    (∀ o ∈ reopening, o.address = "a") ∧ (∀ o ∈ joining, o.address = "b") ∧
      Interleaving reopening joining alternating ∧
      ((empty.run greeted).1.run alternating).1 =
        (((empty.run greeted).1.run reopening).1.run joining).1 ∧
      (empty.run greeted).1.unreadCount = 1 := by
  have hxs : ∀ o ∈ reopening, o.address = "a" := by simp [reopening, Operation.address]
  have hys : ∀ o ∈ joining, o.address = "b" := by simp [joining, Operation.address]
  have h : Interleaving reopening joining alternating :=
    .left (.right (.left (.right (.left (.left .nil)))))
  obtain ⟨-, hunread, -, hrun, -⟩ :=
    interleaved_operations_eq greeted rfl (by decide : "a" ≠ "b") hxs hys h
  exact ⟨hxs, hys, h, hrun, hunread.trans (by decide +kernel)⟩

end Store

end Parley
