import Parley.Proofs.Runs

/-!
# Nothing stored is lost

What a conversation knows of an event only grows. A message stays under its key, its flags stay
raised, and once it has a URI of the other side it keeps having one (`Grows`). In the two merges
this is decided for one message (`retains_refresh`, `retains_absorb`); everything else follows,
because a record changes no other message.

**Counting.** A record is answered with true just if it adds an entry, so the counts that batches
are answered with are the growth of `size`.
-/

namespace Parley

/-- The message has the flags of an `earlier` one, and a URI of the other side if that had one. -/
structure Message.Retains (m earlier : Message) : Prop where
  covers : m.status.covers earlier.status = true
  isSome_remoteUri : earlier.remoteUri.isSome = true → m.remoteUri.isSome = true

namespace Message.Retains

variable {m n p : Message}

/-- A message with the same status and the same alias retains everything. -/
theorem of_eq (hs : m.status = n.status) (hr : m.remoteUri = n.remoteUri) : m.Retains n where
  covers := by
    rw [hs]
    exact n.status.covers_refl
  isSome_remoteUri h := by rwa [hr]

theorem refl (m : Message) : m.Retains m := of_eq rfl rfl

theorem trans (h : m.Retains n) (h' : n.Retains p) : m.Retains p where
  covers := Status.covers_trans h.covers h'.covers
  isSome_remoteUri hp := h.isSome_remoteUri (h'.isSome_remoteUri hp)

end Message.Retains

namespace Conversation

/-! ### One message -/

/-- Merging a record under its own URI forgets no flag and no alias. -/
theorem retains_refresh (old new : Message) : (refresh old new).Retains old where
  covers := old.status.covers_merge new.status
  isSome_remoteUri h := by
    rw [remoteUri_refresh]
    cases new.remoteUri with
    | none => exact h
    | some r => rfl

/-- Merging a record across URIs forgets no flag and no alias. -/
theorem retains_absorb (old new : Message) : (absorb old new).Retains old where
  covers := old.status.covers_merge new.status
  isSome_remoteUri h := by
    obtain ⟨r, hr⟩ := Option.isSome_iff_exists.mp h
    rw [remoteUri_absorb, hr]
    rfl

/-- A patched status has every flag of the old one. -/
theorem retains_patched (m : Message) (s : Status) : (m.patched s).Retains m where
  covers := m.status.covers_merge s
  isSome_remoteUri := id

/-- A cleared marker is no loss: `Retains` speaks of flags and aliases. -/
theorem retains_invalidate (uris : UriSet) (m : Message) : (invalidate uris m).Retains m := by
  unfold invalidate
  split
  · exact .of_eq rfl rfl
  · exact .refl m

/-! ### All messages -/

/-- Every message of `c` is still there in `d`, and retains its flags and its URIs. -/
structure Grows (c d : Conversation) : Prop where
  uri_eq : d.uri = c.uri
  retained : ∀ k m, c.message? k = some m → ∃ n, d.message? k = some n ∧ n.Retains m

namespace Grows

variable {c d e : Conversation}

theorem refl (c : Conversation) : Grows c c := ⟨rfl, fun _ m hm ↦ ⟨m, hm, .refl m⟩⟩

theorem trans (h : Grows c d) (h' : Grows d e) : Grows c e where
  uri_eq := h'.uri_eq.trans h.uri_eq
  retained k m hm := by
    obtain ⟨n, hn, hnm⟩ := h.retained k m hm
    obtain ⟨p, hp, hpn⟩ := h'.retained k n hn
    exact ⟨p, hp, hpn.trans hnm⟩

/-- A conversation with the same messages under the same keys has grown, if by nothing. -/
theorem of_sameCore (h : SameCore c d) : Grows c d :=
  ⟨h.uri_eq, fun k m hm ↦ ⟨m, by rw [h.message?_eq, hm], .refl m⟩⟩

/-- Changing each message into one that retains it. -/
theorem of_map (hu : d.uri = c.uri) (f : String → Message → Message)
    (hf : ∀ k m, (f k m).Retains m)
    (hd : ∀ k, d.message? k = (c.message? k).map (f k)) : Grows c d :=
  ⟨hu, fun k m hm ↦ ⟨f k m, by rw [hd, hm, Option.map_some], hf k m⟩⟩

/-- Putting a message where there is none, or one that it retains. -/
theorem put {m : Message} (hm : ∀ old, c.message? m.uri = some old → m.Retains old) :
    Grows c (c.put m) := by
  refine ⟨rfl, fun k old hold ↦ ?_⟩
  by_cases hk : k = m.uri
  · subst hk
    exact ⟨m, c.message?_put_self m, hm old hold⟩
  · exact ⟨old, by rw [message?_put, if_neg hk, hold], .refl old⟩

end Grows

/-- **One record** only adds: every stored key stays, and what is under it retains what was
there. -/
theorem Keyed.grows_upsert {c : Conversation} (h : c.Keyed) (m : Message) :
    Grows c (c.upsert m).1 := by
  have hi := intake_upsert h m
  generalize c.upsert m = r at hi ⊢
  cases hi with
  | foreign => exact .refl c
  | refreshed old hc hold =>
    refine .put fun old' hold' ↦ ?_
    obtain rfl : old = old' := Option.some.inj (hold.symm.trans hold')
    exact retains_refresh old m
  | absorbed known hc hnew hfind hknown =>
    refine .put fun old' hold' ↦ ?_
    obtain rfl : known = old' := Option.some.inj (hknown.symm.trans hold')
    exact retains_absorb known m
  | added hc hnew =>
    refine .put fun old hold ↦ ?_
    exact nomatch hnew.symm.trans hold

/-- A patch raises flags of one message and touches no other. -/
theorem grows_applyPatch (c : Conversation) (p : Patch) : Grows c (c.applyPatch p).1 := by
  refine .of_map (sameNames_applyPatch c p).uri_eq _ (fun k m ↦ ?_) (message?_applyPatch c p)
  split
  · exact retains_patched m p.status
  · exact .refl m

/-- A list of patches is applied one after the other, and each step only adds. -/
theorem grows_applyPatches (ps : List Patch) :
    ∀ c : Conversation, Grows c (c.applyPatches ps).1 := by
  induction ps with
  | nil => exact .refl
  | cons p ps ih => exact fun c ↦ (grows_applyPatch c p).trans (ih _)

theorem grows_markAllRead (c : Conversation) : Grows c c.markAllRead.1 :=
  .of_map rfl (fun _ m ↦ { m with unread := false }) (fun _ _ ↦ .of_eq rfl rfl)
    (message?_markAllRead c)

/-- A new snapshot clears markers and changes nothing else of a stored message. -/
theorem grows_applySnapshot (c : Conversation) (s : Snapshot) : Grows c (c.applySnapshot s) := by
  rcases h : c.agreement.data with - | prior
  · rw [applySnapshot_of_none h]
    exact ⟨rfl, fun k m hm ↦ ⟨m, hm, .refl m⟩⟩
  · exact .of_map rfl _ (fun _ ↦ retains_invalidate _) (message?_applySnapshot h s)

/-! ### Counting -/

/-- A message under a new key adds one to the size. -/
theorem size_put_of_none {c : Conversation} {m : Message} (h : c.message? m.uri = none) :
    (c.put m).size = c.size + 1 := OrderedMap.size_insert_of_none h m

theorem size_put_of_some {c : Conversation} {m old : Message} (h : c.message? m.uri = some old) :
    (c.put m).size = c.size := OrderedMap.size_insert_of_some h m

/-- A record is answered with true just if there is one message more. -/
theorem Keyed.size_upsert {c : Conversation} (h : c.Keyed) (m : Message) :
    (c.upsert m).1.size = c.size + (c.upsert m).2.toNat := by
  have hi := intake_upsert h m
  generalize c.upsert m = r at hi ⊢
  cases hi with
  | foreign => rfl
  | refreshed old hc hold => exact size_put_of_some (m := refresh old m) hold
  | absorbed known hc hnew hfind hknown => exact size_put_of_some (m := absorb known m) hknown
  | added hc hnew => exact size_put_of_none hnew

/-- The size grows by the number of records that `upsertAll` reports as new. -/
theorem Keyed.size_upsertAll (l : List Message) :
    ∀ {c : Conversation}, c.Keyed → (c.upsertAll l).1.size = c.size + (c.upsertAll l).2 := by
  induction l with
  | nil => exact fun _ ↦ rfl
  | cons m l ih =>
    intro c h
    rw [fst_upsertAll_cons, ih (h.upsert m), h.size_upsert m, snd_upsertAll_cons]
    omega

/-! ### Runs -/

/-- **One action** of the interface only adds, whichever it is. -/
theorem Keyed.grows_perform {c : Conversation} (h : c.Keyed) (a : Action) :
    Grows c (c.perform a).1 := by
  -- records are taken in one after the other, each by a keyed conversation
  have hstep : (c.perform a).1.Keyed ∧ Grows c (c.perform a).1 :=
    perform_preserves (P := fun d ↦ d.Keyed ∧ Grows c d)
      (fun hs hd ↦ ⟨hs.sameNames.keyed hd.1, hd.2.trans (.of_sameCore hs)⟩)
      (fun m _ hd ↦ ⟨hd.1.upsert m, hd.2.trans (hd.1.grows_upsert m)⟩)
      (fun p _ hd ↦ ⟨(sameNames_applyPatch _ p).keyed hd.1, hd.2.trans (grows_applyPatch _ p)⟩)
      (fun hd ↦ ⟨(sameNames_reconcile _).keyed hd.1, hd.2.trans (grows_applyPatches _ _)⟩)
      (fun hd ↦ ⟨(sameNames_markAllRead _).keyed hd.1, hd.2.trans (grows_markAllRead _)⟩)
      (fun s hd ↦ ⟨(sameNames_applySnapshot _ s).keyed hd.1, hd.2.trans (grows_applySnapshot _ s)⟩)
      ⟨h, .refl c⟩
  exact hstep.2

/-- **A run** only adds: the step lemma along the list of actions. -/
theorem Keyed.grows_run (actions : List Action) :
    ∀ {c : Conversation}, c.Keyed → Grows c (c.run actions) := by
  induction actions with
  | nil => exact fun _ ↦ .refl _
  | cons a actions ih => exact fun h ↦ (h.grows_perform a).trans (ih (h.perform a))

/-- **Nothing stored is lost.** In every state that a run reaches each message lies under its own
URI and belongs to the connection of the conversation. From there no action removes a message,
lowers one of its flags or leaves it without a URI of the other side if it had one; and records are
answered with how many messages they added. -/
theorem run_retains_and_counts (uri : String) (s : Connection) (actions : List Action) :
    (∀ k m, ((new uri s).run actions).message? k = some m → m.uri = k ∧ m.connectionUri = uri) ∧
      (∀ a, Grows ((new uri s).run actions) (((new uri s).run actions).perform a).1) ∧
      (∀ m, (((new uri s).run actions).upsert m).1.size =
        ((new uri s).run actions).size + (((new uri s).run actions).upsert m).2.toNat) ∧
      (∀ l, (((new uri s).run actions).upsertAll l).1.size =
        ((new uri s).run actions).size + (((new uri s).run actions).upsertAll l).2) ∧
      ∀ l, (((new uri s).run actions).finishMessages l).1.size =
        ((new uri s).run actions).size + (((new uri s).run actions).finishMessages l).2 := by
  have hk : ((new uri s).run actions).Keyed := keyed_run uri s actions
  have huri : ((new uri s).run actions).uri = uri :=
    ((keyed_new uri s).grows_run actions).uri_eq
  refine ⟨fun k m hm ↦ ⟨hk.uri_eq hm, ?_⟩, hk.grows_perform, hk.size_upsert, fun l ↦ ?_, fun l ↦ ?_⟩
  · rw [hk.connectionUri_eq hm, huri]
  · exact hk.size_upsertAll l
  · exact hk.size_upsertAll l

end Conversation

end Parley
