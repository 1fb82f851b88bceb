import Mathlib.Data.List.Nodup
import Parley.Proofs.FullReconciliation
import Parley.Proofs.History

/-!
# Conversations drawn from a history

A conversation that is filled from a source holds records of the history that the source keeps
(`DrawnFrom`). Such a record shares no name with another one. So it is added under its own URI if it
is not stored (`DrawnFrom.upsert_of_not_stored`), and taking it in once more changes nothing
(`DrawnFrom.upsert_of_stored`). `Takes` says what this comes to for a batch.

Stored messages are compared with the history up to their markers (`Stores`), since a new snapshot
may take away markers that came with the history.
-/

namespace Parley

/-- What does not depend on the marker is the same for messages that differ in the marker only. -/
theorem Message.congr_of_unmarked_eq {α : Type} {f : Message → α} (hf : ∀ m, f m.unmarked = f m)
    {m n : Message} (h : n.unmarked = m.unmarked) : f n = f m := by
  rw [← hf n, h, hf m]

namespace Conversation

/-- Refreshing a message with the same record, be it marked or not, leaves it as it is. -/
theorem refresh_of_unmarked_eq {old new : Message} (h : old.unmarked = new.unmarked) :
    refresh old new = old := by
  have hnew : new = { old.unmarked with upToDate := new.upToDate } := by
    rw [h]
    rfl
  have hremote : (old.remoteUri <|> old.remoteUri) = old.remoteUri := by
    cases old.remoteUri <;> rfl
  rw [hnew]
  simp [refresh, keepsMarker, Message.unmarked, hremote]

variable {uri : String} {l : List Message} {c d e : Conversation}

/-! ### Stored messages -/

/-- The message is stored under its URI, up to its marker. -/
def Stores (c : Conversation) (m : Message) : Prop :=
  (c.message? m.uri).map Message.unmarked = some m.unmarked

instance (c : Conversation) (m : Message) : Decidable (c.Stores m) :=
  inferInstanceAs (Decidable ((c.message? m.uri).map Message.unmarked = some m.unmarked))

/-- A message is stored if something lies under its URI that differs in the marker at most. -/
theorem stores_iff {m : Message} :
    c.Stores m ↔ ∃ n, c.message? m.uri = some n ∧ n.unmarked = m.unmarked :=
  Option.map_eq_some_iff

/-- Every message is, up to its marker, a record of the history, and lies under its URI. -/
structure DrawnFrom (c : Conversation) (uri : String) (l : List Message) : Prop where
  uri_eq : c.uri = uri
  drawn : ∀ {k n}, c.message? k = some n → ∃ m ∈ l, m.uri = k ∧ n.unmarked = m.unmarked

theorem drawnFrom_new (uri : String) (s : Connection) (l : List Message) :
    (new uri s).DrawnFrom uri l where
  uri_eq := rfl
  drawn h := nomatch h

namespace DrawnFrom

/-- What lies under a key is a record of the history, stored under its own URI. -/
theorem exists_stores (h : c.DrawnFrom uri l) {k : String} {n : Message}
    (hn : c.message? k = some n) : ∃ m ∈ l, n.unmarked = m.unmarked ∧ c.Stores m := by
  obtain ⟨m, hm, rfl, hnm⟩ := h.drawn hn
  exact ⟨m, hm, hnm, stores_iff.mpr ⟨n, hn, hnm⟩⟩

/-- A conversation that differs in markers, and in other things than messages, is drawn from the
same history. -/
theorem of_map_unmarked (h : c.DrawnFrom uri l) (hu : d.uri = c.uri)
    (hd : ∀ k, (d.message? k).map Message.unmarked = (c.message? k).map Message.unmarked) :
    d.DrawnFrom uri l where
  uri_eq := hu.trans h.uri_eq
  drawn := by
    intro k n hn
    have hc : (c.message? k).map Message.unmarked = some n.unmarked := by
      rw [← hd, hn, Option.map_some]
    obtain ⟨n', hn', hnn'⟩ := Option.map_eq_some_iff.mp hc
    obtain ⟨m, hm, hk, hnm⟩ := h.drawn hn'
    exact ⟨m, hm, hk, hnn'.symm.trans hnm⟩

variable (h : c.DrawnFrom uri l) (hl : History uri l)
include h hl

/-- A conversation drawn from a history is keyed: its records belong to the connection and lie where
they should. -/
theorem keyed : c.Keyed where
  uri_eq := by
    intro k n hn
    obtain ⟨m, -, hk, hnm⟩ := h.drawn hn
    rw [Message.congr_of_unmarked_eq (f := Message.uri) (fun _ ↦ rfl) hnm, hk]
  connectionUri_eq := by
    intro k n hn
    obtain ⟨m, hm, -, hnm⟩ := h.drawn hn
    rw [Message.congr_of_unmarked_eq (f := Message.connectionUri) (fun _ ↦ rfl) hnm,
      hl.connectionUri_eq m hm, h.uri_eq]

/-! ### Records of the history -/

/-- A stored record of the history is not changed by taking it in. -/
theorem upsert_of_stored {m : Message} (hm : m ∈ l) (hstored : c.Stores m) :
    c.upsert m = (c, false) := by
  obtain ⟨old, hold, hmark⟩ := stores_iff.mp hstored
  have hconn : ¬m.connectionUri ≠ c.uri := by
    rw [hl.connectionUri_eq m hm, h.uri_eq]
    exact not_not_intro rfl
  have hcont : c.messages.contains m.uri = true := OrderedMap.contains_iff.mpr ⟨old, hold⟩
  rw [upsert, if_neg hconn, if_pos hcont]
  refine Prod.ext (congrArg c.withMessages (OrderedMap.ext fun k ↦ ?_)) rfl
  rw [OrderedMap.get?_modify]
  split
  · rename_i hk
    subst hk
    rw [show c.messages.get? m.uri = some old from hold, Option.map_some,
      refresh_of_unmarked_eq hmark]
  · exact Option.map_id'

/-- Nothing lies under the URI of a record of the history that is not stored. -/
theorem message?_eq_none {m : Message} (hm : m ∈ l) (hnot : ¬c.Stores m) :
    c.message? m.uri = none := by
  refine Option.eq_none_iff_forall_ne_some.mpr fun n hn ↦ ?_
  obtain ⟨m', hm', hu, hnm⟩ := h.drawn hn
  obtain rfl := hl.eq_of_uri_eq hm' hm hu
  exact hnot (stores_iff.mpr ⟨n, hn, hnm⟩)

/-- A record of the history that is not stored is added under its URI. -/
theorem upsert_of_not_stored {m : Message} (hm : m ∈ l) (hnot : ¬c.Stores m) :
    c.upsert m = (c.put m, true) := by
  have hi := intake_upsert (h.keyed hl) m
  generalize c.upsert m = r at hi ⊢
  cases hi with
  | foreign hne => exact absurd ((hl.connectionUri_eq m hm).trans h.uri_eq.symm) hne
  | refreshed old _ hold => exact nomatch (h.message?_eq_none hl hm hnot).symm.trans hold
  | absorbed known _ _ _ hknown hsame =>
    -- the known message would be a record of the history, and of the same event
    obtain ⟨m', hm', hmark, hstored⟩ := h.exists_stores hknown
    rw [Message.congr_of_unmarked_eq (f := (·.sameEvent m)) (fun _ ↦ rfl) hmark] at hsame
    exact absurd (hl.eq_of_sameEvent hm' hm hsame ▸ hstored) hnot
  | added => rfl

end DrawnFrom

/-! ### Batches -/

/-- The conversation `d` is `c` after a batch of records of its history was taken in: what was
stored is unchanged, and the rest of the batch is added as it is. -/
structure Takes (c : Conversation) (batch : List Message) (d : Conversation) : Prop where
  uri_eq : d.uri = c.uri
  kept : ∀ {k n}, c.message? k = some n → d.message? k = some n
  added : ∀ {k n}, d.message? k = some n → c.message? k = some n ∨ n ∈ batch ∧ n.uri = k
  taken : ∀ m ∈ batch, d.Stores m

namespace Takes

variable {batch batch' : List Message}

theorem refl (c : Conversation) : Takes c [] c :=
  ⟨rfl, id, Or.inl, fun _ h ↦ nomatch h⟩

theorem stores_of_stores (h : Takes c batch d) {m : Message} (hm : c.Stores m) : d.Stores m := by
  obtain ⟨n, hn, hnm⟩ := stores_iff.mp hm
  exact stores_iff.mpr ⟨n, h.kept hn, hnm⟩

theorem trans (h : Takes c batch d) (h' : Takes d batch' e) : Takes c (batch ++ batch') e where
  uri_eq := h'.uri_eq.trans h.uri_eq
  kept hn := h'.kept (h.kept hn)
  added := by
    intro k n hn
    rcases h'.added hn with hn | ⟨hn, hk⟩
    · exact (h.added hn).imp_right (And.imp_left (List.mem_append_left _))
    · exact Or.inr ⟨List.mem_append_right _ hn, hk⟩
  taken := by
    intro m hm
    rcases List.mem_append.mp hm with hm | hm
    · exact h'.stores_of_stores (h.taken m hm)
    · exact h'.taken m hm

/-- Taking in records of the history leaves a conversation drawn from it. -/
theorem drawnFrom (h : Takes c batch d) (hc : c.DrawnFrom uri l) (hmem : ∀ m ∈ batch, m ∈ l) :
    d.DrawnFrom uri l where
  uri_eq := h.uri_eq.trans hc.uri_eq
  drawn := by
    intro k n hn
    rcases h.added hn with hn | ⟨hn, hk⟩
    · exact hc.drawn hn
    · exact ⟨n, hmem n hn, hk, rfl⟩

/-- After a batch the stored records are those that were stored and those of the batch. -/
theorem stores_iff (h : Takes c batch d) (hl : History uri l) (hmem : ∀ m ∈ batch, m ∈ l)
    {m : Message} (hm : m ∈ l) : d.Stores m ↔ c.Stores m ∨ m ∈ batch := by
  constructor
  · intro hstored
    obtain ⟨n, hn, hnm⟩ := Conversation.stores_iff.mp hstored
    rcases h.added hn with hn | ⟨hn, hu⟩
    · exact Or.inl (Conversation.stores_iff.mpr ⟨n, hn, hnm⟩)
    · exact Or.inr (hl.eq_of_uri_eq (hmem n hn) hm hu ▸ hn)
  · rintro (hstored | hmb)
    · exact h.stores_of_stores hstored
    · exact h.taken m hmb

end Takes

namespace DrawnFrom

/-- **One record of the history** is added as it is, or was there: no other record of the history is
of its event. -/
theorem takes_upsert (h : c.DrawnFrom uri l) (hl : History uri l) {m : Message} (hm : m ∈ l) :
    Takes c [m] (c.upsert m).1 := by
  by_cases hstored : c.Stores m
  · rw [h.upsert_of_stored hl hm hstored]
    exact ⟨rfl, id, Or.inl, fun n hn ↦ List.mem_singleton.mp hn ▸ hstored⟩
  · rw [h.upsert_of_not_stored hl hm hstored]
    refine ⟨rfl, fun {k n} hn ↦ ?_, fun {k n} hn ↦ ?_, fun n hn ↦ ?_⟩
    · have hk : k ≠ m.uri := by
        rintro rfl
        exact nomatch (h.message?_eq_none hl hm hstored).symm.trans hn
      rw [message?_put, if_neg hk, hn]
    · rcases eq_or_of_message?_put hn with ⟨hk, rfl⟩ | ⟨-, hn⟩
      · exact Or.inr ⟨List.mem_singleton_self n, hk.symm⟩
      · exact Or.inl hn
    · obtain rfl := List.mem_singleton.mp hn
      exact stores_iff.mpr ⟨n, c.message?_put_self n, rfl⟩

/-- **Records of the history are taken in** as they are. -/
theorem takes_upsertAll (hl : History uri l) {batch : List Message} :
    ∀ {c : Conversation}, c.DrawnFrom uri l → (∀ m ∈ batch, m ∈ l) →
      Takes c batch (c.upsertAll batch).1 := by
  induction batch with
  | nil => exact fun _ _ ↦ .refl _
  | cons m batch ih =>
    intro c h hmem
    have hm : m ∈ l := hmem m List.mem_cons_self
    have hstep : Takes c [m] (c.upsert m).1 := h.takes_upsert hl hm
    have hdrawn : (c.upsert m).1.DrawnFrom uri l :=
      hstep.drawnFrom h fun n hn ↦ List.mem_singleton.mp hn ▸ hm
    exact hstep.trans (ih hdrawn fun n hn ↦ hmem n (List.mem_cons_of_mem _ hn))

/-- Records that are not stored are counted. -/
theorem snd_upsertAll (hl : History uri l) {batch : List Message} (hnodup : batch.Nodup) :
    ∀ {c : Conversation}, c.DrawnFrom uri l → (∀ m ∈ batch, m ∈ l) → (∀ m ∈ batch, ¬c.Stores m) →
      (c.upsertAll batch).2 = batch.length := by
  induction batch with
  | nil => exact fun _ _ _ ↦ rfl
  | cons m batch ih =>
    intro c h hmem hnot
    have hm : m ∈ l := hmem m List.mem_cons_self
    have hstep : Takes c [m] (c.upsert m).1 := h.takes_upsert hl hm
    have hsingle : ∀ n ∈ [m], n ∈ l := fun n hn ↦ List.mem_singleton.mp hn ▸ hm
    obtain ⟨hmb, hnodup⟩ := List.nodup_cons.mp hnodup
    have hrest : ∀ n ∈ batch, n ∈ l := fun n hn ↦ hmem n (List.mem_cons_of_mem _ hn)
    have hcount := ih hnodup (hstep.drawnFrom h hsingle) hrest fun n hn hstored ↦ by
      rcases (hstep.stores_iff hl hsingle (hrest n hn)).mp hstored with hstored | hnm
      · exact hnot n (List.mem_cons_of_mem _ hn) hstored
      · exact hmb (List.mem_singleton.mp hnm ▸ hn)
    rw [snd_upsertAll_cons, hcount, h.upsert_of_not_stored hl hm (hnot m List.mem_cons_self)]
    rfl

end DrawnFrom

end Conversation

end Parley
