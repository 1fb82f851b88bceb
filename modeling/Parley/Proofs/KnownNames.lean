import Mathlib.Data.List.Induction
import Parley.Proofs.ArrivalOrder
import Parley.Proofs.MissingEvents
import Parley.Proofs.OneRecord

/-!
# Names that a refresh leaves known

A refresh looks up an event under a name that the snapshot has for it, and takes in the record that
is found. Whether the conversation knows the name afterwards depends on two things.

**The record has to have the name.** A record that is found at once has the name under which it was
looked up. One that is found by way of an own echo need not have it (`Sync.Renamed`): the echo,
which says that both names belong to one event, is thrown away.

**The conversation has to keep the name.** A message has two names at most, so a name can be lost
when a record comes (`Conversation.Drops`). The name is known after some records just if it was or
one of them has it, and it was not lost for good (`Conversation.Keyed.containsEvent_upsertAll_iff`).
If events have two names at most, nothing is lost (`Conversation.Fits.not_loses`).
-/

namespace Parley

namespace Conversation

variable {c : Conversation} {m : Message} {u : String}

/-! ### Names after a merge -/

/-- After a merge under one URI, the names are those of the new record, and the old alias if the
record has none. -/
theorem isKnownAs_refresh_iff {old : Message} (huri : old.uri = m.uri) :
    (refresh old m).isKnownAs u = true ↔
      m.isKnownAs u = true ∨ m.remoteUri = none ∧ old.isKnownAs u = true := by
  rw [Message.isKnownAs_iff, Message.isKnownAs_iff, Message.isKnownAs_iff, uri_refresh,
    remoteUri_refresh, huri]
  rcases m.remoteUri with - | v
  · simp
  · simp

/-- After a merge across URIs, the names are those of the known message, and the new URI if that had
no alias. -/
theorem isKnownAs_absorb_iff {known : Message} :
    (absorb known m).isKnownAs u = true ↔
      known.isKnownAs u = true ∨ known.remoteUri = none ∧ m.uri = u := by
  rw [Message.isKnownAs_iff, Message.isKnownAs_iff, uri_absorb, remoteUri_absorb]
  rcases known.remoteUri with - | v
  · simp
  · simp

/-- A message with a single name that describes the event of a record under another URI is known by
all names that the record has, once it has absorbed the record. -/
theorem isKnownAs_absorb_of_isKnownAs {known : Message} (hnone : known.remoteUri = none)
    (hsame : known.sameEvent m = true) (hne : m.uri ≠ known.uri) (hu : m.isKnownAs u = true) :
    (absorb known m).isKnownAs u = true := by
  obtain ⟨v, hv, hmv⟩ := Message.sameEvent_iff_exists.mp hsame
  have hkv : known.uri = v := by simpa [Message.isKnownAs_iff, hnone] using hv
  have hmr : m.remoteUri = some known.uri := by
    rw [hkv]
    exact (Message.isKnownAs_iff.mp hmv).resolve_left fun h ↦ hne (h.trans hkv.symm)
  rw [isKnownAs_absorb_iff]
  rcases Message.isKnownAs_iff.mp hu with hu | hu
  · exact .inr ⟨hnone, hu⟩
  · exact .inl (Message.isKnownAs_iff.mpr (.inl (Option.some.inj (hmr.symm.trans hu))))

/-! ### Names after one record -/

/-- An event is contained if the message under a key is known by the name, or some other message
is. -/
theorem Keyed.containsEvent_iff_of_stored (h : c.Keyed) {k : String} {old : Message}
    (hold : c.message? k = some old) :
    c.containsEvent u = true ↔ old.isKnownAs u = true ∨ c.Taken k u := by
  rw [h.containsEvent_iff]
  constructor
  · rintro ⟨k', n, hn, hu⟩
    by_cases hk : k' = k
    · rw [hk, hold] at hn
      exact .inl (Option.some.inj hn ▸ hu)
    · exact .inr ⟨k', n, hk, hn, hu⟩
  · rintro (hu | ⟨k', n, -, hn, hu⟩)
    · exact ⟨k, old, hold, hu⟩
    · exact ⟨k', n, hn, hu⟩

theorem taken_put_iff : (c.put m).Taken m.uri u ↔ c.Taken m.uri u := by
  refine exists_congr fun k ↦ exists_congr fun n ↦ and_congr_right fun hk ↦ ?_
  rw [message?_put, if_neg hk]

theorem Keyed.containsEvent_put_iff (h : c.Keyed) (hm : m.connectionUri = c.uri) :
    (c.put m).containsEvent u = true ↔ m.isKnownAs u = true ∨ c.Taken m.uri u := by
  rw [(h.put hm).containsEvent_iff_of_stored (c.message?_put_self m), taken_put_iff]

theorem Keyed.containsEvent_iff_taken (h : c.Keyed) {k : String} (hnone : c.message? k = none) :
    c.containsEvent u = true ↔ c.Taken k u := by
  rw [h.containsEvent_iff]
  refine exists_congr fun k' ↦ exists_congr fun n ↦ ⟨fun hn ↦ ⟨?_, hn⟩, And.right⟩
  rintro rfl
  exact nomatch hnone.symm.trans hn.1

/-- When the record `m` comes, the conversation does not know the name `u` any more, or does not
learn it although the record has it. -/
inductive Drops (c : Conversation) (m : Message) (u : String) : Prop
  /-- The message under the URI of the record gets another URI of the other side in place of `u`. -/
  | replaced {old : Message} {v : String} (hold : c.message? m.uri = some old)
      (hu : old.isKnownAs u = true) (hv : m.remoteUri = some v) (hnot : m.isKnownAs u = false)
      (hfree : ¬c.Taken m.uri u)
  /-- The record goes into a message that already has two names, and neither is `u`. -/
  | noRoom {known : Message} {v : String} (hnew : c.message? m.uri = none)
      (hfind : c.messageList.find? (·.sameEvent m) = some known) (hv : known.remoteUri = some v)
      (hu : m.isKnownAs u = true) (hnot : known.isKnownAs u = false)
      (hfree : ¬c.Taken known.uri u)

/-- When the message under the URI of a record is refreshed, a name is dropped if the old message
had it, the merged one does not, and no other message does. -/
theorem drops_iff_of_stored {old : Message} (hold : c.message? m.uri = some old)
    (huri : old.uri = m.uri) :
    c.Drops m u ↔ old.isKnownAs u = true ∧ ¬(refresh old m).isKnownAs u = true ∧
      ¬c.Taken m.uri u := by
  rw [isKnownAs_refresh_iff huri, not_or, not_and', Bool.not_eq_true]
  constructor
  · rintro (⟨hold', hu, hv, hnot, hfree⟩ | ⟨hnew⟩)
    · obtain rfl := Option.some.inj (hold.symm.trans hold')
      exact ⟨hu, ⟨hnot, fun _ hnone ↦ nomatch hnone.symm.trans hv⟩, hfree⟩
    · exact nomatch hold.symm.trans hnew
  · rintro ⟨hu, ⟨hnot, hsome⟩, hfree⟩
    obtain ⟨v, hv⟩ := Option.ne_none_iff_exists'.mp (hsome hu)
    exact .replaced hold hu hv hnot hfree

/-- When a known message absorbs a record, a name is dropped if the record had it, the merged one
does not, and no other message does. -/
theorem drops_iff_of_known {known : Message} (hnew : c.message? m.uri = none)
    (hfind : c.messageList.find? (·.sameEvent m) = some known)
    (hknown : c.message? known.uri = some known) :
    c.Drops m u ↔ m.isKnownAs u = true ∧ ¬(absorb known m).isKnownAs u = true ∧
      ¬c.Taken known.uri u := by
  constructor
  · rintro (⟨hold⟩ | ⟨-, hfind', hv, hu, hnot, hfree⟩)
    · exact nomatch hold.symm.trans hnew
    · obtain rfl := Option.some.inj (hfind.symm.trans hfind')
      refine ⟨hu, fun habsorb ↦ ?_, hfree⟩
      rcases isKnownAs_absorb_iff.mp habsorb with hu | ⟨hnone, -⟩
      · exact Bool.false_ne_true (hnot.symm.trans hu)
      · exact nomatch hnone.symm.trans hv
  · rintro ⟨hu, hnot, hfree⟩
    have hsame : known.sameEvent m = true := by simpa using List.find?_some hfind
    have hne : m.uri ≠ known.uri := by
      intro huri
      rw [huri, hknown] at hnew
      exact nomatch hnew
    rcases hv : known.remoteUri with - | v
    · exact absurd (isKnownAs_absorb_of_isKnownAs hv hsame hne hu) hnot
    · refine .noRoom hnew hfind hv hu ?_ hfree
      exact (Bool.not_eq_true _).mp fun h ↦ hnot (isKnownAs_absorb_iff.mpr (.inl h))

/-- **One record.** A name is known afterwards if it was known or the record has it, unless it is
dropped. -/
theorem Keyed.containsEvent_upsert_iff (h : c.Keyed) (hm : m.connectionUri = c.uri) :
    (c.upsert m).1.containsEvent u = true ↔
      (c.containsEvent u = true ∨ m.isKnownAs u = true) ∧ ¬c.Drops m u := by
  have hi := intake_upsert h m
  generalize c.upsert m = r at hi ⊢
  cases hi with
  | foreign hc => exact absurd hm hc
  | refreshed old hc hold =>
    have hnames := isKnownAs_refresh_iff (u := u) (h.uri_eq hold)
    rw [h.containsEvent_put_iff (m := refresh old m) hc, h.containsEvent_iff_of_stored hold,
      drops_iff_of_stored hold (h.uri_eq hold), uri_refresh]
    tauto
  | absorbed known hc hnew hfind hknown hsame =>
    have hnames : (absorb known m).isKnownAs u = true ↔ _ := isKnownAs_absorb_iff
    have hself : m.uri = u → m.isKnownAs u = true := fun hu ↦ hu ▸ m.isKnownAs_uri
    have hconn : known.connectionUri = c.uri := h.connectionUri_eq hknown
    rw [h.containsEvent_put_iff (m := absorb known m) hconn, h.containsEvent_iff_of_stored hknown,
      drops_iff_of_known hnew hfind hknown, uri_absorb]
    tauto
  | added hc hnew hfind =>
    have hdrops : ¬c.Drops m u := by
      rintro (⟨hold⟩ | ⟨-, hfind'⟩)
      · exact nomatch hold.symm.trans hnew
      · exact nomatch hfind.symm.trans hfind'
    rw [h.containsEvent_put_iff hc, h.containsEvent_iff_taken hnew, and_iff_left hdrops, or_comm]

/-! ### Names after several records -/

/-- Some record of `l` makes the conversation lose the name `u`, and no later one has it. -/
def Loses (c : Conversation) (l : List Message) (u : String) : Prop :=
  ∃ before m after, l = before ++ m :: after ∧ (c.upsertAll before).1.Drops m u ∧
    ∀ n ∈ after, n.isKnownAs u = false

/-- One record more loses a name, or lets one that was lost stay lost. -/
theorem loses_concat_iff {l : List Message} :
    c.Loses (l ++ [m]) u ↔
      (c.upsertAll l).1.Drops m u ∨ c.Loses l u ∧ m.isKnownAs u = false := by
  constructor
  · rintro ⟨before, n, after, heq, hdrops, hafter⟩
    -- the record that drops the name is the last one or an earlier one
    rcases List.eq_nil_or_concat after with rfl | ⟨after, p, rfl⟩
    · obtain ⟨rfl, hmn⟩ := List.append_inj' heq rfl
      obtain rfl : m = n := List.singleton_injective hmn
      exact .inl hdrops
    · rw [List.concat_eq_append, ← List.cons_append, ← List.append_assoc] at heq
      obtain ⟨rfl, hmp⟩ := List.append_inj' heq rfl
      obtain rfl : m = p := List.singleton_injective hmp
      rw [List.concat_eq_append, List.forall_mem_append] at hafter
      exact .inr ⟨⟨before, n, after, rfl, hdrops, hafter.1⟩, hafter.2 m (List.mem_singleton_self m)⟩
  · rintro (hdrops | ⟨⟨before, n, after, rfl, hdrops, hafter⟩, hm⟩)
    · exact ⟨l, m, [], rfl, hdrops, List.forall_mem_nil _⟩
    · refine ⟨before, n, after ++ [m], by simp, hdrops, ?_⟩
      exact List.forall_mem_append.mpr ⟨hafter, List.forall_mem_singleton.mpr hm⟩

/-- **Several records.** A name is known afterwards if it was known or some record has it, unless it
is lost for good. -/
theorem Keyed.containsEvent_upsertAll_iff (h : c.Keyed) {l : List Message}
    (hl : ∀ m ∈ l, m.connectionUri = c.uri) :
    (c.upsertAll l).1.containsEvent u = true ↔
      (c.containsEvent u = true ∨ ∃ m ∈ l, m.isKnownAs u = true) ∧ ¬c.Loses l u := by
  induction l using List.reverseRecOn with
  | nil =>
    have hlose : ¬c.Loses [] u := fun ⟨before, m, after, heq, _⟩ ↦ by simp at heq
    simp [upsertAll, hlose]
  | append_singleton l m ih =>
    obtain ⟨hl, hm⟩ := List.forall_mem_append.mp hl
    have hkeyed : (c.upsertAll l).1.Keyed := upsertAll_preserves (fun _ _ h ↦ h.upsert _) h
    have hconn : m.connectionUri = (c.upsertAll l).1.uri := by
      rw [uri_upsertAll]
      exact hm m (List.mem_singleton_self m)
    have hsome : (∃ n ∈ l ++ [m], n.isKnownAs u = true) ↔
        (∃ n ∈ l, n.isKnownAs u = true) ∨ m.isKnownAs u = true := by simp [or_and_right, exists_or]
    have hconcat : (c.upsertAll (l ++ [m])).1 = ((c.upsertAll l).1.upsert m).1 :=
      fst_upsertAll_append l [m] c
    rw [hconcat, hkeyed.containsEvent_upsert_iff hconn, ih hl, loses_concat_iff, hsome,
      ← Bool.not_eq_true, not_or, not_and_not_right, imp_iff_not_or, ← or_assoc, and_or_right,
      and_assoc, and_comm (a := ¬(c.upsertAll l).1.Drops m u)]

/-! ### Events with two names -/

variable {ε : Type} {N : Naming ε}

/-- The alias of every stored message, if it has one, is the other name of its event. -/
def Fits (N : Naming ε) (c : Conversation) : Prop := ∀ k n, c.message? k = some n → N.Fits n

theorem Fits.of_sameNames {d : Conversation} (h : Fits N c) (hs : SameNames c d) : Fits N d := by
  intro k n hn r hr
  obtain ⟨m, hm, he⟩ := hs.exists_of_message? hn
  have huri : m.uri = n.uri := congrArg Prod.fst he
  have hremote : m.remoteUri = n.remoteUri := congrArg (·.2.1) he
  rw [← huri]
  exact h k m hm r (hremote.trans hr)

theorem Fits.put (h : Fits N c) (hm : N.Fits m) : Fits N (c.put m) := by
  intro k n hn
  rcases eq_or_of_message?_put hn with ⟨-, rfl⟩ | ⟨-, hn⟩
  · exact hm
  · exact h k n hn

/-- A record and the message that absorbs it give two names to one event. -/
theorem Fits.event_eq_of_known (h : Fits N c) (hm : N.Fits m) {known : Message}
    (hnew : c.message? m.uri = none) (hknown : c.message? known.uri = some known)
    (hsame : known.sameEvent m = true) :
    N.event m.uri = N.event known.uri ∧ m.uri ≠ known.uri := by
  refine ⟨((h _ _ hknown).event_eq_of_sameEvent hm hsame).symm, fun huri ↦ ?_⟩
  rw [huri, hknown] at hnew
  exact nomatch hnew

/-- Taking in a record that fits keeps all of them fitting. -/
theorem Fits.upsert (h : Fits N c) (hk : c.Keyed) (hm : N.Fits m) : Fits N (c.upsert m).1 := by
  have hi := intake_upsert hk m
  generalize c.upsert m = r at hi ⊢
  cases hi with
  | foreign => exact h
  | refreshed old _ hold => exact h.put (fits_refresh (h _ _ hold) hm (hk.uri_eq hold))
  | absorbed known _ hnew _ hknown hsame =>
    obtain ⟨he, hne⟩ := h.event_eq_of_known hm hnew hknown hsame
    exact h.put (fits_absorb (h _ _ hknown) he hne)
  | added => exact h.put hm

/-- Where events have two names at most, a merge joins names, so none is dropped. -/
theorem Fits.not_drops (h : Fits N c) (hk : c.Keyed) (hm : N.Fits m) : ¬c.Drops m u := by
  rintro (⟨hold, hu, hv, hnot, -⟩ | ⟨hnew, hfind, hv, hu, hnot, -⟩)
  · have hjoin := (isKnownAs_refresh (h _ _ hold) hm (hk.uri_eq hold) u).mpr (.inl hu)
    rcases (isKnownAs_refresh_iff (hk.uri_eq hold)).mp hjoin with hmu | ⟨hnone, -⟩
    · exact Bool.false_ne_true (hnot.symm.trans hmu)
    · exact nomatch hnone.symm.trans hv
  · have hknown := hk.message?_uri (List.mem_of_find?_eq_some hfind)
    have hsame := List.find?_some hfind
    obtain ⟨he, hne⟩ := h.event_eq_of_known hm hnew hknown hsame
    have hjoin := (isKnownAs_absorb (h _ _ hknown) hm he hne u).mpr (.inr hu)
    rcases isKnownAs_absorb_iff.mp hjoin with hku | ⟨hnone, -⟩
    · exact Bool.false_ne_true (hnot.symm.trans hku)
    · exact nomatch hnone.symm.trans hv

/-- Where events have two names at most, nothing is lost. -/
theorem Fits.not_loses (h : Fits N c) (hk : c.Keyed) {l : List Message} (hl : ∀ m ∈ l, N.Fits m) :
    ¬c.Loses l u := by
  rintro ⟨before, m, after, rfl, hdrops, -⟩
  obtain ⟨hbefore, hm⟩ := List.forall_mem_append.mp hl
  have hkept : (c.upsertAll before).1.Keyed ∧ Fits N (c.upsertAll before).1 :=
    upsertAll_preserves (P := fun c ↦ c.Keyed ∧ Fits N c)
      (fun n hn h ↦ ⟨h.1.upsert n, h.2.upsert h.1 (hbefore n hn)⟩) ⟨hk, h⟩
  exact hkept.2.not_drops hkept.1 (hm m List.mem_cons_self) hdrops

/-! ### What a known name leads to -/

/-- A snapshot settles a message with the flags of all categories that have a name of it. -/
theorem get_settled_of_isKnownAs (s : Snapshot) (hu : m.isKnownAs u = true) {f : Flag}
    (hf : u ∈ s.uris f.category) : (m.settled s).status.get f = true := by
  show (m.reconciled (some s)).get f = true
  rw [Message.get_reconciled_some, Bool.or_eq_true, Snapshot.holds, Bool.or_eq_true]
  rcases Message.isKnownAs_iff.mp hu with rfl | hr
  · exact .inr (.inl (decide_eq_true hf))
  · exact .inr (.inr (by simp [hr, hf]))

/-- The conversation heeds what the snapshot `t` says of the name `u`. -/
structure Heeds (c : Conversation) (t : Snapshot) (u : String) : Prop where
  exists_known : ∃ m ∈ c.messageList, m.isKnownAs u = true
  /-- The next reconciliation raises the flags of the categories that have the name. -/
  flags : ∀ m ∈ c.messageList, m.isKnownAs u = true → m.isVisible = true → m.upToDate = false →
    ∃ n, c.reconcile.1.message? m.uri = some n ∧
      ∀ f, u ∈ t.uris f.category → n.status.get f = true
  /-- The name is not looked up when the same snapshot is fetched again. -/
  not_missing : ∀ d, SameNames c d → u ∉ (d.beginSnapshot.applySnapshot t).missing t

/-- **A name that is known** is enough for that. -/
theorem Keyed.heeds (h : c.Keyed) {t : Snapshot} (ht : c.agreement.data = some t)
    (hu : c.containsEvent u = true) : c.Heeds t u where
  exists_known := by
    obtain ⟨k, m, hk, hm⟩ := h.containsEvent_iff.mp hu
    exact ⟨m, mem_messageList.mpr ⟨k, hk⟩, hm⟩
  flags m hm hmu hv hmark := by
    refine ⟨m.settled t, ?_, fun f ↦ get_settled_of_isKnownAs t hmu⟩
    rw [message?_reconcile h ht, h.message?_uri hm, Option.map_some, hv, hmark]
    rfl
  not_missing d hd := by
    rw [mem_missing_iff (hd.keyed h), ← (hd.keyed h).containsEvent_eq_false_iff,
      hd.containsEvent_eq h, hu]
    exact fun hmem ↦ nomatch hmem.2

end Conversation

/-- A record that is found belongs to the connection, and has the name under which it was looked
up. -/
structure Source.Faithful {σ : Type} (source : Source σ) (connection : String) : Prop where
  connectionUri_eq : ∀ {need u m}, source.Gives (.message need u (.ok m)) →
    m.connectionUri = connection
  isKnownAs : ∀ {need u m}, source.Gives (.message need u (.ok m)) → m.isKnownAs u = true

/-- An archive of records of one connection is faithful to it, since it searches by name. -/
theorem Source.faithful_archive {connection : String} {history : List Message}
    (h : ∀ m ∈ history, m.connectionUri = connection) :
    (archive history).Faithful connection where
  connectionUri_eq := fun ⟨s, hm⟩ ↦ h _ (looksUp_archive history _ _ s _ hm)
  isKnownAs := fun ⟨_, hm⟩ ↦ by simpa using List.find?_some (find?_eq_some_of_archive hm)

namespace Sync

open Conversation

variable {σ : Type} {y : Sync σ} {c : Conversation}

/-- The event `u` was looked up by way of an own echo, and the record `m` that was found under the
URI of the other side does not have the name `u`. -/
def Renamed (need : String) (t : List Exchange) (u : String) (m : Message) : Prop :=
  m.isKnownAs u = false ∧
    ∃ echo remote, [.message need u (.ok echo), .message need remote (.ok m)] <:+: t ∧
      echo.isOwnEcho need = true ∧ echo.remoteUri = some remote

/-! ### Records and exchanges -/

variable {need : String} {uris : List String} {t : List Exchange} {answers : List (Answer Message)}

/-- Every event is looked up, and its answer stands at its place. -/
theorem Lookups.exists_resolution (h : Lookups need uris t answers) {u : String} (hu : u ∈ uris) :
    ∃ answer t', (u, answer) ∈ uris.zip answers ∧ t' <:+: t ∧ Resolution need u t' answer := by
  induction h with
  | nil => exact nomatch hu
  | @cons uri uris t ts answer answers hhead hrest ih =>
    rcases List.mem_cons.mp hu with rfl | hu
    · exact ⟨answer, t, List.mem_cons_self, (List.prefix_append _ _).isInfix, hhead⟩
    · obtain ⟨answer', t', hmem, ht', hres⟩ := ih hu
      exact ⟨answer', t', List.mem_cons_of_mem _ hmem,
        ht'.trans (List.suffix_append _ _).isInfix, hres⟩

/-- A look-up fails, or it finds a record without the name, by way of an own echo, or it finds a
record with the name. -/
theorem Lookups.error_or_renamed_or_received (h : Lookups need uris t answers)
    (hnames : ∀ u m, .message need u (.ok m) ∈ t → m.isKnownAs u = true) {u : String}
    (hu : u ∈ uris) :
    (∃ f, (u, .error f) ∈ uris.zip answers) ∨
      (∃ m, (u, .ok m) ∈ uris.zip answers ∧ Renamed need t u m) ∨
        ∃ m ∈ received answers, m.isKnownAs u = true := by
  obtain ⟨answer, t', hmem, ht', hres⟩ := h.exists_resolution hu
  rcases answer with f | m
  · exact .inl ⟨f, hmem⟩
  have hreceived : m ∈ received answers :=
    List.mem_filterMap.mpr ⟨.ok m, (List.of_mem_zip hmem).2, rfl⟩
  cases hknown : m.isKnownAs u with
  | true => exact .inr (.inr ⟨m, hreceived, hknown⟩)
  | false =>
    cases hres with
    | found =>
      have hname := hnames u m (ht'.subset (List.mem_singleton_self _))
      exact nomatch hknown.symm.trans hname
    | second hecho hr hne ha =>
      cases ha with
      | found => exact .inr (.inl ⟨m, hmem, hknown, _, _, ht', hecho, hr⟩)

/-! ### The refresh -/

/-- **Names that a refresh leaves known.** What the source finds are records of the connection that
have the name under which they were looked up. Then each name of the snapshot was looked up in vain,
or it led to a record that does not have it, by way of an own echo, or it is known afterwards just
if it is not lost. Nothing is lost if events have two names at most; and what the snapshot says of a
name that is known is heeded. -/
theorem refreshAgreement_knows {uri : String} {st : Connection} {actions : List Action}
    (hc : (new uri st).run actions = c) (hy : y.source.Faithful c.uri) {force : Bool}
    (hdue : c.needsAgreement force = true) {s s' : σ} {response : Response}
    (hr : (y.source.agreement c.uri).run s = (.ok response, s')) {d : Conversation}
    (hd : c.beginSnapshot.applySnapshot response.snapshot = d) :
    ∃ answers t e n s'', (y.refreshAgreement c force).run s = ((e, .ok n), s'') ∧
      (y.recorded.refreshAgreement c force).run (s, []) =
        ((e, .ok n), (s'', .agreement c.uri (.ok response) :: t)) ∧
      Lookups y.ownedNeed (d.missing response.snapshot) t answers ∧
      (∀ u ∈ response.snapshot.allUris,
        (∃ f, (u, .error f) ∈ (d.missing response.snapshot).zip answers) ∨
          (∃ m, (u, .ok m) ∈ (d.missing response.snapshot).zip answers ∧
            Renamed y.ownedNeed t u m) ∨
          (e.containsEvent u = true ↔ ¬d.Loses (received answers) u)) ∧
      (∀ {ε : Type} (N : Naming ε), Fits N c → (∀ m ∈ received answers, N.Fits m) →
        ∀ u, ¬d.Loses (received answers) u) ∧
      ∀ u, e.containsEvent u = true → e.Heeds response.snapshot u := by
  have hkeyed : d.Keyed := hd ▸ (sameNames_fetched c _).keyed (hc ▸ keyed_run uri st actions)
  have huri : d.uri = c.uri := hd ▸ rfl
  have hdata : d.agreement.data = some response.snapshot := hd ▸ rfl
  rcases hlook : (y.fetchEvents (d.missing response.snapshot)).run s' with ⟨answers, s''⟩
  obtain ⟨t, hrun, hgives, ht⟩ := transcribes_fetchEvents id y (d.missing response.snapshot) s'
    [.agreement c.uri (.ok response)]
  rw [hlook, List.map_id] at hrun
  rw [hlook] at ht
  have hnames : ∀ u m, .message y.ownedNeed u (.ok m) ∈ t → m.isKnownAs u = true :=
    fun u m hmem ↦ hy.isKnownAs (hgives _ hmem)
  have hconn : ∀ m ∈ received answers, m.connectionUri = d.uri := by
    intro m hm
    obtain ⟨u, hu⟩ := ht.exists_exchange hm
    rw [huri]
    exact hy.connectionUri_eq (hgives _ hu)
  have hkeyed' : (d.upsertAll (received answers)).1.Keyed :=
    upsertAll_preserves (fun m _ h ↦ h.upsert m) hkeyed
  have hdata' : (d.upsertAll (received answers)).1.agreement.data = some response.snapshot := by
    obtain ⟨ms, hms⟩ := exists_upsertAll_eq (received answers) d
    rw [hms, agreement_withMessages, hdata]
  refine ⟨answers, t, (d.upsertAll (received answers)).1, (d.upsertAll (received answers)).2, s'',
    run_refreshAgreement_of_fetchEvents hdue hr hd hlook,
    run_refreshAgreement_of_fetchEvents hdue (run_recorded_agreement hr []) hd hrun, ht,
    fun u hu ↦ ?_, fun N hN hfits u ↦ ?_, fun u hu ↦ hkeyed'.heeds hdata' hu⟩
  · have hafter := hkeyed.containsEvent_upsertAll_iff (u := u) hconn
    cases hknown : d.containsEvent u with
    | true => exact .inr (.inr (hafter.trans (and_iff_right (.inl hknown))))
    | false =>
      have hmissing : u ∈ d.missing response.snapshot :=
        List.mem_filter.mpr ⟨UriSet.mem_toList.mpr hu, by rw [hknown]; rfl⟩
      rcases ht.error_or_renamed_or_received hnames hmissing with hf | hrenamed | hreceived
      · exact .inl hf
      · exact .inr (.inl hrenamed)
      · exact .inr (.inr (hafter.trans (and_iff_right (.inr hreceived))))
  · exact (hN.of_sameNames (hd ▸ sameNames_fetched c _)).not_loses hkeyed hfits

/-- The server has an own echo and, under its other URI, a record that names the echo. -/
def pointingBack : Sync (List Response) where
  source := .archive
    [{ uri := "b1", connectionUri := "c", remoteUri := some "a1" },
      { uri := "a1", connectionUri := "c", remoteUri := some "b1", outgoing := true,
        receiverNeed := some "n" }]
  ownedNeed := "n"
  initialCount := 15
  moreCount := 5

/-- What the server tells of events. -/
def threeMentioned : Response where
  agreements := ["r1", "a1"]
  rejectedMessages := ["x1"]

/-- The server is faithful and the agreements are due. The alias that was known and the event that
is looked up by way of its echo are both known then; nothing is found under the third name. -/
theorem refreshAgreement_knows_pointingBack :
    pointingBack.source.Faithful "c" ∧ oneKnown.needsAgreement false = true ∧
      ∃ answers t e n s'',
        (pointingBack.refreshAgreement oneKnown false).run [threeMentioned] = ((e, .ok n), s'') ∧
        Lookups "n" ["a1", "x1"] t answers ∧
        ∀ u ∈ ["a1", "r1"], e.containsEvent u = true ∧
          e.Heeds threeMentioned.snapshot u := by
  have hc : (new "c" .connected).run
      [.upsert { uri := "m1", connectionUri := "c", remoteUri := some "r1" }] = oneKnown := rfl
  have hy : pointingBack.source.Faithful "c" := Source.faithful_archive (by decide)
  have hdue : oneKnown.needsAgreement false = true := by decide
  obtain ⟨answers, t, e, n, s'', hrun, -, ht, -, -, hknown⟩ :=
    refreshAgreement_knows (y := pointingBack) hc hy hdue (s := [threeMentioned]) rfl rfl
  have he : e = ((pointingBack.refreshAgreement oneKnown false).run [threeMentioned]).1.1 := by
    rw [hrun]
  have hboth : ∀ u ∈ ["a1", "r1"], e.containsEvent u = true := by
    rw [he]
    decide +kernel
  have hmissing : (oneKnown.beginSnapshot.applySnapshot threeMentioned.snapshot).missing
      threeMentioned.snapshot = ["a1", "x1"] := by decide
  exact ⟨hy, hdue, answers, t, e, n, s'', hrun, hmissing ▸ ht, fun u hu ↦
    ⟨hboth u hu, hknown u (hboth u hu)⟩⟩

/-- The message that is known has two names. -/
def twoNames : Conversation :=
  (new "c" .connected).run
    [.upsert { uri := "r1", connectionUri := "c", remoteUri := some "x1" }]

/-- The server has a record of an event that has one of those names, and a third one. -/
def thirdName : Sync (List Response) where
  source := .archive [{ uri := "u1", connectionUri := "c", remoteUri := some "r1" }]
  ownedNeed := "n"
  initialCount := 15
  moreCount := 5

/-- An event may be found and yet not be known afterwards: the message that the record goes into
has two names already, or the record was found by way of an own echo that it does not name. -/
theorem not_containsEvent_thirdName :
    (thirdName.source.Faithful "c" ∧
      ((thirdName.fetchEvent "u1").run []).1 =
        .ok { uri := "u1", connectionUri := "c", remoteUri := some "r1" } ∧
      ∃ e s'', (thirdName.refreshAgreement twoNames false).run [{ agreements := ["u1"] }] =
          ((e, .ok 0), s'') ∧
        e.agreement.data = some { agreements := .ofList ["u1"] } ∧
        e.containsEvent "u1" = false) ∧
    echoing.source.Faithful "c" ∧
      ((echoing.fetchEvent "a1").run []).1 = .ok { uri := "b1", connectionUri := "c" } ∧
      ∃ e s'', (echoing.refreshAgreement oneKnown false).run [{ agreements := ["a1"] }] =
          ((e, .ok 1), s'') ∧
        e.agreement.data = some { agreements := .ofList ["a1"] } ∧
        e.containsEvent "a1" = false :=
  ⟨⟨Source.faithful_archive (by decide), rfl, _, _, rfl, rfl, rfl⟩,
    Source.faithful_archive (by decide), rfl, _, _, rfl, rfl, rfl⟩

end Sync

end Parley
