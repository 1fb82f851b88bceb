import Mathlib.Data.Finset.Card
import Mathlib.Data.List.Induction
import Parley.Proofs.Runs

/-!
# Records in any order

If records name their events consistently, it does not matter in which order they arrive. A `Naming`
says which names belong to one event, at most two for each. Records are `Consistent` if an alias is
always the other name of the event, and if the records of an event that have no alias agree on its
name: otherwise two of them, arriving before any alias, would be taken for two events.

**The invariant.** After the records of a list were taken in, every event of the list has one stored
message, and that message is the `Digest` of the records of the event: it is known by the names that
they mention, and has the flags that they raise. The two merges join names and flags in the same way
(`isKnownAs_refresh`, `isKnownAs_absorb`), and only the key depends on which record came first.
-/

namespace Parley

/-- Which names belong to one event; an event has two names at most. -/
structure Naming (ε : Type*) where
  event : String → ε
  le_two : ∀ {u v w}, event u = event v → event v = event w → u = v ∨ v = w ∨ u = w

namespace Naming

variable {ε : Type*} (N : Naming ε)

/-- The alias of a message, if it has one, is the other name of its event. -/
def Fits (m : Message) : Prop :=
  ∀ r, m.remoteUri = some r → N.event r = N.event m.uri ∧ r ≠ m.uri

/-- The records belong to one connection, and name their events consistently. -/
structure Consistent (uri : String) (l : List Message) : Prop where
  connectionUri_eq : ∀ m ∈ l, m.connectionUri = uri
  fits : ∀ m ∈ l, N.Fits m
  /-- Records of one event that have no alias have the same name for it. -/
  bare : ∀ m ∈ l, ∀ n ∈ l, m.remoteUri = none → n.remoteUri = none →
    N.event m.uri = N.event n.uri → m.uri = n.uri

/-- The message `m` sums up the records of its event in `l`. -/
structure Digest (l : List Message) (m : Message) : Prop where
  fits : N.Fits m
  known : ∀ u, m.isKnownAs u = true ↔
    ∃ n ∈ l, N.event n.uri = N.event m.uri ∧ n.isKnownAs u = true
  flags : ∀ f, m.status.get f = true ↔
    ∃ n ∈ l, N.event n.uri = N.event m.uri ∧ n.status.get f = true

/-- The events of some records. -/
def events [DecidableEq ε] (l : List Message) : Finset ε :=
  (l.map fun m ↦ N.event m.uri).toFinset

/-! ### Names of an event -/

/-- There is only one other name. -/
theorem eq_of_ne {a b c : String} (hb : N.event b = N.event a) (hc : N.event c = N.event a)
    (hba : b ≠ a) (hca : c ≠ a) : b = c := by
  rcases N.le_two hb hc.symm with h | h | h
  · exact absurd h hba
  · exact absurd h.symm hca
  · exact h

variable {N}

/-- All the names of a message are names of its event. -/
theorem Fits.event_eq {m : Message} (hm : N.Fits m) {u : String} (hu : m.isKnownAs u = true) :
    N.event u = N.event m.uri := by
  rcases Message.isKnownAs_iff.mp hu with rfl | hr
  · rfl
  · exact (hm u hr).1

/-- Messages with a name in common are of one event. -/
theorem Fits.event_eq_of_sameEvent {m n : Message} (hm : N.Fits m) (hn : N.Fits n)
    (h : m.sameEvent n = true) : N.event m.uri = N.event n.uri := by
  obtain ⟨u, hmu, hnu⟩ := Message.sameEvent_iff_exists.mp h
  exact (hm.event_eq hmu).symm.trans (hn.event_eq hnu)

/-- Of two messages of one event that have no name in common neither has an alias. -/
theorem Fits.remoteUri_eq_none {m n : Message} (hm : N.Fits m)
    (he : N.event n.uri = N.event m.uri) (h : n.sameEvent m = false) : m.remoteUri = none := by
  refine Option.eq_none_iff_forall_ne_some.mpr fun r hr ↦ ?_
  obtain ⟨hr', hne⟩ := hm r hr
  have hrn : r = n.uri := N.eq_of_ne hr' he hne (Message.uri_ne_of_not_sameEvent h)
  have hsame : n.sameEvent m = true := Message.sameEvent_iff_exists.mpr
    ⟨r, hrn ▸ n.isKnownAs_uri, Message.isKnownAs_iff.mpr (Or.inr hr)⟩
  rw [h] at hsame
  exact Bool.false_ne_true hsame

theorem Consistent.of_subset {uri : String} {l l' : List Message} (h : N.Consistent uri l)
    (hl : ∀ m ∈ l', m ∈ l) : N.Consistent uri l' where
  connectionUri_eq m hm := h.connectionUri_eq m (hl m hm)
  fits m hm := h.fits m (hl m hm)
  bare m hm n hn := h.bare m (hl m hm) n (hl n hn)

theorem mem_events [DecidableEq ε] {l : List Message} {e : ε} :
    e ∈ N.events l ↔ ∃ n ∈ l, N.event n.uri = e := by
  simp [events]

theorem event_notMem_events [DecidableEq ε] {l : List Message} {m : Message} :
    N.event m.uri ∉ N.events l ↔ ∀ n ∈ l, N.event n.uri ≠ N.event m.uri := by
  simp [mem_events]

theorem events_concat [DecidableEq ε] (l : List Message) (m : Message) :
    N.events (l ++ [m]) = insert (N.event m.uri) (N.events l) := by
  ext e
  simp [events, eq_comm]

theorem events_eq_of_perm [DecidableEq ε] {l l' : List Message} (h : l'.Perm l) :
    N.events l' = N.events l := List.toFinset_eq_of_perm _ _ (h.map _)

/-! ### One more record -/

/-- A message that sums up records has a record of its event among them. -/
theorem Digest.exists_mem {l : List Message} {m : Message} (h : N.Digest l m) :
    ∃ n ∈ l, N.event n.uri = N.event m.uri := by
  obtain ⟨n, hn, he, -⟩ := (h.known m.uri).mp m.isKnownAs_uri
  exact ⟨n, hn, he⟩

theorem exists_mem_concat {l : List Message} {n : Message} {p : Message → Prop} :
    (∃ m ∈ l ++ [n], p m) ↔ (∃ m ∈ l, p m) ∨ p n := by
  simp [or_and_right, exists_or]

/-- A record of another event does not count. -/
theorem Digest.concat_of_ne {l : List Message} {m n : Message} (h : N.Digest l m)
    (hne : N.event n.uri ≠ N.event m.uri) : N.Digest (l ++ [n]) m where
  fits := h.fits
  known u := by
    rw [exists_mem_concat, h.known u]
    exact (or_iff_left fun hn ↦ hne hn.1).symm
  flags f := by
    rw [exists_mem_concat, h.flags f]
    exact (or_iff_left fun hn ↦ hne hn.1).symm

/-- The first record of an event sums up itself. -/
theorem digest_concat_first {l : List Message} {m : Message} (hm : N.Fits m)
    (h : ∀ n ∈ l, N.event n.uri ≠ N.event m.uri) : N.Digest (l ++ [m]) m where
  fits := hm
  known u := by
    rw [exists_mem_concat, or_iff_right fun ⟨n, hn, he, _⟩ ↦ h n hn he]
    exact (and_iff_right rfl).symm
  flags f := by
    rw [exists_mem_concat, or_iff_right fun ⟨n, hn, he, _⟩ ↦ h n hn he]
    exact (and_iff_right rfl).symm

/-- A message that joins names and flags of `old` and of the record `n` of the same event sums up
one record more than `old`. -/
theorem Digest.concat_of_join {l : List Message} {old n m : Message} (h : N.Digest l old)
    (hm : N.Fits m) (hmo : N.event m.uri = N.event old.uri) (hno : N.event n.uri = N.event old.uri)
    (hknown : ∀ u, m.isKnownAs u = true ↔ old.isKnownAs u = true ∨ n.isKnownAs u = true)
    (hstatus : m.status = old.status.merge n.status) : N.Digest (l ++ [n]) m where
  fits := hm
  known u := by
    rw [exists_mem_concat, hknown, h.known, hmo]
    exact or_congr_right (and_iff_right hno).symm
  flags f := by
    rw [exists_mem_concat, hstatus, Status.get_merge, Bool.or_eq_true, h.flags, hmo]
    exact or_congr_right (and_iff_right hno).symm

end Naming

namespace Conversation

variable {ε : Type*} {N : Naming ε}

/-! ### Merges join names -/

/-- A merge under one URI keeps an alias that fits, whichever of the two it is from. -/
theorem fits_refresh {old m : Message} (hold : N.Fits old) (hm : N.Fits m)
    (huri : old.uri = m.uri) : N.Fits (refresh old m) := by
  intro r hr
  rcases hmr : m.remoteUri with - | v
  · rw [remoteUri_refresh, hmr] at hr
    rw [uri_refresh, ← huri]
    exact hold r (by simpa using hr)
  · rw [remoteUri_refresh, hmr] at hr
    exact hm r (hmr.trans hr)

/-- An alias of `old` that `m` does not repeat is inherited, and one that it has is the same. -/
theorem isKnownAs_refresh {old m : Message} (hold : N.Fits old) (hm : N.Fits m)
    (huri : old.uri = m.uri) (u : String) :
    (refresh old m).isKnownAs u = true ↔ old.isKnownAs u = true ∨ m.isKnownAs u = true := by
  simp only [Message.isKnownAs_iff, uri_refresh, remoteUri_refresh, huri]
  rcases hmr : m.remoteUri with - | v
  · simp
    tauto
  · rcases hor : old.remoteUri with - | w
    · simp
    · obtain ⟨hv, hvne⟩ := hm v hmr
      obtain ⟨hw, hwne⟩ := hold w hor
      -- both aliases are the other name of the event
      rw [huri] at hw hwne
      have hvw : v = w := N.eq_of_ne hv hw hvne hwne
      simp [hvw]

/-- A merge across URIs makes the other name of the event the alias. -/
theorem fits_absorb {known m : Message} (hknown : N.Fits known)
    (he : N.event m.uri = N.event known.uri) (hne : m.uri ≠ known.uri) :
    N.Fits (absorb known m) := by
  intro r hr
  rcases hkr : known.remoteUri with - | v
  · rw [remoteUri_absorb, hkr] at hr
    obtain rfl : m.uri = r := by simpa using hr
    exact ⟨he, hne⟩
  · rw [remoteUri_absorb, hkr] at hr
    exact hknown r (hkr.trans hr)

/-- Both messages are known by the two names of the event, or by those of them that they mention. -/
theorem isKnownAs_absorb {known m : Message} (hknown : N.Fits known) (hm : N.Fits m)
    (he : N.event m.uri = N.event known.uri) (hne : m.uri ≠ known.uri) (u : String) :
    (absorb known m).isKnownAs u = true ↔ known.isKnownAs u = true ∨ m.isKnownAs u = true := by
  have hremote : (absorb known m).remoteUri = some m.uri := by
    rcases hkr : known.remoteUri with - | v
    · simp [hkr]
    · obtain ⟨hv, hvne⟩ := hknown v hkr
      have hvm : v = m.uri := N.eq_of_ne hv he hvne hne
      simp [hkr, hvm]
  have hknown' : known.remoteUri = some u → u = m.uri := by
    intro hu
    obtain ⟨hv, hvne⟩ := hknown u hu
    exact N.eq_of_ne hv he hvne hne
  have hm' : m.remoteUri = some u → u = known.uri := by
    intro hu
    obtain ⟨hv, hvne⟩ := hm u hu
    exact N.eq_of_ne hv he.symm hvne hne.symm
  simp only [Message.isKnownAs_iff, uri_absorb, hremote, Option.some.injEq]
  constructor
  · rintro (h | h)
    · exact Or.inl (Or.inl h)
    · exact Or.inr (Or.inl h)
  · rintro ((h | h) | (h | h))
    · exact Or.inl h
    · exact Or.inr (hknown' h).symm
    · exact Or.inr h
    · exact Or.inl (hm' h).symm

/-! ### The invariant -/

/-- Each event of the records `l` has one stored message, which sums up its records. -/
structure Digested (N : Naming ε) (c : Conversation) (l : List Message) : Prop extends Keyed c where
  digest : ∀ {k m}, c.message? k = some m → N.Digest l m
  unique : ∀ {k k' m m'}, c.message? k = some m → c.message? k' = some m' →
    N.event k = N.event k' → k = k'
  present : ∀ n ∈ l, ∃ k m, c.message? k = some m ∧ N.event k = N.event n.uri

theorem digested_new (uri : String) (s : Connection) : Digested N (new uri s) [] where
  toKeyed := keyed_new uri s
  digest h := nomatch h
  unique h := nomatch h
  present _ h := nomatch h

/-- Putting a digest in the place of the message of its event, or where there is none. -/
theorem Digested.put {c : Conversation} {l : List Message} (h : Digested N c l) {n m : Message}
    (hconn : m.connectionUri = c.uri) (he : N.event m.uri = N.event n.uri)
    (hm : N.Digest (l ++ [n]) m)
    (hplace : ∀ {k p}, c.message? k = some p → N.event k = N.event n.uri → k = m.uri) :
    Digested N (c.put m) (l ++ [n]) where
  toKeyed := h.toKeyed.put hconn
  digest := by
    intro k p hp
    rcases eq_or_of_message?_put hp with ⟨-, rfl⟩ | ⟨hk, hp⟩
    · exact hm
    · refine (h.digest hp).concat_of_ne fun hnp ↦ hk (hplace hp ?_)
      rw [hnp, h.uri_eq hp]
  unique := by
    intro k k' p p' hp hp' hkk
    rcases eq_or_of_message?_put hp with ⟨hk, -⟩ | ⟨hk, hp⟩ <;>
      rcases eq_or_of_message?_put hp' with ⟨hk', -⟩ | ⟨hk', hp'⟩
    · rw [hk, hk']
    · exact absurd (hplace hp' (by rw [← hkk, hk, he])) hk'
    · exact absurd (hplace hp (by rw [hkk, hk', he])) hk
    · exact h.unique hp hp' hkk
  present := by
    intro p hp
    rcases List.mem_append.mp hp with hp | hp
    · obtain ⟨k, q, hq, hk⟩ := h.present p hp
      by_cases hkm : k = m.uri
      · exact ⟨k, m, by rw [hkm, message?_put_self], hk⟩
      · exact ⟨k, q, by rw [message?_put, if_neg hkm, hq], hk⟩
    · rw [List.mem_singleton.mp hp]
      exact ⟨m.uri, m, c.message?_put_self m, he⟩

/-- If no stored message shares a name with a record, none is of its event: two messages of one
event that have no name in common have no alias, and consistent records agree on the name then. -/
theorem Digested.event_ne {c : Conversation} {l : List Message} {m : Message}
    (h : Digested N c l) (hl : N.Consistent c.uri (l ++ [m])) {k : String} {n : Message}
    (hn : c.message? k = some n) (hsame : n.sameEvent m = false) :
    N.event n.uri ≠ N.event m.uri := by
  intro he
  have hdig : N.Digest l n := h.digest hn
  have hm : m.remoteUri = none := (hl.fits m (by simp)).remoteUri_eq_none he hsame
  have hnr : n.remoteUri = none :=
    hdig.fits.remoteUri_eq_none he.symm ((m.sameEvent_comm n).trans hsame)
  -- a record that `n` sums up mentions no other name than that of `n`
  obtain ⟨q, hq, hqe⟩ := hdig.exists_mem
  have hqn : ∀ u, q.isKnownAs u = true → u = n.uri := by
    intro u hu
    have hnu : n.isKnownAs u = true := (hdig.known u).mpr ⟨q, hq, hqe, hu⟩
    rcases Message.isKnownAs_iff.mp hnu with hn' | hr
    · exact hn'.symm
    · exact nomatch hnr.symm.trans hr
  have hquri : q.uri = n.uri := hqn q.uri q.isKnownAs_uri
  have hqr : q.remoteUri = none := by
    refine Option.eq_none_iff_forall_ne_some.mpr fun r hr ↦ ?_
    have hrn : r = n.uri := hqn r (Message.isKnownAs_iff.mpr (Or.inr hr))
    exact (hl.fits q (List.mem_append_left _ hq) r hr).2 (hrn.trans hquri.symm)
  have hqm : q.uri = m.uri :=
    hl.bare q (List.mem_append_left _ hq) m (by simp) hqr hm (hqe.trans he)
  exact Message.uri_ne_of_not_sameEvent hsame (hquri.symm.trans hqm)

/-- **One record.** The invariant is kept, and the answer says whether the event is new. -/
theorem Digested.upsert {c : Conversation} {l : List Message} {m : Message}
    (h : Digested N c l) (hl : N.Consistent c.uri (l ++ [m])) :
    Digested N (c.upsert m).1 (l ++ [m]) ∧
      ((c.upsert m).2 = true ↔ ∀ n ∈ l, N.event n.uri ≠ N.event m.uri) := by
  have hfits : N.Fits m := hl.fits m (by simp)
  have hi := intake_upsert h.toKeyed m
  generalize c.upsert m = r at hi ⊢
  cases hi with
  | foreign hc => exact absurd (hl.connectionUri_eq m (by simp)) hc
  | refreshed old hc hold =>
    have huri : old.uri = m.uri := h.uri_eq hold
    have hdig : N.Digest l old := h.digest hold
    refine ⟨h.put hc rfl ?_ fun hp he ↦ h.unique hp hold he, ?_⟩
    · exact hdig.concat_of_join (fits_refresh hdig.fits hfits huri) (huri ▸ rfl) (huri ▸ rfl)
        (isKnownAs_refresh hdig.fits hfits huri) rfl
    · obtain ⟨n, hn, he⟩ := hdig.exists_mem
      exact iff_of_false Bool.false_ne_true fun hall ↦ hall n hn (he.trans (huri ▸ rfl))
  | absorbed known hc hnew hfind hknown hsame =>
    have hdig : N.Digest l known := h.digest hknown
    have he : N.event m.uri = N.event known.uri :=
      (hdig.fits.event_eq_of_sameEvent hfits hsame).symm
    have hne : m.uri ≠ known.uri := by
      intro hu
      rw [hu, hknown] at hnew
      exact nomatch hnew
    have hconn : known.connectionUri = c.uri := h.connectionUri_eq hknown
    refine ⟨h.put (m := absorb known m) hconn he.symm ?_ fun hp hk ↦ ?_, ?_⟩
    · exact hdig.concat_of_join (fits_absorb hdig.fits he hne) rfl he
        (isKnownAs_absorb hdig.fits hfits he hne) rfl
    · exact h.unique hp hknown (hk.trans he)
    · obtain ⟨n, hn, hen⟩ := hdig.exists_mem
      exact iff_of_false Bool.false_ne_true fun hall ↦ hall n hn (hen.trans he.symm)
  | added hc hnew hfind hnone =>
    have hfresh : ∀ n ∈ l, N.event n.uri ≠ N.event m.uri := by
      intro n hn he
      obtain ⟨k, p, hp, hk⟩ := h.present n hn
      have hpe : N.event p.uri = N.event m.uri := by rw [h.uri_eq hp, hk, he]
      exact h.event_ne hl hp (hnone hp) hpe
    refine ⟨h.put hc rfl (Naming.digest_concat_first hfits hfresh) fun {k p} hp hk ↦ ?_,
      iff_of_true rfl hfresh⟩
    have hpe : N.event p.uri = N.event m.uri := by rw [h.uri_eq hp, hk]
    exact absurd hpe (h.event_ne hl hp (hnone hp))

/-! ### Lists of records -/

/-- **Every list of records** is summed up, message by message. The induction takes the last record
off, since the invariant speaks of the records so far. -/
theorem digested_upsertAll (uri : String) (s : Connection) {l : List Message}
    (h : N.Consistent uri l) : Digested N ((new uri s).upsertAll l).1 l := by
  induction l using List.reverseRecOn with
  | nil => exact digested_new uri s
  | append_singleton l m ih =>
    have hinit : Digested N ((new uri s).upsertAll l).1 l :=
      ih (h.of_subset fun n hn ↦ List.mem_append_left _ hn)
    rw [fst_upsertAll_append]
    refine (hinit.upsert ?_).1
    rw [uri_upsertAll]
    exact h

/-- As many records were answered with true as there are events. -/
theorem snd_upsertAll_eq_card [DecidableEq ε] (uri : String) (s : Connection) {l : List Message}
    (h : N.Consistent uri l) : ((new uri s).upsertAll l).2 = (N.events l).card := by
  induction l using List.reverseRecOn with
  | nil => rfl
  | append_singleton l m ih =>
    have hl : N.Consistent uri l := h.of_subset fun n hn ↦ List.mem_append_left _ hn
    have hstep := ((digested_upsertAll uri s hl).upsert (m := m) (by rwa [uri_upsertAll])).2
    rw [← Naming.event_notMem_events] at hstep
    rw [snd_upsertAll_append, ih hl, Naming.events_concat]
    show (N.events l).card + (0 + (((new uri s).upsertAll l).1.upsert m).2.toNat) = _
    by_cases hnew : N.event m.uri ∈ N.events l
    · rw [Finset.insert_eq_of_mem hnew, Bool.eq_false_iff.mpr fun ht ↦ hstep.mp ht hnew]
      rfl
    · rw [Finset.card_insert_of_notMem hnew, hstep.mpr hnew]
      rfl

/-- A name is known just if some record of its event mentioned it. -/
theorem Digested.containsEvent_iff {c : Conversation} {l : List Message} (h : Digested N c l)
    (hl : ∀ m ∈ l, N.Fits m) {u : String} :
    c.containsEvent u = true ↔ ∃ n ∈ l, N.event n.uri = N.event u ∧ n.isKnownAs u = true := by
  rw [h.toKeyed.containsEvent_iff]
  constructor
  · rintro ⟨k, m, hm, hu⟩
    obtain ⟨n, hn, -, hnu⟩ := ((h.digest hm).known u).mp hu
    exact ⟨n, hn, ((hl n hn).event_eq hnu).symm, hnu⟩
  · rintro ⟨n, hn, -, hnu⟩
    obtain ⟨k, m, hm, hk⟩ := h.present n hn
    have hmn : N.event n.uri = N.event m.uri := by rw [h.uri_eq hm, hk]
    exact ⟨k, m, hm, ((h.digest hm).known u).mpr ⟨n, hn, hmn, hnu⟩⟩

/-- What is known once the records `l` have arrived, in whatever order. -/
structure Arrived [DecidableEq ε] (N : Naming ε) (l : List Message) (r : Conversation × Nat) :
    Prop where
  /-- Every event of the records has one stored message. -/
  one : ∀ n ∈ l, ∃! k, (∃ m, r.1.message? k = some m) ∧ N.event k = N.event n.uri
  /-- Every stored message is of an event of the records. -/
  stored : ∀ k m, r.1.message? k = some m → ∃ n ∈ l, N.event n.uri = N.event k
  /-- The names of an event are those that its records mention. -/
  known : ∀ u, r.1.containsEvent u = true ↔
    ∃ n ∈ l, N.event n.uri = N.event u ∧ n.isKnownAs u = true
  /-- The flags of a message are those that the records of its event raise. -/
  flags : ∀ k m, r.1.message? k = some m → ∀ f, m.status.get f = true ↔
    ∃ n ∈ l, N.event n.uri = N.event k ∧ n.status.get f = true
  /-- The unknown events that were counted are all events of the records. -/
  count : r.2 = (N.events l).card

/-- **Arrival order does not matter.** Consistent records lead to the same events, names, flags and
count in whatever order they arrive, and on the way no name is forgotten. -/
theorem arrived_of_perm [DecidableEq ε] (N : Naming ε) (uri : String) (s : Connection)
    {l l' : List Message} (h : N.Consistent uri l) (hl : l'.Perm l) :
    Arrived N l ((new uri s).upsertAll l') ∧
      ∀ before after, before <+: after → after <+: l' → ∀ u,
        ((new uri s).upsertAll before).1.containsEvent u = true →
          ((new uri s).upsertAll after).1.containsEvent u = true := by
  have h' : N.Consistent uri l' := h.of_subset fun m hm ↦ hl.mem_iff.mp hm
  have hd : Digested N ((new uri s).upsertAll l').1 l' := digested_upsertAll uri s h'
  have hex : ∀ p : Message → Prop, (∃ n ∈ l', p n) ↔ ∃ n ∈ l, p n :=
    fun p ↦ exists_congr fun n ↦ and_congr_left fun _ ↦ hl.mem_iff
  -- every part speaks of the members of the list only, not of their order
  refine ⟨⟨?_, ?_, ?_, ?_, ?_⟩, ?_⟩
  · intro n hn
    obtain ⟨k, m, hm, hk⟩ := hd.present n (hl.mem_iff.mpr hn)
    refine ⟨k, ⟨⟨m, hm⟩, hk⟩, ?_⟩
    rintro k' ⟨⟨m', hm'⟩, hk'⟩
    exact hd.unique hm' hm (hk'.trans hk.symm)
  · intro k m hm
    rw [← hex, ← hd.uri_eq hm]
    exact (hd.digest hm).exists_mem
  · intro u
    rw [hd.containsEvent_iff h'.fits, hex]
  · intro k m hm f
    rw [← hex, ← hd.uri_eq hm]
    exact (hd.digest hm).flags f
  · rw [snd_upsertAll_eq_card uri s h', Naming.events_eq_of_perm hl]
  · intro before after hba hal u hu
    have hafter : N.Consistent uri after := h'.of_subset fun m hm ↦ hal.mem hm
    have hbefore : N.Consistent uri before := hafter.of_subset fun m hm ↦ hba.mem hm
    rw [(digested_upsertAll uri s hbefore).containsEvent_iff hbefore.fits] at hu
    rw [(digested_upsertAll uri s hafter).containsEvent_iff hafter.fits]
    obtain ⟨n, hn, hnu⟩ := hu
    exact ⟨n, hba.mem hn, hnu⟩

/-- The names "r1" and "r2" are the other names of the events "m1" and "m2". -/
def pairNaming : Naming String where
  event u := if u = "r1" then "m1" else if u = "r2" then "m2" else u
  le_two := by
    intro u v w huv hvw
    grind

/-- Records of two events, with and without an alias, under either name. -/
def pairRecords : List Message :=
  [{ uri := "m1", connectionUri := "c", status := .ofFlags [.proposed] },
    { uri := "m1", connectionUri := "c", remoteUri := some "r1" },
    { uri := "r1", connectionUri := "c", remoteUri := some "m1", status := .ofFlags [.accepted] },
    { uri := "r2", connectionUri := "c" },
    { uri := "m2", connectionUri := "c", remoteUri := some "r2" }]

/-- Two events under four names, delivered from the last record to the first. -/
theorem arrived_pairRecords :
    pairNaming.Consistent "c" pairRecords ∧ pairRecords.reverse.Perm pairRecords ∧
      Arrived pairNaming pairRecords ((new "c" .connected).upsertAll pairRecords.reverse) ∧
      ((new "c" .connected).upsertAll pairRecords.reverse).2 = 2 := by
  have h : pairNaming.Consistent "c" pairRecords := by
    refine ⟨by decide, ?_, by decide⟩
    simp [pairRecords, Naming.Fits, pairNaming]
  have hp : pairRecords.reverse.Perm pairRecords := List.reverse_perm pairRecords
  exact ⟨h, hp, (arrived_of_perm pairNaming "c" .connected h hp).1, by decide⟩

end Conversation

end Parley
