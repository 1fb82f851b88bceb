import Mathlib
import Parley.Proofs.Runs

/-!
# Late duplicates

A record that arrives a second time changes nothing, even if snapshots, patches and reconciliations
came in between. `Stale` says what makes a record such a duplicate: the message that it would be
merged into is one that the merge leaves as it is. Taking in a record makes it stale in each outcome
(`Keyed.stale_upsert`), and from then on it stays stale.

**What happens in between.** No field of a stored message changes but its marker and its flags, and
flags are only raised (`Message.Raises`, `OnlyRaises`). So the flags of the duplicate, which are
those of the past, are among the flags that are stored. And since no name changes, the search for
its event ends at the same message as before: the search depends on nothing but names and keys.
-/

namespace Parley

/-- The action works on what is stored: it neither delivers records nor marks messages as read. -/
def Action.isInternal : Action → Bool
  | .upsert _ | .upsertAll _ | .finishMessages _ | .markAllRead => false
  | _ => true

theorem Action.records_eq_nil_of_isInternal {a : Action} (h : a.isInternal = true) :
    a.records = [] := by
  cases a with
  | upsert _ | upsertAll _ | finishMessages _ => exact absurd h Bool.false_ne_true
  | _ => rfl

/-- The message is an `earlier` one, but for flags that were raised since, and for the marker. -/
def Message.Raises (m earlier : Message) : Prop :=
  ∃ (s : Status) (marker : Bool),
    m = { earlier with status := earlier.status.merge s, upToDate := marker }

namespace Message.Raises

variable {m n p : Message}

theorem of_marker (m : Message) (marker : Bool) : { m with upToDate := marker }.Raises m :=
  ⟨m.status, marker, by rw [Status.merge_self]⟩

theorem refl (m : Message) : m.Raises m := of_marker m m.upToDate

theorem trans (h : m.Raises n) (h' : n.Raises p) : m.Raises p := by
  obtain ⟨s, b, rfl⟩ := h
  obtain ⟨s', b', rfl⟩ := h'
  exact ⟨s'.merge s, b, by rw [← Status.merge_assoc]⟩

/-- Raising flags leaves the names of a message. -/
theorem names_eq (h : m.Raises n) : Conversation.names m = Conversation.names n := by
  obtain ⟨s, b, rfl⟩ := h
  rfl

end Message.Raises

/-- A patch only raises flags, and marks. -/
theorem Message.raises_patched (m : Message) (s : Status) : (m.patched s).Raises m := ⟨s, true, rfl⟩

namespace Conversation

/-- A snapshot only takes the marker away. -/
theorem raises_invalidate (uris : UriSet) (m : Message) : (invalidate uris m).Raises m := by
  unfold invalidate
  split
  · exact .of_marker m false
  · exact .refl m

/-! ### Merges that change nothing -/

/-- Merging a record under its URI a second time changes nothing. -/
theorem refresh_refresh (old m : Message) : refresh (refresh old m) m = refresh old m := by
  have hremote : m.remoteUri.or (m.remoteUri.or old.remoteUri) =
      m.remoteUri.or old.remoteUri := by
    rw [← Option.or_assoc, Option.or_self]
  simp [refresh, keepsMarker, hremote, Status.merge_assoc]

/-- Merging a message into itself changes nothing. -/
theorem refresh_self (m : Message) : refresh m m = m := by
  simp [refresh, keepsMarker]

/-- Absorbing a record a second time changes nothing: its URI is the alias by then, or the known
message had another. -/
theorem absorb_absorb (known m : Message) : absorb (absorb known m) m = absorb known m := by
  simp [absorb, keepsMarker, Status.merge_assoc]

/-- Flags that are raised already are not raised by merging them once more, whatever has been raised
besides. -/
theorem merge_merge_of_merge_eq {s t : Status} (h : s.merge t = s) (u : Status) :
    (s.merge u).merge t = s.merge u := by
  rw [Status.merge_assoc, Status.merge_comm u t, ← Status.merge_assoc, h]

/-- A message keeps its marker in a merge that leaves its flags and its alias. -/
theorem keepsMarker_self (m : Message) : keepsMarker m m.remoteUri m.status = m.upToDate := by
  simp [keepsMarker]

/-- **Merges after flags were raised.** Let a merge take no flags and no marker from the stored
message but in the way that records are merged. If it changes nothing, it changes nothing after
flags were raised either: those that it brings were raised before. -/
theorem merge_eq_of_raises (merge : Message → Message) {status : Status}
    (hmerge : ∀ n s b, merge { n with status := s, upToDate := b } =
      { merge n with
        status := s.merge status
        upToDate := keepsMarker { n with status := s, upToDate := b } (merge n).remoteUri
          (s.merge status) })
    {old old' : Message} (h : merge old = old) (hraises : old'.Raises old) : merge old' = old' := by
  obtain ⟨s, b, rfl⟩ := hraises
  have hstatus : old.status.merge status = old.status := by
    have hold := congrArg Message.status (hmerge old old.status old.upToDate)
    exact hold.symm.trans (congrArg Message.status h)
  rw [hmerge, merge_merge_of_merge_eq hstatus, h,
    keepsMarker_self { old with status := old.status.merge s, upToDate := b }]

/-- A record that refreshes nothing refreshes nothing after flags were raised. -/
theorem refresh_eq_of_raises {old old' m : Message} (h : refresh old m = old)
    (hraises : old'.Raises old) : refresh old' m = old' :=
  merge_eq_of_raises (refresh · m) (fun _ _ _ ↦ rfl) h hraises

/-- A record from which nothing is absorbed brings nothing after flags were raised. -/
theorem absorb_eq_of_raises {known known' m : Message} (h : absorb known m = known)
    (hraises : known'.Raises known) : absorb known' m = known' :=
  merge_eq_of_raises (absorb · m) (fun _ _ _ ↦ rfl) h hraises

/-! ### Stale records -/

variable {c d : Conversation}

/-- The record brings nothing new: it belongs to another connection, or the message that it would be
merged into is not changed by that. -/
inductive Stale (c : Conversation) (m : Message) : Prop
  | foreign (hc : m.connectionUri ≠ c.uri)
  | refreshed (old : Message) (hold : c.message? m.uri = some old) (heq : refresh old m = old)
  | absorbed (known : Message) (hnew : c.message? m.uri = none)
      (hfind : c.messageList.find? (·.sameEvent m) = some known) (heq : absorb known m = known)

/-- Putting a message where it lies changes nothing. -/
theorem put_eq_self {n : Message} (h : c.message? n.uri = some n) : c.put n = c := by
  have hmessages : c.messages.insert n.uri n = c.messages := by
    refine OrderedMap.ext fun k ↦ ?_
    rw [OrderedMap.get?_insert]
    split
    · rename_i hk
      rw [hk]
      exact h.symm
    · rfl
  rw [put, hmessages]
  rfl

/-- Taking in a stale record changes nothing. -/
theorem Stale.upsert_eq {m : Message} (hm : c.Stale m) (h : c.Keyed) : c.upsert m = (c, false) := by
  have hi := intake_upsert h m
  generalize c.upsert m = r at hi ⊢
  cases hm with
  | foreign hc =>
    cases hi with
    | foreign => rfl
    | refreshed _ hc' | absorbed _ hc' | added hc' => exact absurd hc' hc
  | refreshed old hold heq =>
    cases hi with
    | foreign => rfl
    | refreshed old' _ hold' =>
      obtain rfl : old = old' := Option.some.inj (hold.symm.trans hold')
      have huri : old.uri = m.uri := h.uri_eq hold
      rw [heq, put_eq_self (huri.symm ▸ hold)]
    | absorbed _ _ hnew | added _ hnew => exact nomatch hnew.symm.trans hold
  | absorbed known hnew hfind heq =>
    cases hi with
    | foreign => rfl
    | refreshed _ _ hold => exact nomatch hnew.symm.trans hold
    | absorbed known' _ _ hfind' hknown =>
      obtain rfl : known = known' := Option.some.inj (hfind.symm.trans hfind')
      rw [heq, put_eq_self hknown]
    | added _ _ hfind' => exact nomatch hfind'.symm.trans hfind

/-- The message that has absorbed a record is the first of its event, as it was before. -/
theorem Keyed.find?_put_absorb (h : c.Keyed) {known m : Message}
    (hfind : c.messageList.find? (·.sameEvent m) = some known) :
    (c.put (absorb known m)).messageList.find? (·.sameEvent m) = some (absorb known m) := by
  obtain ⟨hknown, hsame, hleast⟩ := h.find?_eq_some_iff.mp hfind
  have hconn : known.connectionUri = c.uri := h.connectionUri_eq hknown
  have hkeyed : (c.put (absorb known m)).Keyed := h.put hconn
  refine hkeyed.find?_eq_some_iff.mpr ⟨c.message?_put_self _, ?_, fun {k n} hn hsame' ↦ ?_⟩
  · -- it keeps its names, and the URI of the record is one of them or has become one
    rcases hr : known.remoteUri with - | r
    · refine Message.sameEvent_iff.mpr (Or.inl (Message.isKnownAs_iff.mpr (Or.inr ?_)))
      rw [remoteUri_absorb, hr]
      rfl
    · have hnames : names (absorb known m) = names known := by simp [names, absorb, hr]
      rwa [sameEvent_eq_of_names_eq hnames]
  · rcases eq_or_of_message?_put hn with ⟨rfl, -⟩ | ⟨-, hn⟩
    · exact String.lt_irrefl _
    · exact hleast hn hsame'

/-- **A record that was taken in is stale.** -/
theorem Keyed.stale_upsert (h : c.Keyed) (m : Message) : (c.upsert m).1.Stale m := by
  have hi := intake_upsert h m
  generalize c.upsert m = r at hi ⊢
  cases hi with
  | foreign hc => exact .foreign hc
  | refreshed old hc hold =>
    exact .refreshed (refresh old m) (c.message?_put_self _) (refresh_refresh old m)
  | absorbed known hc hnew hfind hknown hsame =>
    have hne : m.uri ≠ (absorb known m).uri := by
      rintro huri
      rw [huri, uri_absorb, hknown] at hnew
      exact nomatch hnew
    refine .absorbed (absorb known m) ?_ (h.find?_put_absorb hfind) (absorb_absorb known m)
    rw [message?_put, if_neg hne, hnew]
  | added hc hnew hfind hnone =>
    exact .refreshed m (c.message?_put_self m) (refresh_self m)

/-! ### What happens in between -/

/-- The messages of `d` are those of `c`, but for flags that were raised since, and for markers. -/
structure OnlyRaises (c d : Conversation) : Prop where
  uri_eq : d.uri = c.uri
  raised : ∀ k m, c.message? k = some m → ∃ n, d.message? k = some n ∧ n.Raises m
  known : ∀ k n, d.message? k = some n → ∃ m, c.message? k = some m ∧ n.Raises m

namespace OnlyRaises

variable {e : Conversation}

/-- Raising flags and setting markers message by message. -/
theorem of_map (hu : d.uri = c.uri) (f : String → Message → Message)
    (hf : ∀ k m, (f k m).Raises m)
    (hd : ∀ k, d.message? k = (c.message? k).map (f k)) : OnlyRaises c d where
  uri_eq := hu
  raised k m hm := ⟨f k m, by rw [hd, hm, Option.map_some], hf k m⟩
  known k n hn := by
    rw [hd] at hn
    obtain ⟨m, hm, rfl⟩ := Option.map_eq_some_iff.mp hn
    exact ⟨m, hm, hf k m⟩

theorem refl (c : Conversation) : OnlyRaises c c :=
  of_map rfl (fun _ m ↦ m) (fun _ ↦ .refl) fun _ ↦ Option.map_id'.symm

theorem trans (h : OnlyRaises c d) (h' : OnlyRaises d e) : OnlyRaises c e where
  uri_eq := h'.uri_eq.trans h.uri_eq
  raised k m hm := by
    obtain ⟨n, hn, hnm⟩ := h.raised k m hm
    obtain ⟨p, hp, hpn⟩ := h'.raised k n hn
    exact ⟨p, hp, hpn.trans hnm⟩
  known k p hp := by
    obtain ⟨n, hn, hpn⟩ := h'.known k p hp
    obtain ⟨m, hm, hnm⟩ := h.known k n hn
    exact ⟨m, hm, hpn.trans hnm⟩

theorem of_sameCore (h : SameCore c d) : OnlyRaises c d :=
  of_map h.uri_eq (fun _ m ↦ m) (fun _ ↦ .refl) fun k ↦ (h.message?_eq k).trans Option.map_id'.symm

theorem message?_eq_none (h : OnlyRaises c d) {k : String} (hk : c.message? k = none) :
    d.message? k = none := by
  refine Option.eq_none_iff_forall_ne_some.mpr fun n hn ↦ ?_
  obtain ⟨m, hm, -⟩ := h.known k n hn
  exact nomatch hk.symm.trans hm

/-- A search by name finds the same message as before. -/
theorem exists_find? (h : OnlyRaises c d) (hc : c.Keyed) (hd : d.Keyed) {m known : Message}
    (hfind : c.messageList.find? (·.sameEvent m) = some known) :
    ∃ known', d.messageList.find? (·.sameEvent m) = some known' ∧ known'.Raises known := by
  have hsame : ∀ {n n' : Message}, n'.Raises n → n'.sameEvent m = n.sameEvent m :=
    fun hraises ↦ sameEvent_eq_of_names_eq hraises.names_eq m
  obtain ⟨hknown, hm, hleast⟩ := hc.find?_eq_some_iff.mp hfind
  obtain ⟨known', hknown', hraises⟩ := h.raised _ _ hknown
  have huri : known'.uri = known.uri := hd.uri_eq hknown'
  refine ⟨known', hd.find?_eq_some_iff.mpr ⟨?_, (hsame hraises).trans hm, ?_⟩, hraises⟩
  · rw [huri, hknown']
  · intro k n' hn' hm'
    obtain ⟨n, hn, hraises'⟩ := h.known k n' hn'
    rw [huri]
    exact hleast hn ((hsame hraises').symm.trans hm')

/-- **A stale record stays stale.** -/
theorem stale (h : OnlyRaises c d) (hc : c.Keyed) (hd : d.Keyed) {m : Message} (hm : c.Stale m) :
    d.Stale m := by
  cases hm with
  | foreign hne =>
    refine .foreign ?_
    rwa [h.uri_eq]
  | refreshed old hold heq =>
    obtain ⟨old', hold', hraises⟩ := h.raised _ _ hold
    exact .refreshed old' hold' (refresh_eq_of_raises heq hraises)
  | absorbed known hnew hfind heq =>
    obtain ⟨known', hfind', hraises⟩ := h.exists_find? hc hd hfind
    exact .absorbed known' (h.message?_eq_none hnew) hfind' (absorb_eq_of_raises heq hraises)

end OnlyRaises

/-- A patch raises flags of the message it is for. -/
theorem onlyRaises_applyPatch (c : Conversation) (p : Patch) : OnlyRaises c (c.applyPatch p).1 := by
  refine .of_map (sameNames_applyPatch c p).uri_eq _ (fun k m ↦ ?_) (message?_applyPatch c p)
  split
  · exact m.raises_patched p.status
  · exact .refl m

theorem onlyRaises_applyPatches (ps : List Patch) :
    ∀ c : Conversation, OnlyRaises c (c.applyPatches ps).1 := by
  induction ps with
  | nil => exact .refl
  | cons p ps ih => exact fun c ↦ (onlyRaises_applyPatch c p).trans (ih _)

/-- A snapshot raises no flag; it takes markers away. -/
theorem onlyRaises_applySnapshot (c : Conversation) (s : Snapshot) :
    OnlyRaises c (c.applySnapshot s) := by
  rcases h : c.agreement.data with - | prior
  · rw [applySnapshot_of_none h]
    exact .of_map rfl (fun _ m ↦ m) (fun _ ↦ .refl) fun _ ↦ Option.map_id'.symm
  · exact .of_map rfl _ (fun _ ↦ raises_invalidate _) (message?_applySnapshot h s)

/-- One action. -/
theorem onlyRaises_perform {a : Action} (ha : a.isInternal = true) (c : Conversation) :
    OnlyRaises c (c.perform a).1 :=
  perform_preserves_of (P := fun d ↦ OnlyRaises c d)
    (fun hs hd ↦ hd.trans (.of_sameCore hs))
    (fun m hm _ ↦ by
      rw [Action.records_eq_nil_of_isInternal ha] at hm
      exact nomatch hm)
    (fun p _ hd ↦ hd.trans (onlyRaises_applyPatch _ p))
    (fun hd ↦ hd.trans (onlyRaises_applyPatches _ _))
    (fun hread _ ↦ by
      rw [hread] at ha
      exact nomatch ha)
    (fun s hd ↦ hd.trans (onlyRaises_applySnapshot _ s))
    (.refl c)

/-- A run. -/
theorem onlyRaises_run {actions : List Action} (h : ∀ a ∈ actions, a.isInternal = true)
    (c : Conversation) : OnlyRaises c (c.run actions) :=
  run_preserves (P := fun d ↦ OnlyRaises c d)
    (fun a ha hd ↦ hd.trans (onlyRaises_perform (h a ha) _)) (.refl c)

/-! ### The duplicate -/

/-- **A late duplicate changes nothing.** Take in any record in any state that a run reaches, and
let follow any actions that neither deliver records nor mark messages as read: snapshots, patches,
reconciliations, changes of the connection, fetches that begin or fail. The same record then finds
its event known and leaves the conversation as it is. -/
theorem upsert_late_duplicate (uri : String) (s : Connection) (actions : List Action) (m : Message)
    (between : List Action) (h : ∀ a ∈ between, a.isInternal = true) :
    ((new uri s).run (actions ++ .upsert m :: between)).upsert m =
      ((new uri s).run (actions ++ .upsert m :: between), false) := by
  have hkeyed : ((new uri s).run actions).Keyed := keyed_run uri s actions
  have hrun : (new uri s).run (actions ++ .upsert m :: between) =
      (((new uri s).run actions).upsert m).1.run between := run_append _ _ _
  have hkeyed' : ((((new uri s).run actions).upsert m).1.run between).Keyed :=
    run_preserves (fun a _ hc ↦ hc.perform a) (hkeyed.upsert m)
  rw [hrun]
  exact ((onlyRaises_run h _).stale (hkeyed.upsert m) hkeyed' (hkeyed.stale_upsert m)).upsert_eq
    hkeyed'

/-- Two messages that are both known by a name of the record `remoteRecord`. -/
def twoCandidates : List Action :=
  [.upsert { uri := "m1", connectionUri := "c" },
    .upsert { uri := "m2", connectionUri := "c", remoteUri := some "r1" }]

/-- The event of `m1` as the other side records it. -/
def remoteRecord : Message :=
  { uri := "r1", connectionUri := "c", remoteUri := some "m1", unread := true }

/-- The message is agreed on, the agreement is to be cancelled, and a fetch fails. -/
def meanwhile : List Action :=
  [.applySnapshot { agreements := .ofList ["r1"] }, .reconcile, .setConnection .closed,
    .applyPatch ⟨"m1", "c", .ofFlags [.proposed]⟩, .beginMessages, .failMessages ⟨.fetch, "503"⟩,
    .applySnapshot { agreements := .ofList ["m1"] }]

/-- The late record is merged into the first of two candidates, whose alias came from it, and whose
flags and marker have changed since. -/
theorem upsert_late_duplicate_meanwhile :
    (∀ a ∈ meanwhile, a.isInternal = true) ∧
      ((new "c" .connected).run (twoCandidates ++ .upsert remoteRecord :: meanwhile)).upsert
          remoteRecord =
        ((new "c" .connected).run (twoCandidates ++ .upsert remoteRecord :: meanwhile), false) ∧
      ((new "c" .connected).run
          (twoCandidates ++ .upsert remoteRecord :: meanwhile)).message? "m1" =
        some { uri := "m1", connectionUri := "c", remoteUri := some "r1",
               status := .ofFlags [.proposed, .accepted] } := by
  have h : ∀ a ∈ meanwhile, a.isInternal = true := by decide
  exact ⟨h, upsert_late_duplicate "c" .connected twoCandidates remoteRecord meanwhile h,
    by cbv⟩

end Conversation

end Parley
