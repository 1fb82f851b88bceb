import Parley.Proofs.Intake

/-!
# What patches do to stored messages

Patches and all other operations on stored messages leave the keys and the names of messages alone
(`SameNames`); what they change, they change one message at a time. The main statement is
`message?_reconcile`: reconciling a keyed conversation settles exactly the visible messages without
a marker, and touches no other.
-/

namespace Parley

/-! ### Raising flags of one message -/

/-- The message with the flags of a status raised, and marked. -/
def Message.patched (m : Message) (s : Status) : Message :=
  { m with status := m.status.merge s, upToDate := true }

/-- The message with its status brought up to a snapshot, and marked. -/
def Message.settled (m : Message) (s : Snapshot) : Message :=
  { m with status := m.reconciled (some s), upToDate := true }

/-- A patch applied twice is applied once. -/
theorem Message.patched_patched (m : Message) (s : Status) :
    (m.patched s).patched s = m.patched s := by
  simp only [patched, Status.merge_assoc, Status.merge_self]

/-- Merging the status that a snapshot gives a message settles it: the patch repeats the flags that
were there. -/
theorem Message.patched_reconciled (m : Message) (s : Snapshot) :
    m.patched (m.reconciled (some s)) = m.settled s := by
  have hmerge : m.status.merge (m.reconciled (some s)) = m.reconciled (some s) := by
    rw [reconciled, ← Status.merge_assoc, Status.merge_self]
  rw [patched, hmerge, settled]

/-- A settled message is settled: its snapshot has no further flag for it. -/
theorem Message.reconciled_settled (m : Message) (s : Snapshot) :
    (m.settled s).reconciled (some s) = (m.settled s).status := by
  have hderive : s.derive (m.settled s) = s.derive m := rfl
  show (m.status.merge (s.derive m)).merge (s.derive (m.settled s)) = _
  rw [hderive, Status.merge_assoc, Status.merge_self]
  rfl

/-- A message whose status takes a snapshot into account has every flag that the snapshot raises
for it. -/
theorem Message.reconciled_eq_status_iff {m : Message} {s : Snapshot} :
    m.reconciled (some s) = m.status ↔
      ∀ f, s.holds f.category m.uri m.remoteUri = true → m.status.get f = true := by
  rw [reconciled, ← Status.covers_iff_merge_eq, Status.covers_iff]
  simp [Snapshot.derive]

namespace Conversation

/-! ### Names stay -/

/-- The names that a message has: of its event on either side, and of its connection. -/
def names (m : Message) : String × Option String × String := (m.uri, m.remoteUri, m.connectionUri)

/-- Messages with the same names go by the same URIs. -/
theorem isKnownAs_eq_of_names_eq {m n : Message} (h : names m = names n) (u : String) :
    m.isKnownAs u = n.isKnownAs u := by
  have huri : m.uri = n.uri := congrArg Prod.fst h
  have hremote : m.remoteUri = n.remoteUri := congrArg (·.2.1) h
  rw [Message.isKnownAs, huri, hremote, Message.isKnownAs]

/-- Whether two messages are of one event depends on their names alone. -/
theorem sameEvent_eq_of_names_eq {m n : Message} (h : names m = names n) (p : Message) :
    m.sameEvent p = n.sameEvent p := by
  have hknown : m.isKnownAs = n.isKnownAs := funext (isKnownAs_eq_of_names_eq h)
  rw [Message.sameEvent, hknown, Message.sameEvent]

/-- The conversation `d` stores messages under the same keys as `c`, and with the same names. -/
structure SameNames (c d : Conversation) : Prop where
  uri_eq : d.uri = c.uri
  names_eq : ∀ k, (d.message? k).map names = (c.message? k).map names

namespace SameNames

variable {c d e : Conversation}

theorem refl (c : Conversation) : SameNames c c := ⟨rfl, fun _ ↦ rfl⟩

theorem trans (h : SameNames c d) (h' : SameNames d e) : SameNames c e :=
  ⟨h'.uri_eq.trans h.uri_eq, fun k ↦ (h'.names_eq k).trans (h.names_eq k)⟩

/-- Changing every message without changing its names. -/
theorem of_map (hu : d.uri = c.uri) (f : String → Message → Message)
    (hf : ∀ k m, names (f k m) = names m)
    (hd : ∀ k, d.message? k = (c.message? k).map (f k)) : SameNames c d where
  uri_eq := hu
  names_eq k := by
    rw [hd, Option.map_map]
    exact congrArg (Option.map · (c.message? k)) (funext fun m ↦ hf k m)

/-- A message of `d` is one of `c` under the same key, up to what is no name. -/
theorem exists_of_message? (h : SameNames c d) {k : String} {n : Message}
    (hn : d.message? k = some n) : ∃ m, c.message? k = some m ∧ names m = names n := by
  have hk := h.names_eq k
  rw [hn, Option.map_some] at hk
  exact Option.map_eq_some_iff.mp hk.symm

theorem message?_eq_none (h : SameNames c d) {k : String} (hk : c.message? k = none) :
    d.message? k = none := by
  rw [← Option.map_eq_none_iff (f := names), h.names_eq, hk]
  rfl

/-- Being keyed is a matter of names. -/
theorem keyed (h : SameNames c d) (hc : c.Keyed) : d.Keyed where
  uri_eq := by
    intro k n hn
    obtain ⟨m, hm, he⟩ := h.exists_of_message? hn
    exact (congrArg Prod.fst he).symm.trans (hc.uri_eq hm)
  connectionUri_eq := by
    intro k n hn
    obtain ⟨m, hm, he⟩ := h.exists_of_message? hn
    have hconn : m.connectionUri = n.connectionUri := congrArg (·.2.2) he
    rw [← hconn, h.uri_eq]
    exact hc.connectionUri_eq hm

/-- Which events are contained is a matter of names. -/
theorem containsEvent_eq (h : SameNames c d) (hc : c.Keyed) (u : String) :
    d.containsEvent u = c.containsEvent u := by
  rw [Bool.eq_iff_iff, (h.keyed hc).containsEvent_iff, hc.containsEvent_iff]
  refine exists_congr fun k ↦ ⟨?_, ?_⟩
  · rintro ⟨n, hn, hu⟩
    obtain ⟨m, hm, he⟩ := h.exists_of_message? hn
    exact ⟨m, hm, (isKnownAs_eq_of_names_eq he u).trans hu⟩
  · rintro ⟨m, hm, hu⟩
    have hk := h.names_eq k
    rw [hm, Option.map_some] at hk
    obtain ⟨n, hn, he⟩ := Option.map_eq_some_iff.mp hk
    exact ⟨n, hn, (isKnownAs_eq_of_names_eq he u).trans hu⟩

end SameNames

/-! ### Patches -/

/-- **One patch** raises the flags of the message under its URI, and leaves every other as it is. -/
theorem message?_applyPatch (c : Conversation) (p : Patch) (k : String) :
    (c.applyPatch p).1.message? k =
      (c.message? k).map fun m ↦ if k = p.messageUri then m.patched p.status else m := by
  unfold applyPatch
  split
  · exact c.messages.get?_modify p.messageUri k _
  · rename_i hcont
    have hnone : c.message? p.messageUri = none := by
      simpa [OrderedMap.contains, message?] using hcont
    by_cases hk : k = p.messageUri
    · rw [hk, hnone]
      rfl
    · simp [hk]

/-- Patches change nothing but messages. -/
theorem exists_applyPatch_eq (c : Conversation) (p : Patch) :
    ∃ ms, (c.applyPatch p).1 = c.withMessages ms := by
  unfold applyPatch
  split
  · exact ⟨_, rfl⟩
  · exact ⟨c.messages, rfl⟩

theorem exists_applyPatches_eq (ps : List Patch) :
    ∀ c : Conversation, ∃ ms, (c.applyPatches ps).1 = c.withMessages ms := by
  induction ps with
  | nil => exact fun c ↦ ⟨c.messages, rfl⟩
  | cons p ps ih =>
    intro c
    obtain ⟨ms, hms⟩ := exists_applyPatch_eq c p
    obtain ⟨ms', hms'⟩ := ih (c.applyPatch p).1
    refine ⟨ms', ?_⟩
    show ((c.applyPatch p).1.applyPatches ps).1 = _
    rw [hms', hms]
    rfl

/-- **Patches of one message.** If all patches for the message under `k` carry the status `s`, it
does not matter how many there are. -/
theorem message?_applyPatches {k : String} {s : Status} (ps : List Patch) :
    ∀ c : Conversation, (∀ p ∈ ps, p.messageUri = k → p.status = s) →
      (c.applyPatches ps).1.message? k =
        (c.message? k).map fun m ↦ if ps.any (·.messageUri = k) then m.patched s else m := by
  induction ps with
  | nil => simp [applyPatches]
  | cons p ps ih =>
    intro c hs
    show ((c.applyPatch p).1.applyPatches ps).1.message? k = _
    rw [ih _ fun q hq ↦ hs q (List.mem_cons_of_mem _ hq), message?_applyPatch, Option.map_map]
    refine congrArg (Option.map · (c.message? k)) (funext fun m ↦ ?_)
    by_cases hp : p.messageUri = k
    · -- a later patch for the message only repeats the flags of this one
      have hps : p.status = s := hs p List.mem_cons_self hp
      simp only [Function.comp_apply, hp, hps, if_true, List.any_cons, decide_true, Bool.true_or]
      split
      · exact m.patched_patched s
      · rfl
    · simp [hp, Ne.symm hp]

/-- A patch leaves all names in place, since it sets flags and the marker only. -/
theorem sameNames_applyPatch (c : Conversation) (p : Patch) : SameNames c (c.applyPatch p).1 := by
  obtain ⟨ms, hms⟩ := exists_applyPatch_eq c p
  refine .of_map (hms ▸ rfl) _ (fun k m ↦ ?_) (message?_applyPatch c p)
  split <;> rfl

theorem sameNames_applyPatches (ps : List Patch) :
    ∀ c : Conversation, SameNames c (c.applyPatches ps).1 := by
  induction ps with
  | nil => exact .refl
  | cons p ps ih => exact fun c ↦ (sameNames_applyPatch c p).trans (ih _)

/-! ### Reconciling -/

/-- In a keyed conversation no stored message hides another from the chat. -/
theorem Keyed.mem_unreconciled {c : Conversation} (h : c.Keyed) {m : Message} :
    m ∈ c.unreconciled ↔
      c.message? m.uri = some m ∧ m.isVisible = true ∧ m.upToDate = false := by
  rw [unreconciled, Chat.unreconciled, List.mem_filter, Bool.not_eq_true']
  constructor
  · rintro ⟨hm, hmark⟩
    exact ⟨h.message?_uri (Chat.mem_of_mem_ordered hm), Chat.isVisible_of_mem_ordered hm, hmark⟩
  · rintro ⟨hm, hv, hmark⟩
    refine ⟨Chat.mem_ordered_of_unique (mem_messageList.mpr ⟨_, hm⟩) hv fun n hn hu ↦ ?_, hmark⟩
    have hn' := h.message?_uri hn
    rw [hu, hm] at hn'
    exact (Option.some.inj hn').symm

theorem reconcile_of_none {c : Conversation} (hs : c.agreement.data = none) :
    c.reconcile = (c, 0) := by
  rw [reconcile, hs]
  rfl

/-- Reconciling leaves all names in place. -/
theorem sameNames_reconcile (c : Conversation) : SameNames c c.reconcile.1 :=
  sameNames_applyPatches _ c

theorem agreement_reconcile (c : Conversation) : c.reconcile.1.agreement = c.agreement := by
  obtain ⟨ms, hms⟩ := exists_applyPatches_eq (Patch.forMessages c.messageList c.agreement.data) c
  rw [reconcile, hms, agreement_withMessages]

/-- There is a patch for the message under `k` just if it is visible and has no marker. -/
theorem Keyed.any_forMessages {c : Conversation} (h : c.Keyed) (s : Snapshot) {k : String}
    {m : Message} (hk : c.message? k = some m) :
    (Patch.forMessages c.messageList (some s)).any (·.messageUri = k) =
      (m.isVisible && !m.upToDate) := by
  have huri : m.uri = k := h.uri_eq hk
  rw [Bool.eq_iff_iff, List.any_eq_true, Bool.and_eq_true, Bool.not_eq_true']
  constructor
  · rintro ⟨p, hp, hpk⟩
    obtain ⟨n, hn, rfl⟩ := List.mem_map.mp hp
    obtain ⟨hnk, hv, hmark⟩ := h.mem_unreconciled.mp hn
    rw [show n.uri = k from of_decide_eq_true hpk, hk] at hnk
    rw [Option.some.inj hnk]
    exact ⟨hv, hmark⟩
  · rintro ⟨hv, hmark⟩
    refine ⟨.of s m, List.mem_map_of_mem (h.mem_unreconciled.mpr ⟨?_, hv, hmark⟩), ?_⟩
    · rw [huri, hk]
    · exact decide_eq_true huri

/-- **What reconciling does.** The visible messages without a marker are settled with the snapshot;
no other message changes. -/
theorem message?_reconcile {c : Conversation} (h : c.Keyed) {s : Snapshot}
    (hs : c.agreement.data = some s) (k : String) :
    c.reconcile.1.message? k =
      (c.message? k).map fun m ↦ if m.isVisible && !m.upToDate then m.settled s else m := by
  rcases hk : c.message? k with - | m
  · exact (sameNames_reconcile c).message?_eq_none hk
  · -- a message that is found under `k` is `m` itself, so all patches for `k` agree
    have hstatus : ∀ p ∈ Patch.forMessages c.messageList (some s),
        p.messageUri = k → p.status = m.reconciled (some s) := by
      intro p hp hpk
      obtain ⟨n, hn, rfl⟩ := List.mem_map.mp hp
      have hnk := (h.mem_unreconciled.mp hn).1
      rw [show n.uri = k from hpk, hk] at hnk
      rw [Option.some.inj hnk]
      rfl
    rw [reconcile, hs, message?_applyPatches _ c hstatus, hk, h.any_forMessages s hk,
      Option.map_some, Option.map_some, m.patched_reconciled]

/-- After reconciling with a snapshot nothing is left to reconcile. -/
theorem Keyed.unreconciled_reconcile {c : Conversation} (h : c.Keyed) {s : Snapshot}
    (hs : c.agreement.data = some s) : c.reconcile.1.unreconciled = [] := by
  refine List.eq_nil_iff_forall_not_mem.mpr fun n hn ↦ ?_
  obtain ⟨hk, hv, hmark⟩ := ((sameNames_reconcile c).keyed h).mem_unreconciled.mp hn
  rw [message?_reconcile h hs] at hk
  obtain ⟨m, -, hm⟩ := Option.map_eq_some_iff.mp hk
  split at hm
  · rw [← hm] at hmark
    exact absurd hmark (by simp [Message.settled])
  · rename_i hnot
    rw [hm, hv, hmark] at hnot
    exact hnot rfl

/-- Reconciling leaves no visible message short of a flag just if none was short that it skipped. -/
theorem Keyed.reconciled_reconcile_iff {c : Conversation} (h : c.Keyed) {s : Snapshot}
    (hs : c.agreement.data = some s) :
    (∀ m ∈ c.reconcile.1.messageList, m.isVisible = true → m.reconciled (some s) = m.status) ↔
      ∀ m ∈ c.messageList, m.isVisible = true → m.upToDate = true →
        m.reconciled (some s) = m.status := by
  constructor
  · intro hall m hm hv hmark
    refine hall m (mem_messageList.mpr ⟨m.uri, ?_⟩) hv
    rw [message?_reconcile h hs, h.message?_uri hm, Option.map_some, hv, hmark]
    rfl
  · intro hall n hn hv
    obtain ⟨k, hk⟩ := mem_messageList.mp hn
    rw [message?_reconcile h hs] at hk
    obtain ⟨m, hm, hmn⟩ := Option.map_eq_some_iff.mp hk
    split at hmn
    · rw [← hmn]
      exact m.reconciled_settled s
    · rename_i hskip
      rw [hmn] at hm hskip
      have hmark : n.upToDate = true := by simpa [hv] using hskip
      exact hall n (mem_messageList.mpr ⟨k, hm⟩) hv hmark

end Conversation

end Parley
