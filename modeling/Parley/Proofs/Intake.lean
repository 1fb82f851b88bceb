import Parley.Conversation

/-!
# What becomes of a record

`Conversation.upsert` finds the event of a record in two ways and merges two records in two ways.
`Intake` names the four outcomes, and `intake_upsert` says that one of them occurs. In each outcome
that changes anything a single message is put under its own URI, so a fact about stored messages
is kept if it holds of that one message.

**Keyed conversations.** The outcomes are those of a conversation in which every message lies
under its own URI (`Keyed`): only there does the message that was found lie where the merged one is
put. Every way to change messages keeps this.
-/

namespace Parley.Conversation

/-! ### No messages -/

/-- The list of the messages is empty just if the map is. -/
theorem isEmpty_messageList (c : Conversation) : c.messageList.isEmpty = c.isEmpty :=
  List.isEmpty_map

/-- A conversation is empty if nothing is stored under any key. -/
theorem isEmpty_iff {c : Conversation} : c.isEmpty = true ↔ ∀ k, c.message? k = none := by
  rw [← isEmpty_messageList, List.isEmpty_iff, List.eq_nil_iff_forall_not_mem]
  simp only [mem_messageList, not_exists, Option.eq_none_iff_forall_ne_some]
  exact forall_comm

/-! ### Messages under their own URI -/

/-- Every message lies under its own URI and belongs to the connection of the conversation. -/
structure Keyed (c : Conversation) : Prop where
  uri_eq : ∀ {k m}, c.message? k = some m → m.uri = k
  connectionUri_eq : ∀ {k m}, c.message? k = some m → m.connectionUri = c.uri

/-- Nothing is stored in a new conversation, so nothing is stored wrongly. -/
theorem keyed_new (uri : String) (s : Connection) : (new uri s).Keyed where
  uri_eq h := nomatch h
  connectionUri_eq h := nomatch h

/-- The conversation with a message put under its URI. -/
def put (c : Conversation) (m : Message) : Conversation :=
  c.withMessages (c.messages.insert m.uri m)

/-- What is under a key once a message was put: that message under its own URI, and what was there
elsewhere. -/
theorem message?_put (c : Conversation) (m : Message) (k : String) :
    (c.put m).message? k = if k = m.uri then some m else c.message? k :=
  c.messages.get?_insert m.uri m k

theorem message?_put_self (c : Conversation) (m : Message) : (c.put m).message? m.uri = some m :=
  c.messages.get?_insert_self m.uri m

/-- What is stored after `put` is the new message or an old one that lies elsewhere. -/
theorem eq_or_of_message?_put {c : Conversation} {m n : Message} {k : String}
    (h : (c.put m).message? k = some n) :
    (k = m.uri ∧ n = m) ∨ (k ≠ m.uri ∧ c.message? k = some n) := by
  rw [message?_put] at h
  split at h
  · rename_i hk
    exact Or.inl ⟨hk, (Option.some.inj h).symm⟩
  · rename_i hk
    exact Or.inr ⟨hk, h⟩

/-- Putting a message of the own connection keeps a conversation keyed. -/
theorem Keyed.put {c : Conversation} (h : c.Keyed) {m : Message}
    (hm : m.connectionUri = c.uri) : (c.put m).Keyed where
  uri_eq := by
    intro k n hn
    rcases eq_or_of_message?_put hn with ⟨rfl, rfl⟩ | ⟨-, hn⟩
    · rfl
    · exact h.uri_eq hn
  connectionUri_eq := by
    intro k n hn
    rcases eq_or_of_message?_put hn with ⟨-, rfl⟩ | ⟨-, hn⟩
    · exact hm
    · exact h.connectionUri_eq hn

/-- A message that is listed is found under its own URI. -/
theorem Keyed.message?_uri {c : Conversation} (h : c.Keyed) {m : Message}
    (hm : m ∈ c.messageList) : c.message? m.uri = some m := by
  obtain ⟨k, hk⟩ := mem_messageList.mp hm
  rwa [h.uri_eq hk]

/-- In a keyed conversation the messages are listed by increasing URI. -/
theorem Keyed.sorted_messageList {c : Conversation} (h : c.Keyed) :
    c.messageList.Pairwise fun m n ↦ m.uri < n.uri := by
  rw [messageList, OrderedMap.values, List.pairwise_map]
  refine c.messages.sorted.imp_of_mem fun {p q} hp hq hlt ↦ ?_
  rwa [h.uri_eq (OrderedMap.mem_entries_iff.mp hp), h.uri_eq (OrderedMap.mem_entries_iff.mp hq)]

/-- In a keyed conversation no two stored messages have one URI. -/
theorem Keyed.pairwise_messageList {c : Conversation} (h : c.Keyed) :
    c.messageList.Pairwise fun m n ↦ m.uri ≠ n.uri :=
  h.sorted_messageList.imp KeyedList.ne_of_lt

/-- What a search finds is stored and passes the test, and nothing under a smaller URI does. -/
theorem Keyed.minimal_of_find? {c : Conversation} (h : c.Keyed) {p : Message → Bool} {n : Message}
    (hn : c.messageList.find? p = some n) :
    c.message? n.uri = some n ∧ p n = true ∧
      ∀ {k n'}, c.message? k = some n' → p n' = true → ¬k < n.uri := by
  obtain ⟨hp, front, back, hsplit, hfront⟩ := List.find?_eq_some_iff_append.mp hn
  refine ⟨h.message?_uri (List.mem_of_find?_eq_some hn), hp, fun {k n'} hn' hp' hlt ↦ ?_⟩
  have hmem : n' ∈ c.messageList := mem_messageList.mpr ⟨k, hn'⟩
  have hsorted := h.sorted_messageList
  rw [← h.uri_eq hn'] at hlt
  rw [hsplit] at hmem hsorted
  rcases List.mem_append.mp hmem with hf | hb
  · -- what stands in front of the message fails the test
    simpa [hp'] using hfront n' hf
  · rcases List.mem_cons.mp hb with rfl | hb
    · exact String.lt_irrefl _ hlt
    · have hlater := List.rel_of_pairwise_cons (List.pairwise_append.mp hsorted).2.1 hb
      exact String.lt_irrefl _ (String.lt_trans hlt hlater)

/-- **Searching.** The message that a search finds is the one under the least URI that passes. -/
theorem Keyed.find?_eq_some_iff {c : Conversation} (h : c.Keyed) {p : Message → Bool}
    {n : Message} :
    c.messageList.find? p = some n ↔
      c.message? n.uri = some n ∧ p n = true ∧
        ∀ {k n'}, c.message? k = some n' → p n' = true → ¬k < n.uri := by
  refine ⟨h.minimal_of_find?, fun ⟨hn, hp, hleast⟩ ↦ ?_⟩
  rcases hfind : c.messageList.find? p with - | n'
  · have hmem : n ∈ c.messageList := mem_messageList.mpr ⟨n.uri, hn⟩
    exact absurd hp (List.find?_eq_none.mp hfind n hmem)
  · obtain ⟨hn', hp', hleast'⟩ := h.minimal_of_find? hfind
    have huri : n'.uri = n.uri :=
      String.le_antisymm (String.not_lt.mp (hleast' hn hp)) (String.not_lt.mp (hleast hn' hp'))
    rw [huri, hn] at hn'
    rw [Option.some.inj hn']

/-- **An event is contained** just if some stored message is known by the name. The lookup by key
adds nothing: a key is the URI of what lies there. -/
theorem Keyed.containsEvent_iff {c : Conversation} (h : c.Keyed) {u : String} :
    c.containsEvent u = true ↔ ∃ k m, c.message? k = some m ∧ m.isKnownAs u = true := by
  rw [containsEvent, Bool.or_eq_true, List.any_eq_true, OrderedMap.contains_iff]
  constructor
  · rintro (⟨m, hm⟩ | ⟨m, hm, hu⟩)
    · exact ⟨u, m, hm, Message.isKnownAs_iff.mpr (Or.inl (h.uri_eq hm))⟩
    · obtain ⟨k, hk⟩ := mem_messageList.mp hm
      exact ⟨k, m, hk, hu⟩
  · rintro ⟨k, m, hm, hu⟩
    exact Or.inr ⟨m, mem_messageList.mpr ⟨k, hm⟩, hu⟩

/-! ### The two merges -/

@[simp] theorem uri_refresh (old new : Message) : (refresh old new).uri = new.uri := rfl

@[simp] theorem remoteUri_refresh (old new : Message) :
    (refresh old new).remoteUri = (new.remoteUri <|> old.remoteUri) := rfl

@[simp] theorem uri_absorb (old new : Message) : (absorb old new).uri = old.uri := rfl

@[simp] theorem remoteUri_absorb (old new : Message) :
    (absorb old new).remoteUri = (old.remoteUri <|> some new.uri) := rfl

/-- A marker survives a merge that changes neither the flags nor the alias, and no other. -/
theorem keepsMarker_iff {old : Message} {remoteUri : Option String} {status : Status} :
    keepsMarker old remoteUri status = true ↔
      old.upToDate = true ∧ status = old.status ∧ remoteUri = old.remoteUri := by
  simp [keepsMarker, and_assoc]

/-- A refreshed message is marked only if it was and neither flags nor URIs have changed. -/
theorem upToDate_refresh_iff {old new : Message} :
    (refresh old new).upToDate = true ↔
      old.upToDate = true ∧ (refresh old new).status = old.status ∧
        (refresh old new).remoteUri = old.remoteUri := keepsMarker_iff

/-- A message that has absorbed a record is marked only if it was and neither flags nor URIs have
changed. -/
theorem upToDate_absorb_iff {old new : Message} :
    (absorb old new).upToDate = true ↔
      old.upToDate = true ∧ (absorb old new).status = old.status ∧
        (absorb old new).remoteUri = old.remoteUri := keepsMarker_iff

/-! ### The outcomes -/

/-- What can come of taking in the record `m`. -/
inductive Intake (c : Conversation) (m : Message) : Conversation × Bool → Prop
  /-- The record belongs to another connection. -/
  | foreign (hc : m.connectionUri ≠ c.uri) : Intake c m (c, false)
  /-- The record replaces the one under its URI. -/
  | refreshed (old : Message) (hc : m.connectionUri = c.uri) (hold : c.message? m.uri = some old) :
      Intake c m (c.put (refresh old m), false)
  /-- The event is known under the URI of the other side. -/
  | absorbed (known : Message) (hc : m.connectionUri = c.uri) (hnew : c.message? m.uri = none)
      (hfind : c.messageList.find? (·.sameEvent m) = some known)
      (hknown : c.message? known.uri = some known) (hsame : known.sameEvent m = true) :
      Intake c m (c.put (absorb known m), false)
  /-- The event is unknown. -/
  | added (hc : m.connectionUri = c.uri) (hnew : c.message? m.uri = none)
      (hfind : c.messageList.find? (·.sameEvent m) = none)
      (hnone : ∀ {k n}, c.message? k = some n → n.sameEvent m = false) :
      Intake c m (c.put m, true)

/-- **The outcomes are complete.** -/
theorem intake_upsert {c : Conversation} (h : c.Keyed) (m : Message) :
    Intake c m (c.upsert m) := by
  unfold upsert
  split
  · rename_i hc
    exact .foreign hc
  · rename_i hc
    have hc : m.connectionUri = c.uri := Decidable.not_not.mp hc
    split
    · rename_i hcont
      obtain ⟨old, hold⟩ := OrderedMap.contains_iff.mp hcont
      rw [OrderedMap.modify_eq_insert _ hold]
      exact .refreshed old hc hold
    · rename_i hcont
      have hnew : c.message? m.uri = none := by
        simpa [OrderedMap.contains, message?] using hcont
      split
      · rename_i known hfind
        have hknown := h.message?_uri (List.mem_of_find?_eq_some hfind)
        -- the message that was found lies under its own URI, where the merged one is put
        rw [OrderedMap.modify_eq_insert _ hknown]
        have hsame : known.sameEvent m = true := by simpa using List.find?_some hfind
        exact .absorbed known hc hnew hfind hknown hsame
      · rename_i hfind
        refine .added hc hnew hfind fun {k n} hn ↦ ?_
        have hmem : n ∈ c.messageList := mem_messageList.mpr ⟨k, hn⟩
        simpa using List.find?_eq_none.mp hfind n hmem

/-- **Taking in a record keeps a conversation keyed**: in each of the outcomes what is put lies
under its own URI. -/
theorem Keyed.upsert {c : Conversation} (h : c.Keyed) (m : Message) : (c.upsert m).1.Keyed := by
  have hi := intake_upsert h m
  generalize c.upsert m = r at hi ⊢
  cases hi with
  | foreign => exact h
  | refreshed old hc hold => exact h.put hc
  | absorbed known hc hnew hfind hknown hsame =>
    have hk : known.connectionUri = c.uri := h.connectionUri_eq hknown
    exact h.put hk
  | added hc => exact h.put hc

/-- **Markers and records.** A property of marked messages that depends only on URIs and status is
kept by taking in a record, provided that it holds of the record if that is marked: a merge that
keeps the marker changes neither. -/
theorem Keyed.forall_marked_upsert {c : Conversation} (h : c.Keyed) {m : Message}
    {P : Message → Prop}
    (hcongr : ∀ {old n : Message}, n.uri = old.uri → n.remoteUri = old.remoteUri →
      n.status = old.status → P old → P n)
    (hP : ∀ {k n}, c.message? k = some n → n.upToDate = true → P n)
    (hm : m.upToDate = true → P m) {k : String} {n : Message}
    (hn : (c.upsert m).1.message? k = some n) (hmark : n.upToDate = true) : P n := by
  have hput : ∀ p : Message, (p.upToDate = true → P p) → (c.put p).message? k = some n → P n := by
    intro p hp hn
    rcases eq_or_of_message?_put hn with ⟨-, rfl⟩ | ⟨-, hn⟩
    · exact hp hmark
    · exact hP hn hmark
  have hi := intake_upsert h m
  generalize c.upsert m = r at hi hn
  cases hi with
  | foreign => exact hP hn hmark
  | refreshed old hc hold =>
    refine hput _ (fun hmark' ↦ ?_) hn
    obtain ⟨hold', hstatus, hremote⟩ := upToDate_refresh_iff.mp hmark'
    exact hcongr (h.uri_eq hold).symm hremote hstatus (hP hold hold')
  | absorbed known _ _ _ hknown =>
    refine hput _ (fun hmark' ↦ ?_) hn
    obtain ⟨hknown', hstatus, hremote⟩ := upToDate_absorb_iff.mp hmark'
    have huri : (absorb known m).uri = known.uri := rfl
    exact hcongr huri hremote hstatus (hP hknown hknown')
  | added => exact hput m hm hn

end Parley.Conversation
