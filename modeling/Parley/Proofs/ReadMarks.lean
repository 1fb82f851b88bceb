import Parley.Proofs.Isolation
import Parley.Proofs.LateDuplicates

/-!
# Read messages and records that come again

Whether a message was read is known on the owner's side only, and it is kept in a field that records
carry too. A record that is merged under the URI of the other side leaves this field alone; a record
that replaces the one under its own URI brings its own. So a message that was read stays read only
as long as no unread record of it is delivered once more.

**The last record decides.** `MarksFollow` says where the field of a stored message comes from: from
the last record under its URI, and if there was none, from what it was before. This holds of one
record in each outcome, and composes. For messages that were all marked as read it gives the exact
condition, `unread_redelivered_iff`.
-/

namespace Parley

/-- The message is part of the chat and was not read yet. -/
def Message.awaitsReading (m : Message) : Bool := m.isVisible && m.unread

/-- The last record of the list that belongs to the connection `uri` and has the URI `k`. -/
def lastRecord (uri : String) (l : List Message) (k : String) : Option Message :=
  (l.filter fun m ↦ m.connectionUri = uri ∧ m.uri = k).getLast?

/-- The last record of two lists is that of the second, or else that of the first. -/
theorem lastRecord_append (uri : String) (l l' : List Message) (k : String) :
    lastRecord uri (l ++ l') k = (lastRecord uri l' k).or (lastRecord uri l k) := by
  rw [lastRecord, List.filter_append, List.getLast?_append]
  rfl

theorem lastRecord_self {uri : String} {m : Message} (h : m.connectionUri = uri) :
    lastRecord uri [m] m.uri = some m := by
  simp [lastRecord, h]

theorem lastRecord_of_ne (uri : String) {m : Message} {k : String} (h : k ≠ m.uri) :
    lastRecord uri [m] k = none := by
  simp [lastRecord, h.symm]

theorem lastRecord_of_foreign {uri : String} {m : Message} (h : m.connectionUri ≠ uri)
    (k : String) : lastRecord uri [m] k = none := by
  simp [lastRecord, h]

namespace Conversation

variable {c d e : Conversation} {l l' : List Message}

/-- Every message of `d` awaits reading if the last of the records `l` under its URI does; where
there is none, if it did so in `c`. -/
structure MarksFollow (c : Conversation) (l : List Message) (d : Conversation) : Prop where
  uri_eq : d.uri = c.uri
  awaits_eq : ∀ k n, d.message? k = some n →
    ((lastRecord c.uri l k).or (c.message? k)).map Message.awaitsReading = some n.awaitsReading

namespace MarksFollow

/-- What only raises flags leaves read marks as they were. -/
theorem of_onlyRaises (h : OnlyRaises c d) : MarksFollow c [] d where
  uri_eq := h.uri_eq
  awaits_eq k n hn := by
    obtain ⟨m, hm, s, b, rfl⟩ := h.known k n hn
    rw [hm]
    rfl

/-- Two lists of records in a row count as one. -/
theorem trans (h : MarksFollow c l d) (h' : MarksFollow d l' e) : MarksFollow c (l ++ l') e where
  uri_eq := h'.uri_eq.trans h.uri_eq
  awaits_eq k n hn := by
    have hlater := h'.awaits_eq k n hn
    rw [h.uri_eq] at hlater
    rw [lastRecord_append]
    rcases hlast : lastRecord c.uri l' k with - | m
    · -- none of the later records is about the message, so it was there before them
      rw [hlast, Option.none_or] at hlater
      obtain ⟨n₀, hn₀, hmark⟩ := Option.map_eq_some_iff.mp hlater
      rw [Option.none_or, h.awaits_eq k n₀ hn₀, hmark]
    · rw [hlast, Option.some_or] at hlater
      rw [Option.some_or, Option.some_or, hlater]

end MarksFollow

/-! ### Records -/

/-- Putting a message where the record or an earlier message agrees with it. -/
theorem marksFollow_put {m n : Message}
    (hput : ((lastRecord c.uri [m] n.uri).or (c.message? n.uri)).map Message.awaitsReading =
      some n.awaitsReading)
    (hrest : ∀ {k n'}, k ≠ n.uri → c.message? k = some n' → lastRecord c.uri [m] k = none) :
    MarksFollow c [m] (c.put n) where
  uri_eq := rfl
  awaits_eq k n' hn' := by
    rcases eq_or_of_message?_put hn' with ⟨rfl, rfl⟩ | ⟨hne, hn'⟩
    · exact hput
    · rw [hrest hne hn', hn']
      rfl

/-- **One record.** -/
theorem Keyed.marksFollow_upsert (h : c.Keyed) (m : Message) :
    MarksFollow c [m] (c.upsert m).1 := by
  have hi := intake_upsert h m
  generalize c.upsert m = r at hi ⊢
  cases hi with
  | foreign hc =>
    refine ⟨rfl, fun k n hn ↦ ?_⟩
    rw [lastRecord_of_foreign hc, hn]
    rfl
  | refreshed old hc hold =>
    refine marksFollow_put ?_ fun hne _ ↦ lastRecord_of_ne _ hne
    rw [uri_refresh, lastRecord_self hc]
    rfl
  | absorbed known hc hnew hfind hknown =>
    -- nothing lies under the URI of the record, so the known message has another one
    have hne : ∀ {k n}, c.message? k = some n → k ≠ m.uri := by
      rintro k n hn rfl
      exact nomatch hnew.symm.trans hn
    refine marksFollow_put ?_ fun _ hn' ↦ lastRecord_of_ne _ (hne hn')
    rw [uri_absorb, lastRecord_of_ne _ (hne hknown), hknown]
    rfl
  | added hc =>
    refine marksFollow_put ?_ fun hne _ ↦ lastRecord_of_ne _ hne
    rw [lastRecord_self hc]
    rfl

/-- A batch. -/
theorem Keyed.marksFollow_upsertAll (l : List Message) :
    ∀ {c : Conversation}, c.Keyed → MarksFollow c l (c.upsertAll l).1 := by
  induction l with
  | nil => exact fun _ ↦ .of_onlyRaises (.refl _)
  | cons m l ih => exact fun h ↦ (h.marksFollow_upsert m).trans (ih (h.upsert m))

/-! ### Runs -/

/-- **One action.** Any action but reading leaves it to the records whether a message is unread. -/
theorem Keyed.marksFollow_perform (h : c.Keyed) {a : Action} (ha : a ≠ .markAllRead) :
    MarksFollow c a.records (c.perform a).1 := by
  cases a with
  | upsert m => exact h.marksFollow_upsert m
  | upsertAll l => exact h.marksFollow_upsertAll l
  | finishMessages l =>
    have hquiet : SameCore (c.upsertAll l).1 (c.finishMessages l).1 := ⟨rfl, rfl, rfl⟩
    have hfollow := (h.marksFollow_upsertAll l).trans (.of_onlyRaises (.of_sameCore hquiet))
    rwa [List.append_nil] at hfollow
  | markAllRead => exact absurd rfl ha
  | _ => exact .of_onlyRaises (onlyRaises_perform rfl c)

/-- A run. -/
theorem Keyed.marksFollow_run {actions : List Action} (ha : ∀ a ∈ actions, a ≠ .markAllRead) :
    ∀ {c : Conversation}, c.Keyed →
      MarksFollow c (actions.flatMap Action.records) (c.run actions) := by
  induction actions with
  | nil => exact fun _ ↦ .of_onlyRaises (.refl _)
  | cons a actions ih =>
    intro c h
    obtain ⟨hfirst, hrest⟩ := List.forall_mem_cons.mp ha
    exact (h.marksFollow_perform hfirst).trans (ih hrest (h.perform a))

/-! ### After reading -/

theorem not_awaitsReading_markAllRead {k : String} {n : Message}
    (hn : c.markAllRead.1.message? k = some n) : n.awaitsReading = false := by
  rw [message?_markAllRead] at hn
  obtain ⟨m, -, rfl⟩ := Option.map_eq_some_iff.mp hn
  exact Bool.and_false _

/-- In a keyed conversation the unread messages are the stored ones that await reading. -/
theorem Keyed.mem_unread_iff (h : c.Keyed) {k : String} {n : Message} (hn : c.message? k = some n) :
    n ∈ c.unread ↔ n.awaitsReading = true := by
  have hmem : n ∈ c.messageList := mem_messageList.mpr ⟨k, hn⟩
  rw [unread, Chat.unread, List.mem_filter, ← chat, h.perm_chat.mem_iff, List.mem_filter,
    Message.awaitsReading, Bool.and_eq_true]
  simp [hmem]

theorem Keyed.exists_of_mem_unread (h : c.Keyed) {n : Message} (hn : n ∈ c.unread) :
    ∃ k, c.message? k = some n := by
  have hchat : n ∈ c.chat := (List.mem_filter.mp hn).1
  exact mem_messageList.mp (List.mem_filter.mp (h.perm_chat.mem_iff.mp hchat)).1

/-- Nothing is unread just if no stored message awaits reading. -/
theorem Keyed.unread_eq_nil_iff (h : c.Keyed) :
    c.unread = [] ↔ ∀ k n, c.message? k = some n → n.awaitsReading = false := by
  rw [List.eq_nil_iff_forall_not_mem]
  constructor
  · intro hnone k n hn
    exact Bool.eq_false_iff.mpr fun hmark ↦ hnone n ((h.mem_unread_iff hn).mpr hmark)
  · intro hall n hn
    obtain ⟨k, hk⟩ := h.exists_of_mem_unread hn
    have hmark := (h.mem_unread_iff hk).mp hn
    rw [hall k n hk] at hmark
    exact Bool.false_ne_true hmark

/-- **After reading.** A message is unread again just if the last record under its URI since then
is. -/
theorem Keyed.awaitsReading_run_iff (h : c.Keyed) {again : List Action}
    (ha : ∀ a ∈ again, a ≠ .markAllRead) {k : String} {n : Message}
    (hn : (c.markAllRead.1.run again).message? k = some n) :
    n.awaitsReading = true ↔
      ∃ m, lastRecord c.uri (again.flatMap Action.records) k = some m ∧
        m.awaitsReading = true := by
  have hread : c.markAllRead.1.Keyed := h.perform .markAllRead
  have hfollow : ((lastRecord c.uri (again.flatMap Action.records) k).or
      (c.markAllRead.1.message? k)).map Message.awaitsReading = some n.awaitsReading :=
    (hread.marksFollow_run ha).awaits_eq k n hn
  rcases hlast : lastRecord c.uri (again.flatMap Action.records) k with - | m
  · -- no record is about the message, so it was there when all were read
    rw [hlast, Option.none_or] at hfollow
    obtain ⟨n₀, hn₀, hmark⟩ := Option.map_eq_some_iff.mp hfollow
    simp [← hmark, not_awaitsReading_markAllRead hn₀]
  · rw [hlast, Option.some_or, Option.map_some] at hfollow
    simp [← Option.some.inj hfollow]

/-- No message is unread again just if each of these last records was read or is no part of the
chat. -/
theorem Keyed.unread_run_eq_nil_iff (h : c.Keyed) {again : List Action}
    (ha : ∀ a ∈ again, a ≠ .markAllRead) :
    (c.markAllRead.1.run again).unread = [] ↔
      ∀ k n m, (c.markAllRead.1.run again).message? k = some n →
        lastRecord c.uri (again.flatMap Action.records) k = some m → m.awaitsReading = false := by
  have hkeyed : (c.markAllRead.1.run again).Keyed :=
    run_preserves (fun a _ hc ↦ hc.perform a) (h.perform .markAllRead)
  rw [hkeyed.unread_eq_nil_iff]
  constructor
  · intro hnone k n m hn hm
    refine Bool.eq_false_iff.mpr fun hunread ↦ ?_
    have hmark : n.awaitsReading = true := (h.awaitsReading_run_iff ha hn).mpr ⟨m, hm, hunread⟩
    exact Bool.eq_false_iff.mp (hnone k n hn) hmark
  · intro hall k n hn
    refine Bool.eq_false_iff.mpr fun hmark ↦ ?_
    obtain ⟨m, hm, hunread⟩ := (h.awaitsReading_run_iff ha hn).mp hmark
    exact Bool.eq_false_iff.mp (hall k n m hn hm) hunread

theorem Keyed.unread_markAllRead (h : c.Keyed) : c.markAllRead.1.unread = [] :=
  (h.perform .markAllRead).unread_eq_nil_iff.mpr fun _ _ hn ↦ not_awaitsReading_markAllRead hn

end Conversation

/-! ### Counting in a store -/

/-- A sum over the values counts the changed one in the place of the old one. -/
theorem KeyedList.sum_adjust {α : Type} {k : String} {a : α} (f : α → α) (g : α → Nat) :
    ∀ {l : List (String × α)}, find? k l = some a →
      ((adjust k f l).map fun p ↦ g p.2).sum + g a = (l.map fun p ↦ g p.2).sum + g (f a)
  | (k', b) :: rest, h => by
    unfold adjust
    split
    · rename_i hk
      obtain rfl : b = a := by simpa [find?, hk] using h
      simp only [List.map_cons, List.sum_cons]
      omega
    · rename_i hk
      rw [find?, if_neg hk] at h
      have hrest := sum_adjust f g h
      simp only [List.map_cons, List.sum_cons]
      omega

/-- A sum over the values counts the new value in the place of the one that it replaces. -/
theorem OrderedMap.sum_values_insert {α : Type} {m : OrderedMap α} {k : String} {a : α}
    (h : m.get? k = some a) (b : α) (g : α → Nat) :
    ((m.insert k b).values.map g).sum + g a = (m.values.map g).sum + g b := by
  rw [← modify_eq_insert (fun _ ↦ b) h]
  simpa [values, modify, Function.comp_def] using KeyedList.sum_adjust (fun _ ↦ b) g h

namespace Store

/-- Actions on one conversation put what they make of it in its place. -/
theorem fst_run_perform {uri : String} (actions : List Action) :
    ∀ {s : Store} {c : Conversation}, s.get? uri = some c →
      (s.run (actions.map (.perform uri))).1 = s.put uri (c.run actions) := by
  induction actions with
  | nil =>
    intro s c hc
    refine Store.ext fun k ↦ ?_
    by_cases hk : k = uri
    · rw [hk, get?_put_self]
      exact hc
    · rw [s.get?_put_of_ne hk]
      rfl
  | cons a actions ih =>
    intro s c hc
    have hfirst : (s.perform uri a).1 = s.put uri (c.perform a).1 := by
      rw [perform, update_of_some hc]
    rw [List.map_cons, fst_run_cons]
    show ((s.perform uri a).1.run (actions.map (.perform uri))).1 = _
    rw [hfirst, ih (s.get?_put_self uri _)]
    refine Store.ext fun k ↦ ?_
    by_cases hk : k = uri
    · rw [hk, get?_put_self, get?_put_self]
      rfl
    · rw [get?_put_of_ne _ hk, get?_put_of_ne _ hk, get?_put_of_ne _ hk]

/-- The number of unread messages of a store changes by what it changes in one conversation. -/
theorem unreadCount_put {s : Store} {uri : String} {c : Conversation} (hc : s.get? uri = some c)
    (d : Conversation) :
    (s.put uri d).unreadCount + c.unread.length = s.unreadCount + d.unread.length := by
  have hsum : ∀ t : Store,
      t.unreadCount = (t.conversations.values.map fun c ↦ c.unread.length).sum := by
    intro t
    rw [List.sum_eq_foldl, List.foldl_map]
    rfl
  rw [hsum, hsum]
  exact OrderedMap.sum_values_insert hc d fun c ↦ c.unread.length

end Store

namespace Conversation

/-! ### Records that come again -/

/-- **What records that come again do to read messages.** Mark all messages as read in any state
that a run reaches, and let any actions but reading follow. A message is unread afterwards just if
the last of the records that were delivered since under its URI is an unread one; records of its
event under the URI of the other side do not count. So no message is unread just if each of these
last records is read or no part of the chat, and otherwise a store counts one more for each that is
not. -/
theorem unread_redelivered_iff (uri : String) (s : Connection) (actions again : List Action)
    (h : ∀ a ∈ again, a ≠ .markAllRead) {c d : Conversation}
    (hc : (new uri s).run (actions ++ [.markAllRead]) = c) (hd : c.run again = d) :
    (∀ k n, d.message? k = some n →
      (n ∈ d.unread ↔
        ∃ m, lastRecord uri (again.flatMap Action.records) k = some m ∧
          m.awaitsReading = true)) ∧
    (d.unread = [] ↔
      ∀ k n m, d.message? k = some n →
        lastRecord uri (again.flatMap Action.records) k = some m → m.awaitsReading = false) ∧
    ∀ st : Store, st.get? uri = some c →
      (st.run (again.map (.perform uri))).1.unreadCount = st.unreadCount + d.unread.length := by
  have hbefore : ((new uri s).run actions).Keyed := keyed_run uri s actions
  have hread : ((new uri s).run actions).markAllRead.1 = c := (run_concat _ _ _).symm.trans hc
  subst hread hd
  have huri : ((new uri s).run actions).uri = uri := ((keyed_new uri s).grows_run actions).uri_eq
  refine ⟨fun k n hn ↦ ?_, ?_, fun st hst ↦ ?_⟩
  · have hkeyed : (((new uri s).run actions).markAllRead.1.run again).Keyed :=
      run_preserves (fun a _ hc ↦ hc.perform a) (hbefore.perform .markAllRead)
    rw [hkeyed.mem_unread_iff hn, hbefore.awaitsReading_run_iff h hn, huri]
  · rw [hbefore.unread_run_eq_nil_iff h, huri]
  · have hcount := Store.unreadCount_put hst (((new uri s).run actions).markAllRead.1.run again)
    rw [hbefore.unread_markAllRead] at hcount
    rw [Store.fst_run_perform again hst]
    exact hcount

/-- The owner's record of a message that nobody has read. -/
def unreadRecord : Message := { uri := "m1", connectionUri := "c", unread := true }

/-- An unread message whose record comes in once more as read, and one that both sides record. -/
def heard : List Action :=
  [.upsertAll [unreadRecord, { unreadRecord with unread := false },
    { uri := "m2", connectionUri := "c" },
    { uri := "r2", connectionUri := "c", remoteUri := some "m2", unread := true }]]

/-- The records come again, those of `m1` in their order. -/
def heardAgain : List Action :=
  [.finishMessages
      [{ uri := "r2", connectionUri := "c", remoteUri := some "m2", unread := true }, unreadRecord],
    .upsertAll [{ unreadRecord with unread := false }]]

/-- The hypotheses hold of records that come again, the last one for each URI as read; nothing is
unread afterwards. -/
theorem unread_redelivered_iff_heardAgain :
    (∀ a ∈ heardAgain, a ≠ .markAllRead) ∧
      (((new "c" .connected).run (heard ++ [.markAllRead])).run heardAgain).unread = [] ∧
      ((Store.empty.put "c" ((new "c" .connected).run (heard ++ [.markAllRead]))).run
        (heardAgain.map (.perform "c"))).1.unreadCount = 0 := by
  have h : ∀ a ∈ heardAgain, a ≠ .markAllRead := by simp [heardAgain]
  obtain ⟨-, -, hcount⟩ := unread_redelivered_iff "c" .connected heard heardAgain h rfl rfl
  have hnil :
      (((new "c" .connected).run (heard ++ [.markAllRead])).run heardAgain).unread = [] := by
    cbv
  refine ⟨h, hnil, (hcount _ (Store.get?_put_self _ _ _)).trans ?_⟩
  rw [hnil]
  cbv

/-- A message that was read is unread after its record has come once more. -/
theorem not_unread_eq_nil_refetched :
    ((new "c" .connected).run [.upsertAll [unreadRecord], .markAllRead]).unread = [] ∧
      ¬((new "c" .connected).run
        [.upsertAll [unreadRecord], .markAllRead, .upsertAll [unreadRecord]]).unread = [] := by
  decide +kernel

end Conversation

end Parley
