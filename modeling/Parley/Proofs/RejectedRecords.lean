import Mathlib.Data.List.Basic
import Parley.Proofs.LoadedBundle

/-!
# Records that a bundle cannot use

A bundle may hold records that are no messages, and messages of other connections. The first are
counted and otherwise have no part in the conversation; the second are not even counted
(`Bundle.unpack_records`). So the conversation is a function of the messages of its own connection,
in the order of the file.

**Where flags come from.** A record that is taken in is merged into one message, and that message
then lies under a URI that the conversation and the record determine (`Conversation.taker?`). The
flags stored under a URI are exactly those of the records that were taken in under it
(`Conversation.Keyed.hasFlag_upsertAll_iff`): one lemma for one record, then induction on the batch.
-/

namespace Parley

namespace Conversation

variable {c : Conversation} {m : Message} {k : String} {f : Flag}

/-! ### Which message takes in a record -/

/-- The URI of the message that takes in a record, if the record belongs to the connection. -/
def taker? (c : Conversation) (m : Message) : Option String :=
  if m.connectionUri ≠ c.uri then none
  else
    match c.message? m.uri, c.messageList.find? (·.sameEvent m) with
    | none, some known => some known.uri
    | _, _ => some m.uri

/-- The records of a batch that are taken in under a URI. -/
def takenUnder (k : String) : Conversation → List Message → List Message
  | _, [] => []
  | c, m :: l =>
    if c.taker? m = some k then m :: takenUnder k (c.upsert m).1 l
    else takenUnder k (c.upsert m).1 l

/-- The message under a URI has a flag. -/
def HasFlag (c : Conversation) (k : String) (f : Flag) : Prop :=
  ∃ n, c.message? k = some n ∧ n.status.get f = true

/-- A record of the connection goes under its own URI, unless that is new and its event is known. -/
theorem taker?_of_eq (hc : m.connectionUri = c.uri) :
    c.taker? m =
      match c.message? m.uri, c.messageList.find? (·.sameEvent m) with
      | none, some known => some known.uri
      | _, _ => some m.uri := if_neg (not_not_intro hc)

theorem hasFlag_of_stored {n : Message} (hn : c.message? k = some n) :
    c.HasFlag k f ↔ n.status.get f = true :=
  ⟨fun ⟨_, hp, hflag⟩ ↦ Option.some.inj (hn.symm.trans hp) ▸ hflag, fun hflag ↦ ⟨n, hn, hflag⟩⟩

theorem not_hasFlag_of_none (hk : c.message? k = none) : ¬c.HasFlag k f :=
  fun ⟨_, hn, _⟩ ↦ nomatch hk.symm.trans hn

/-- Putting a message that adds the flags of a record to those stored under its URI. -/
theorem hasFlag_put_iff {n : Message}
    (hflags : n.status.get f = true ↔ c.HasFlag n.uri f ∨ m.status.get f = true) :
    (c.put n).HasFlag k f ↔ c.HasFlag k f ∨ (some n.uri = some k ∧ m.status.get f = true) := by
  rw [Option.some_inj]
  by_cases hk : k = n.uri
  · rw [hk, hasFlag_of_stored (c.message?_put_self n), hflags, and_iff_right rfl]
  · rw [HasFlag, message?_put, if_neg hk]
    exact (or_iff_left fun h ↦ hk h.1.symm).symm

/-- **One record.** The flags that are stored are those from before and those of the record, which
go to the message that takes it in. -/
theorem Keyed.hasFlag_upsert_iff (h : c.Keyed) (m : Message) :
    (c.upsert m).1.HasFlag k f ↔
      c.HasFlag k f ∨ (c.taker? m = some k ∧ m.status.get f = true) := by
  have hi := intake_upsert h m
  generalize c.upsert m = r at hi ⊢
  cases hi with
  | foreign hc =>
    rw [taker?, if_pos hc]
    exact (or_iff_left fun h ↦ nomatch h.1).symm
  | refreshed old hc hold =>
    have hflags : (refresh old m).status.get f = true ↔
        c.HasFlag m.uri f ∨ m.status.get f = true := by
      rw [hasFlag_of_stored hold, refresh, Status.get_merge, Bool.or_eq_true]
    rw [taker?_of_eq hc, hold]
    exact hasFlag_put_iff hflags
  | absorbed known hc hnew hfind hknown hsame =>
    have hflags : (absorb known m).status.get f = true ↔
        c.HasFlag known.uri f ∨ m.status.get f = true := by
      rw [hasFlag_of_stored hknown, absorb, Status.get_merge, Bool.or_eq_true]
    rw [taker?_of_eq hc, hnew, hfind]
    exact hasFlag_put_iff hflags
  | added hc hnew hfind hnone =>
    have hflags : m.status.get f = true ↔ c.HasFlag m.uri f ∨ m.status.get f = true :=
      (or_iff_right (not_hasFlag_of_none hnew)).symm
    rw [taker?_of_eq hc, hnew, hfind]
    exact hasFlag_put_iff hflags

/-- **A batch.** The flags that are stored under a URI are those from before and those of the
records that were taken in under it. -/
theorem Keyed.hasFlag_upsertAll_iff {l : List Message} :
    ∀ {c : Conversation}, c.Keyed → ((c.upsertAll l).1.HasFlag k f ↔
      c.HasFlag k f ∨ ∃ n ∈ takenUnder k c l, n.status.get f = true) := by
  induction l with
  | nil => exact fun _ ↦ (or_iff_left fun ⟨_, hn, _⟩ ↦ nomatch hn).symm
  | cons m l ih =>
    intro c h
    rw [fst_upsertAll_cons, ih (h.upsert m), h.hasFlag_upsert_iff, takenUnder, or_assoc]
    refine or_congr_right ?_
    by_cases htaker : c.taker? m = some k
    · rw [if_pos htaker, List.exists_mem_cons_iff, and_iff_right htaker]
    · rw [if_neg htaker]
      exact or_iff_right fun h ↦ htaker h.1

/-- The records that go under one URI are some of the batch, in its order. -/
theorem takenUnder_sublist {l : List Message} :
    ∀ {c : Conversation}, (takenUnder k c l).Sublist l := by
  induction l with
  | nil => exact .slnil
  | cons m l ih =>
    intro c
    rw [takenUnder]
    split
    · exact ih.cons_cons m
    · exact ih.cons m

theorem connectionUri_of_mem_takenUnder {l : List Message} {n : Message} :
    ∀ {c : Conversation}, n ∈ takenUnder k c l → n.connectionUri = c.uri := by
  induction l with
  | nil => exact nofun
  | cons m l ih =>
    intro c hn
    have huri : (c.upsert m).1.uri = c.uri := c.uri_upsertAll [m]
    rw [takenUnder] at hn
    split at hn
    · rename_i htaker
      rcases List.mem_cons.mp hn with rfl | hn
      · by_cases hc : n.connectionUri = c.uri
        · exact hc
        · rw [taker?, if_pos hc] at htaker
          exact nomatch htaker
      · exact (ih hn).trans huri
    · exact (ih hn).trans huri

/-- Records of another connection contribute nothing. -/
theorem fst_upsertAll_filter (l : List Message) :
    ∀ c : Conversation,
      (c.upsertAll (l.filter (·.connectionUri = c.uri))).1 = (c.upsertAll l).1 := by
  induction l with
  | nil => exact fun _ ↦ rfl
  | cons m l ih =>
    intro c
    rw [fst_upsertAll_cons]
    by_cases hc : m.connectionUri = c.uri
    · have huri : (c.upsert m).1.uri = c.uri := c.uri_upsertAll [m]
      rw [List.filter_cons_of_pos (by simpa using hc), fst_upsertAll_cons, ← ih, huri]
    · have hsame : (c.upsert m).1 = c := by rw [upsert, if_pos hc]
      rw [List.filter_cons_of_neg (by simpa using hc), hsame, ih]

/-- What becomes of the messages depends on nothing but the connection and the messages. -/
theorem messages_upsert_congr {d : Conversation} (huri : d.uri = c.uri)
    (hmessages : d.messages = c.messages) (m : Message) :
    (d.upsert m).1.messages = (c.upsert m).1.messages := by
  rw [upsert, upsert, messageList, messageList, huri, hmessages]
  split
  · exact hmessages
  · split
    · rfl
    · split <;> rfl

/-- What messages a batch leaves depends on the URI and the messages it finds, and on nothing
else. -/
theorem messages_upsertAll_congr (l : List Message) :
    ∀ {c d : Conversation}, d.uri = c.uri → d.messages = c.messages →
      (d.upsertAll l).1.messages = (c.upsertAll l).1.messages := by
  induction l with
  | nil => exact fun _ h ↦ h
  | cons m l ih =>
    intro c d huri hmessages
    have hkept : ∀ e : Conversation, (e.upsert m).1.uri = e.uri := fun e ↦ e.uri_upsertAll [m]
    rw [fst_upsertAll_cons, fst_upsertAll_cons]
    exact ih ((hkept d).trans (huri.trans (hkept c).symm)) (messages_upsert_congr huri hmessages m)

end Conversation

namespace Bundle

open Conversation

/-! ### Accepted and rejected records -/

/-- The record is a message. -/
def isMessage (j : Json) : Bool := (Message.ofJson j).isOk

/-- The record is a message of another connection. -/
def isForeign (uri : String) (j : Json) : Bool :=
  (Message.ofJson j).toOption.any (·.connectionUri ≠ uri)

/-- The messages among records, in their order. -/
def accepted (js : List Json) : List Message := js.filterMap fun j ↦ (Message.ofJson j).toOption

/-- What is counted are the records that are no messages. -/
theorem snd_sortOut (l : List Json) : (sortOut l).2 = l.countP (!isMessage ·) := by
  induction l with
  | nil => rfl
  | cons j rest ih =>
    rw [List.countP_cons, ← ih, sortOut, isMessage]
    cases Message.ofJson j <;> rfl

/-- Records that are no messages have no part in what is accepted. -/
theorem accepted_filter_isMessage (js : List Json) :
    accepted (js.filter isMessage) = accepted js := by
  rw [accepted, List.filterMap_filter]
  refine List.filterMap_congr fun j _ ↦ ?_
  rw [isMessage]
  cases Message.ofJson j <;> rfl

/-- Records of other connections are messages, so leaving them out drops none. -/
theorem countP_filter_isForeign (uri : String) (js : List Json) :
    (js.filter (!isForeign uri ·)).countP (!isMessage ·) = js.countP (!isMessage ·) := by
  rw [List.countP_filter]
  refine List.countP_congr fun j _ ↦ ?_
  rw [isMessage, isForeign]
  cases Message.ofJson j <;> simp [Except.isOk, Except.toBool, Except.toOption]

/-- Leaving out the messages of other connections leaves the others, in their order. -/
theorem filter_accepted (uri : String) (js : List Json) :
    accepted (js.filter (!isForeign uri ·)) = (accepted js).filter (·.connectionUri = uri) := by
  rw [accepted, accepted, List.filterMap_filter, List.filter_filterMap]
  refine List.filterMap_congr fun j _ ↦ ?_
  rw [isForeign]
  cases Message.ofJson j with
  | error e => rfl
  | ok m => by_cases h : m.connectionUri = uri <;> simp [Except.toOption, Option.filter, h]

/-- The conversation into which the records of a bundle are taken. -/
def empty (b : Bundle) : Conversation :=
  { Conversation.new b.connectionUri b.connection with
    remoteNeed := b.remoteNeed, loading := .loading }

/-- What becomes of the messages of a bundle is one batch; the rest of the bundle sets other parts
of the conversation. -/
theorem conversation_unpack (b : Bundle) :
    b.unpack.conversation =
      { (b.empty.upsertAll (accepted b.messages)).1 with loading := .loaded }.run b.sequel := by
  rw [unpack_eq_run, accepted, ← fst_sortOut]
  rfl

/-- The conversation depends on nothing but the messages of its own connection. -/
theorem conversation_unpack_congr {b : Bundle} {js : List Json}
    (h : (accepted js).filter (·.connectionUri = b.connectionUri) =
      (accepted b.messages).filter (·.connectionUri = b.connectionUri)) :
    { b with messages := js }.unpack.conversation = b.unpack.conversation := by
  have hall := congrArg (fun l ↦ (b.empty.upsertAll l).1) h
  have hleft := fst_upsertAll_filter (accepted js) b.empty
  have hright := fst_upsertAll_filter (accepted b.messages) b.empty
  have hsame : (b.empty.upsertAll (accepted js)).1 = (b.empty.upsertAll (accepted b.messages)).1 :=
    hleft.symm.trans (hall.trans hright)
  rw [conversation_unpack, conversation_unpack]
  exact congrArg (fun c : Conversation ↦ { c with loading := .loaded }.run b.sequel) hsame

theorem Unpacked.ext {x y : Unpacked} (hconversation : x.conversation = y.conversation)
    (hdropped : x.dropped = y.dropped) : x = y := by
  rcases x, y with ⟨⟨⟩, ⟨⟩⟩
  rw [mk.injEq]
  exact ⟨hconversation, hdropped⟩

/-- After unpacking no fetch is in flight. -/
theorem progress_unpack (b : Bundle) :
    b.unpack.conversation.loading = .loaded ∧
      b.unpack.conversation.agreement.progress =
        (if b.agreement.isSome then .loaded else .notLoaded) ∧
      b.unpack.conversation.petriNet.progress =
        if b.processes.isEmpty then .notLoaded else .loaded := by
  obtain ⟨ms, hms⟩ := exists_upsertAll_eq (accepted b.messages) b.empty
  rw [conversation_unpack, hms, sequel]
  cases b.agreement <;> cases b.processes.isEmpty <;> exact ⟨rfl, rfl, rfl⟩

/-- **The records of a bundle.** Those that are no messages are counted, and no others; they can be
left out or added anywhere. The messages of the conversation are what comes of taking in the records
that are messages, in the order of the file, into a new conversation; messages of other connections
can be left out or added, and are not counted. The flags stored under a URI are those of the
messages of the connection that were taken in under it. No fetch is left in flight. -/
theorem unpack_records (b : Bundle) :
    b.unpack.dropped = b.messages.countP (!isMessage ·) ∧
      (∀ js : List Json, js.filter isMessage = b.messages.filter isMessage →
        { b with messages := js }.unpack.conversation = b.unpack.conversation) ∧
      b.unpack.conversation.messages =
        ((Conversation.new b.connectionUri b.connection).upsertAll
          (accepted b.messages)).1.messages ∧
      (∀ js : List Json, js.filter (!isForeign b.connectionUri ·) =
          b.messages.filter (!isForeign b.connectionUri ·) →
        { b with messages := js }.unpack = b.unpack) ∧
      (∀ k m f, b.unpack.conversation.message? k = some m → (m.status.get f = true ↔
        ∃ n ∈ accepted b.messages, n.connectionUri = b.connectionUri ∧ n.status.get f = true ∧
          n ∈ takenUnder k (Conversation.new b.connectionUri b.connection)
            (accepted b.messages))) ∧
      b.unpack.conversation.loading = .loaded ∧
      b.unpack.conversation.agreement.progress =
        (if b.agreement.isSome then .loaded else .notLoaded) ∧
      b.unpack.conversation.petriNet.progress =
        if b.processes.isEmpty then .notLoaded else .loaded := by
  have hcount : ∀ b : Bundle, b.unpack.dropped = b.messages.countP (!isMessage ·) :=
    fun b ↦ snd_sortOut b.messages
  have hmessages : b.unpack.conversation.messages =
      ((Conversation.new b.connectionUri b.connection).upsertAll
        (accepted b.messages)).1.messages := by
    rw [messages_unpack, accepted, ← fst_sortOut]
    exact messages_upsertAll_congr (c := Conversation.new b.connectionUri b.connection) _ rfl rfl
  refine ⟨hcount b, fun js hjs ↦ ?_, hmessages, fun js hjs ↦ ?_, fun k m f hm ↦ ?_,
    b.progress_unpack⟩
  · refine conversation_unpack_congr ?_
    rw [← accepted_filter_isMessage js, hjs, accepted_filter_isMessage]
  · have hconversation : { b with messages := js }.unpack.conversation = b.unpack.conversation := by
      refine conversation_unpack_congr ?_
      rw [← filter_accepted, hjs, filter_accepted]
    have hdropped : { b with messages := js }.unpack.dropped = b.unpack.dropped := by
      rw [hcount, hcount, ← countP_filter_isForeign b.connectionUri b.messages, ← hjs,
        countP_filter_isForeign]
    exact Unpacked.ext hconversation hdropped
  · have hfresh := keyed_new b.connectionUri b.connection
    have hflag := hfresh.hasFlag_upsertAll_iff (k := k) (f := f) (l := accepted b.messages)
    rw [or_iff_right (not_hasFlag_of_none rfl)] at hflag
    rw [message?, hmessages] at hm
    rw [← hasFlag_of_stored hm, hflag]
    constructor
    · rintro ⟨n, hn, hnflag⟩
      exact ⟨n, takenUnder_sublist.subset hn, connectionUri_of_mem_takenUnder hn, hnflag, hn⟩
    · rintro ⟨n, -, -, hnflag, hn⟩
      exact ⟨n, hn, hnflag⟩

/-- A bundle with a message, a record that is none, and a message of another connection. -/
def mixedBundle : Bundle :=
  { new "c" "n" .connected with
    messages := [.object [("connectionUri", .string "c"), ("uri", .string "m1")], .null,
      .object [("connectionUri", .string "d"), ("uri", .string "m2")]] }

/-- Of the three records one is dropped, and only one of the other two is stored. -/
theorem unpack_records_mixedBundle :
    mixedBundle.unpack.dropped = 1 ∧
      { mixedBundle with messages := mixedBundle.messages.filter isMessage }.unpack.conversation =
        mixedBundle.unpack.conversation ∧
      { mixedBundle with messages := mixedBundle.messages.take 2 }.unpack = mixedBundle.unpack := by
  obtain ⟨hcount, hrejected, -, hforeign, -⟩ := unpack_records mixedBundle
  refine ⟨hcount, hrejected _ ?_, hforeign _ ?_⟩
  · simp only [List.filter_filter, Bool.and_self]
  · rfl

end Bundle

end Parley
