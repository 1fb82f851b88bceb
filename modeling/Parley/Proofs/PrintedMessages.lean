import Parley.Listing
import Parley.Proofs.LoadedBundle
import Parley.Proofs.MessageText

/-!
# Printed messages

What is printed as JSON for a view of a bundle holds the messages of the view: parsing it and
decoding its items gives them back in their order (`Listing.json_output_read_back`).

Every message of a conversation is legible if the records were that it took in
(`Conversation.legible_run`): merging two records takes each name and date from one of them, and
nothing else touches these. So a conversation from a bundle has nothing but messages that come back
from their text.
-/

namespace Parley

/-! ### Conversations of legible messages -/

/-- Whether a message is legible depends on its URIs and its date. -/
theorem Message.Legible.congr {m n : Message} (h : m.Legible) (huri : n.uri = m.uri)
    (hconnection : n.connectionUri = m.connectionUri) (hdate : n.date = m.date) : n.Legible :=
  ⟨huri ▸ h.uri, hconnection ▸ h.connectionUri, hdate ▸ h.date⟩

namespace Conversation

/-- The conversation is keyed, and all its messages are legible. -/
structure Legible (c : Conversation) : Prop extends Keyed c where
  legible : ∀ {k m}, c.message? k = some m → m.Legible

namespace Legible

variable {c d : Conversation}

/-- What leaves messages alone leaves them legible. -/
theorem of_sameCore (h : c.Legible) (hs : SameCore c d) : d.Legible where
  toKeyed := hs.sameNames.keyed h.toKeyed
  legible hm := by
    rw [hs.message?_eq] at hm
    exact h.legible hm

/-- Changes of single messages that keep names and dates. -/
theorem of_map (h : c.Legible) (hs : SameNames c d) (f : String → Message → Message)
    (hf : ∀ k m, m.Legible → (f k m).Legible)
    (hd : ∀ k, d.message? k = (c.message? k).map (f k)) : d.Legible where
  toKeyed := hs.keyed h.toKeyed
  legible {k n} hn := by
    rw [hd] at hn
    obtain ⟨m, hm, rfl⟩ := Option.map_eq_some_iff.mp hn
    exact hf k m (h.legible hm)

theorem put (h : c.Legible) {m : Message} (hc : m.connectionUri = c.uri) (hm : m.Legible) :
    (c.put m).Legible where
  toKeyed := h.toKeyed.put hc
  legible hn := by
    rcases eq_or_of_message?_put hn with ⟨-, rfl⟩ | ⟨-, hn⟩
    · exact hm
    · exact h.legible hn

/-- Taking in a legible record keeps a conversation legible: a merged message has the URI, the
connection and the date of one of the two. -/
theorem upsert (h : c.Legible) {m : Message} (hm : m.Legible) : (c.upsert m).1.Legible := by
  have hi := intake_upsert h.toKeyed m
  generalize c.upsert m = r at hi ⊢
  cases hi with
  | foreign => exact h
  | refreshed old hc hold =>
    -- the new record gives names and date
    have hnew : (refresh old m).Legible := hm.congr rfl rfl rfl
    exact h.put hc hnew
  | absorbed known hc hnew hfind hknown =>
    -- the old record does
    have hold : (absorb known m).Legible := (h.legible hknown).congr rfl rfl rfl
    have hk : known.connectionUri = c.uri := h.connectionUri_eq hknown
    exact h.put hk hold
  | added hc => exact h.put hc hm

/-- A patch changes none of what makes a message legible. -/
theorem applyPatch (h : c.Legible) (p : Patch) : (c.applyPatch p).1.Legible := by
  refine h.of_map (sameNames_applyPatch c p) _ (fun k m hm ↦ ?_) (message?_applyPatch c p)
  split
  · exact hm.congr rfl rfl rfl
  · exact hm

theorem reconcile (h : c.Legible) : c.reconcile.1.Legible := by
  rcases hs : c.agreement.data with - | s
  · rw [reconcile_of_none hs]
    exact h
  · refine h.of_map (sameNames_reconcile c) (fun _ ↦ _) (fun _ m hm ↦ ?_)
      (message?_reconcile h.toKeyed hs)
    split
    · exact hm.congr rfl rfl rfl
    · exact hm

theorem markAllRead (h : c.Legible) : c.markAllRead.1.Legible :=
  h.of_map (sameNames_markAllRead c) (fun _ m ↦ { m with unread := false })
    (fun _ _ hm ↦ hm.congr rfl rfl rfl) (message?_markAllRead c)

/-- A snapshot may take markers away, which have no part in whether a message is legible. -/
theorem applySnapshot (h : c.Legible) (s : Snapshot) : (c.applySnapshot s).Legible := by
  rcases hprior : c.agreement.data with - | prior
  · rw [applySnapshot_of_none hprior]
    exact ⟨⟨h.uri_eq, h.connectionUri_eq⟩, h.legible⟩
  · refine h.of_map (sameNames_applySnapshot c s) (fun _ ↦ _) (fun _ m hm ↦ ?_)
      (message?_applySnapshot hprior s)
    unfold invalidate
    split
    · exact hm.congr rfl rfl rfl
    · exact hm

/-- **One action.** -/
theorem perform (h : c.Legible) {a : Action} (ha : ∀ m ∈ a.records, m.Legible) :
    (c.perform a).1.Legible :=
  perform_preserves (P := Legible) (fun hs hc ↦ hc.of_sameCore hs)
    (fun m hm hc ↦ hc.upsert (ha m hm)) (fun p _ hc ↦ hc.applyPatch p) (fun hc ↦ hc.reconcile)
    (fun hc ↦ hc.markAllRead) (fun s hc ↦ hc.applySnapshot s) h

end Legible

theorem legible_new (uri : String) (s : Connection) : (new uri s).Legible :=
  ⟨keyed_new uri s, fun hm ↦ nomatch hm⟩

/-- **Every run.** If the records that are delivered are legible, so are the messages. -/
theorem legible_run {uri : String} {s : Connection} {actions : List Action}
    (h : ∀ a ∈ actions, ∀ m ∈ a.records, m.Legible) : ((new uri s).run actions).Legible :=
  run_preserves (fun a ha hc ↦ hc.perform (h a ha)) (legible_new uri s)

end Conversation

namespace Bundle

open Conversation

/-- Only the first batch of a bundle delivers records. -/
theorem mem_sortOut_of_mem_records {b : Bundle} {a : Action} (ha : a ∈ b.intake ++ b.sequel)
    {m : Message} (hm : m ∈ a.records) : m ∈ (sortOut b.messages).1 := by
  rcases List.mem_append.mp ha with ha | ha
  · simp only [intake, List.mem_cons, List.not_mem_nil, or_false] at ha
    rcases ha with rfl | rfl | rfl
    · cases hm
    · cases hm
    · exact hm
  · rcases List.mem_append.mp ha with ha | ha
    · obtain ⟨r, -, rfl⟩ := Option.map_eq_some_iff.mp (Option.mem_toList.mp ha)
      cases hm
    · split at ha
      · cases ha
      · cases List.mem_singleton.mp ha
        cases hm

/-- **An unpacked conversation is legible**: its messages were decoded, and decoding refuses blank
URIs and dates that cannot be read. -/
theorem legible_unpack (b : Bundle) : b.unpack.conversation.Legible := by
  rw [unpack_eq_run, ← run_append]
  refine legible_run fun a ha m hm ↦ ?_
  obtain ⟨j, -, hj⟩ := exists_ofJson_of_mem_sortOut (mem_sortOut_of_mem_records ha hm)
  exact Message.legible_of_ofJson hj

end Bundle

/-! ### Views -/

namespace Listing

open Json

/-- Every view is a choice of stored messages. -/
theorem mem_messageList_of_mem_select {c : Conversation} {v : View} {m : Message}
    (h : m ∈ select c v) : m ∈ c.messageList := by
  cases v with
  | chat => exact Chat.mem_of_mem_ordered h
  | agreements | proposals | cancellations | unread | unreconciled =>
    exact Chat.mem_of_mem_ordered (List.mem_filter.mp h).1

/-- What a view of a legible conversation shows is legible. -/
theorem legible_select {c : Conversation} (hc : c.Legible) {v : View} :
    ∀ m ∈ select c v, m.Legible := by
  intro m hm
  obtain ⟨k, hk⟩ := Conversation.mem_messageList.mp (mem_messageList_of_mem_select hm)
  exact hc.legible hk

/-! ### The text of a view -/

theorem unlines_singleton (line : String) : unlines [line] = line ++ "\n" := by
  rw [unlines, List.map_singleton, String.join_cons, String.join_nil, String.append_empty]

/-- The text of some legible messages holds what is decoded as them. -/
theorem ofText_indented_json {l : List Message} (hl : ∀ m ∈ l, m.Legible) :
    ofText (unlines [(json l).indented]) = .ok (.array (l.map fun m ↦ m.toJson.arranged)) := by
  have hfits : Fits Reader.depthLimit (json l) :=
    .array (List.forall_mem_map.mpr fun m hm ↦ Message.fits_toJson (hl m hm) 124)
  have hint : (json l).Integral :=
    .array (List.forall_mem_map.mpr fun m hm ↦ Message.integral_toJson (hl m hm))
  have htext : unlines [(json l).indented] =
      String.ofList (write .indented 0 (json l) ++ ['\n']) := by
    rw [unlines_singleton, indented, String.ofList_append]
  have hgap : ∀ b ∈ utf8 ['\n'], Reader.isBlank b = true := List.forall_mem_singleton.mpr rfl
  rw [htext, ofText_write Layout.isBlank_indented hfits hint hgap, json, arranged_array,
    List.map_map]
  rfl

/-- A list of legible messages is decoded from what it is written as, item by item. -/
theorem mapM_ofJson_arranged {l : List Message} (hl : ∀ m ∈ l, m.Legible) :
    (l.map fun m ↦ m.toJson.arranged).mapM Message.ofJson = .ok l := by
  induction l with
  | nil => rfl
  | cons m l ih =>
    obtain ⟨hm, hl⟩ := List.forall_mem_cons.mp hl
    rw [List.map_cons, List.mapM_cons, (Message.ofJson_of_legible hm).2, ih hl]
    rfl

/-- **Nothing is lost in JSON.** Messages survive being written and read, whatever their records
looked like. So the text that is printed as JSON for a view of a bundle can be parsed, and its items
are decoded as the messages of the view after reconciling, in their order. -/
theorem json_output_read_back :
    (∀ (j : Json) (m : Message), Message.ofJson j = .ok m →
      Message.ofJson m.toJson = .ok m ∧ Message.ofJson m.toJson.arranged = .ok m ∧
        ofText m.toJson.compact = .ok m.toJson.arranged ∧
        ofText m.toJson.indented = .ok m.toJson.arranged) ∧
    ∀ (coloured : Bool) (o : Options) (path : String) (content : List UInt8) (b : Bundle),
      o.json = true → o.bundle = some path → Bundle.load content = .ok b →
      ∀ (μ : Type → Type) [Monad μ] [LawfulMonad μ]
        (read : String → μ (Except Fault (List UInt8))), read path = pure (.ok content) →
        ∃ text items, output coloured o read = pure (.ok text) ∧
          ofText text = .ok (.array items) ∧
          items.mapM Message.ofJson = .ok (select b.unpack.conversation.reconcile.1 o.view) := by
  refine ⟨fun j m h ↦ Message.ofJson_toJson h, ?_⟩
  intro coloured o path content b hjson hbundle hload μ _ _ read hread
  have hl := legible_select (v := o.view) b.legible_unpack.reconcile
  refine ⟨_, _, ?_, ofText_indented_json hl, mapM_ofJson_arranged hl⟩
  have hof : bundleOf (.ok content) = .ok b := by
    show (Bundle.load content).mapError Bundle.Rejection.fault = .ok b
    rw [hload]
    rfl
  rw [output, hbundle]
  dsimp only
  rw [hread, pure_bind, hof]
  dsimp only
  rw [ofBundle, if_pos hjson]

/-- The record of a message as it is never written: an array, whose date has an offset and lies in a
leap second, and whose kind is an object. -/
def sampleRecord : Json :=
  .array [.string "m", .null, .string "c", .string "2017-01-01 01:59:60.5+02:00", .null,
    .object [("open", .null)]]

/-- The message that it records. -/
def sampleMessage : Message where
  uri := "m"
  connectionUri := "c"
  date := some ⟨⟨2016, 12, 31, by decide⟩, 86399, 1500000000, by decide, by decide⟩
  kind := .opening

/-- A bundle with that record. -/
def sampleBundle : Bundle := { Bundle.new "c" "n" .connected with messages := [sampleRecord] }

set_option maxRecDepth 4000 in
/-- The bundle loads with its odd record as it came. -/
theorem load_sampleBundle :
    Bundle.load sampleBundle.toJson.compact.toUTF8.toList = .ok sampleBundle := by
  rw [compact, toList_toUTF8, String.toList_ofList]
  rfl

/-- The record decodes: the offset is taken off, and the leap second stays. -/
theorem ofJson_sampleRecord : Message.ofJson sampleRecord = .ok sampleMessage := by decide +kernel

/-- The view shows its one message. -/
theorem select_sampleBundle :
    select sampleBundle.unpack.conversation.reconcile.1 .chat = [sampleMessage] := by
  have hkept : Chat.kept sampleBundle.unpack.conversation.reconcile.1.messageList =
      [sampleMessage] := by decide +kernel
  rw [select, Conversation.chat, Chat.ordered, hkept, List.mergeSort_singleton]

/-- The record is printed in another form than it was read from, and the printed form decodes as the
same message. -/
theorem json_output_read_back_sampleBundle :
    Message.ofJson sampleRecord = .ok sampleMessage ∧
      Message.ofJson sampleMessage.toJson = .ok sampleMessage ∧
      ∃ text items, output (m := Id) false { json := true, bundle := some "b" }
          (fun _ ↦ .ok sampleBundle.toJson.compact.toUTF8.toList) = .ok text ∧
        ofText text = .ok (.array items) ∧ items.mapM Message.ofJson = .ok [sampleMessage] := by
  have hprinted := json_output_read_back.2 false { json := true, bundle := some "b" } "b" _ _ rfl
    rfl load_sampleBundle Id (fun _ ↦ .ok sampleBundle.toJson.compact.toUTF8.toList) rfl
  rw [select_sampleBundle] at hprinted
  exact ⟨ofJson_sampleRecord, (json_output_read_back.1 _ _ ofJson_sampleRecord).1, hprinted⟩

end Listing

end Parley
