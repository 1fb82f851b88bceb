import Parley.Fault
import Parley.Status
import Parley.Timestamp.Reader

/-!
# Messages

A message is one event of a conversation, as one side recorded it. The event has a URI on the side
of the owner and may have another one on the remote side; `Message.sameEvent` compares records by
either name. `Message.ofJson` reads a fetched record and refuses it if it does not say which event
and which conversation it belongs to.
-/

namespace Parley

/-- What happened in an event. -/
inductive Message.Kind where
  /-- A connection was requested: the first message of a conversation. -/
  | connect
  /-- The request was accepted. -/
  | opening
  | close
  /-- Plain text. -/
  | chat
  | hintFeedback
  /-- An event of another conversation is relayed. -/
  | forward
  | proposal
  | accept
  | reject
  | retract
  | claim
  | proposeToCancel
  /-- Something this library has no name for. -/
  | unknown
  deriving DecidableEq, Repr

/-- The words for the kinds in a record. -/
def Message.Kind.table : List (String × Message.Kind) :=
  [("connect", .connect), ("open", .opening), ("close", .close), ("chat", .chat),
    ("hintFeedback", .hintFeedback), ("forward", .forward), ("proposal", .proposal),
    ("accept", .accept), ("reject", .reject), ("retract", .retract), ("claim", .claim),
    ("proposeToCancel", .proposeToCancel), ("unknown", .unknown)]

/-- The kind for a word; an unknown word is no mistake. -/
def Message.Kind.ofWord (word : String) : Message.Kind :=
  (KeyedList.find? word Message.Kind.table).getD .unknown

/-- The word for a kind in a record. -/
def Message.Kind.word : Message.Kind → String
  | .connect => "connect"
  | .opening => "open"
  | .close => "close"
  | .chat => "chat"
  | .hintFeedback => "hintFeedback"
  | .forward => "forward"
  | .proposal => "proposal"
  | .accept => "accept"
  | .reject => "reject"
  | .retract => "retract"
  | .claim => "claim"
  | .proposeToCancel => "proposeToCancel"
  | .unknown => "unknown"

/-- The name of a kind in a listing. -/
def Message.Kind.label : Message.Kind → String
  | .connect => "Connect"
  | .opening => "Open"
  | .close => "Close"
  | .chat => "Chat"
  | .hintFeedback => "HintFeedback"
  | .forward => "Forward"
  | .proposal => "Proposal"
  | .accept => "Accept"
  | .reject => "Reject"
  | .retract => "Retract"
  | .claim => "Claim"
  | .proposeToCancel => "ProposeToCancel"
  | .unknown => "Unknown"

/-- A kind is found under its word. -/
theorem Message.Kind.ofWord_word (k : Message.Kind) : Message.Kind.ofWord k.word = k := by
  cases k <;> decide

/-- One event of a conversation. -/
structure Message where
  /-- The event's URI on the side of the owner. -/
  uri : String
  /-- The event's URI on the remote side. -/
  remoteUri : Option String := none
  /-- The URI of the conversation. -/
  connectionUri : String
  date : Option Timestamp := none
  text : Option String := none
  kind : Message.Kind := .chat
  /-- The message relays an event of another conversation and is no part of the chat. -/
  forwarded : Bool := false
  unread : Bool := false
  /-- The owner sent the message. -/
  outgoing : Bool := false
  senderNeed : Option String := none
  receiverNeed : Option String := none
  status : Status := .none
  /-- The status takes the current snapshot into account. -/
  upToDate : Bool := false
  deriving DecidableEq, Repr

namespace Message

instance : Inhabited Message := ⟨⟨"", none, "", none, none, .chat, false, false, false, none, none,
  .none, false⟩⟩

/-- The event has this URI on either side. -/
def isKnownAs (m : Message) (uri : String) : Bool := m.uri = uri || m.remoteUri = some uri

/-- The records `m` and `n` describe one event: `m` is known by one of the names of `n`. -/
def sameEvent (m n : Message) : Bool := m.isKnownAs n.uri || n.remoteUri.any m.isKnownAs

/-- The message is part of the chat. -/
def isVisible (m : Message) : Bool := !m.forwarded

/-- The message is the owner's record of an event addressed to the owner's own need. -/
def isOwnEcho (m : Message) (ownedNeed : String) : Bool :=
  m.outgoing && m.receiverNeed = some ownedNeed

/-- A message is known by its URI, and by its alias if it has one. -/
theorem isKnownAs_iff {m : Message} {uri : String} :
    m.isKnownAs uri = true ↔ m.uri = uri ∨ m.remoteUri = some uri := by
  simp [isKnownAs]

theorem isKnownAs_uri (m : Message) : m.isKnownAs m.uri = true := by simp [isKnownAs]

/-- The test goes through the names of the second message: its URI, and its alias if it has one. -/
theorem sameEvent_iff {m n : Message} :
    m.sameEvent n = true ↔
      m.isKnownAs n.uri = true ∨ ∃ r, n.remoteUri = some r ∧ m.isKnownAs r = true := by
  simp only [sameEvent, Bool.or_eq_true, Option.any_eq_true]

/-- Records describe one event just if they have a name in common. -/
theorem sameEvent_iff_exists {m n : Message} :
    m.sameEvent n = true ↔ ∃ u, m.isKnownAs u = true ∧ n.isKnownAs u = true := by
  rw [sameEvent_iff]
  constructor
  · rintro (h | ⟨r, hr, h⟩)
    · exact ⟨n.uri, h, n.isKnownAs_uri⟩
    · exact ⟨r, h, isKnownAs_iff.mpr (Or.inr hr)⟩
  · rintro ⟨u, hm, hn⟩
    rcases isKnownAs_iff.mp hn with rfl | hr
    · exact Or.inl hm
    · exact Or.inr ⟨u, hr, hm⟩

/-- Whether two messages are of one event does not depend on which comes first. -/
theorem sameEvent_comm (m n : Message) : m.sameEvent n = n.sameEvent m := by
  rw [Bool.eq_iff_iff, sameEvent_iff_exists, sameEvent_iff_exists]
  exact exists_congr fun u ↦ and_comm

/-- Messages with the same URI are of one event. -/
theorem uri_ne_of_not_sameEvent {m n : Message} (h : m.sameEvent n = false) : m.uri ≠ n.uri := by
  intro hu
  have hsame : m.sameEvent n = true :=
    sameEvent_iff_exists.mpr ⟨m.uri, m.isKnownAs_uri, hu ▸ n.isKnownAs_uri⟩
  rw [h] at hsame
  exact Bool.false_ne_true hsame

/-! ### JSON -/

/-- How a date is read. -/
def dateDecoder : Decoder Timestamp :=
  Decoder.parsedText "an RFC 3339 formatted date and time string" fun s ↦
    (Timestamp.ofText s).mapError fun e ↦ .refusedText e.message

/-- How a message is written. -/
def record : Record Message where
  title := "Message"
  blank := default
  fields := [
    .of "uri" .required Decoder.text fun m v ↦ { m with uri := v },
    .of "remoteUri" .defaulted (Decoder.nullable Decoder.text) fun m v ↦ { m with remoteUri := v },
    .of "connectionUri" .required Decoder.text fun m v ↦ { m with connectionUri := v },
    .of "date" .defaulted (Decoder.nullable dateDecoder) fun m v ↦ { m with date := v },
    .of "text" .defaulted (Decoder.nullable Decoder.text) fun m v ↦ { m with text := v },
    .of "messageType" .defaulted (Decoder.oneOf fun w ↦ .ok (Kind.ofWord w))
      fun m v ↦ { m with kind := v },
    .of "forwardMessage" .defaulted Decoder.bool fun m v ↦ { m with forwarded := v },
    .of "unread" .defaulted Decoder.bool fun m v ↦ { m with unread := v },
    .of "outgoing" .defaulted Decoder.bool fun m v ↦ { m with outgoing := v },
    .of "senderNeedUri" .defaulted (Decoder.nullable Decoder.text)
      fun m v ↦ { m with senderNeed := v },
    .of "receiverNeedUri" .defaulted (Decoder.nullable Decoder.text)
      fun m v ↦ { m with receiverNeed := v },
    .of "messageStatus" .defaulted Status.decoder fun m v ↦ { m with status := v },
    .of "isMessageStatusUpToDate" .defaulted Decoder.bool fun m v ↦ { m with upToDate := v }]

/-- Why a record is no message. -/
inductive Malformed where
  /-- The record does not have the shape of a message. -/
  | undecodable (problem : Json.Problem)
  /-- The event has no URI. -/
  | withoutUri
  /-- The event `uri` belongs to no conversation. -/
  | withoutConnection (uri : String)
  deriving DecidableEq, Repr

/-- The wording of the reason. -/
def Malformed.message : Malformed → String
  | .undecodable p => p.message
  | .withoutUri => "message without uri"
  | .withoutConnection uri => "message " ++ uri ++ " without connection uri"

/-- The reason as a fault. -/
def Malformed.fault (m : Malformed) : Fault := ⟨.malformedRecord, m.message⟩

/-- Reads a fetched record. URIs of white space alone do not count as such. -/
def ofJson (j : Json) : Except Malformed Message := do
  let m ← (record.ofJson j).mapError .undecodable
  if Text.isBlankText m.uri then throw .withoutUri
  else if Text.isBlankText m.connectionUri then throw (.withoutConnection m.uri)
  else return m

/-- A member for a value that is there, none for one that is not. -/
def optionalMember (name : String) (v : Option String) : List (String × Json) :=
  (v.map fun s ↦ (name, Json.string s)).toList

/-- A message as JSON; absent values are left out. -/
def toJson (m : Message) : Json :=
  .object (
    [("uri", .string m.uri)] ++ optionalMember "remoteUri" m.remoteUri ++
    [("connectionUri", .string m.connectionUri)] ++
    optionalMember "date" (m.date.map Timestamp.toText) ++ optionalMember "text" m.text ++
    [("messageType", .string m.kind.word), ("forwardMessage", .bool m.forwarded),
      ("unread", .bool m.unread), ("outgoing", .bool m.outgoing)] ++
    optionalMember "senderNeedUri" m.senderNeed ++
    optionalMember "receiverNeedUri" m.receiverNeed ++
    [("messageStatus", m.status.toJson), ("isMessageStatusUpToDate", .bool m.upToDate)])

end Message

end Parley
