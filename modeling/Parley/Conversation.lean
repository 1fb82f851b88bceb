import Parley.Fetched
import Parley.PetriNet
import Parley.Reconciliation

/-!
# Conversations

A `Conversation` keeps the messages of one connection, each event once, and what was fetched about
its agreements and processes. It is the only place where messages change: records are taken in by
`upsert`, statuses by `applyPatch`.

**One record per event.** A record whose URI is new may still describe a known event under the URI
of the other side; it is then merged into the record that is there, which learns the other URI.

**The marker `upToDate`.** A message is marked when its status takes the current snapshot into
account. The marker survives a merge that changes neither status nor URIs, and a new snapshot that
introduces neither of the message's URIs into a category.
-/

namespace Parley

/-- The state of the connection behind a conversation. -/
inductive Connection where
  | suggested
  | requestSent
  | requestReceived
  | connected
  | closed
  deriving DecidableEq, Repr

namespace Connection

/-- The words for the states in a record. -/
def table : List (String × Connection) :=
  [("suggested", .suggested), ("requestSent", .requestSent), ("requestReceived", .requestReceived),
    ("connected", .connected), ("closed", .closed)]

/-- The word for a state in a record. -/
def word : Connection → String
  | .suggested => "suggested"
  | .requestSent => "requestSent"
  | .requestReceived => "requestReceived"
  | .connected => "connected"
  | .closed => "closed"

/-- The name of a state in a listing. -/
def label : Connection → String
  | .suggested => "Suggested"
  | .requestSent => "RequestSent"
  | .requestReceived => "RequestReceived"
  | .connected => "Connected"
  | .closed => "Closed"

/-- How a state is read. -/
def decoder : Decoder Connection := Decoder.oneOf (Decoder.entryOf table)

/-- A state is found in the table under its word. -/
theorem entryOf_word (c : Connection) : Decoder.entryOf table c.word = .ok c := by
  cases c <;> rfl

end Connection

/-- What the owner's side knows of one conversation. -/
structure Conversation where
  /-- The URI of the connection. -/
  uri : String
  remoteNeed : Option String := none
  connection : Connection
  /-- The messages by their URI on the owner's side. -/
  messages : OrderedMap Message := ∅
  agreement : Fetched Snapshot := .fresh
  petriNet : Fetched PetriNet := .fresh
  /-- How far the current fetch of messages is. -/
  loading : Progress := .notLoaded
  /-- The server has no older messages. -/
  exhausted : Bool := false

namespace Conversation

/-- A conversation of which nothing is known yet. -/
def new (uri : String) (connection : Connection) : Conversation where
  uri := uri
  connection := connection

/-- The connection is established. -/
def isConnected (c : Conversation) : Bool := c.connection = .connected

/-- Notes the state of the connection. When it becomes established, agreements and processes have to
be fetched again. -/
def setConnection (c : Conversation) (s : Connection) : Conversation :=
  if s = c.connection then c
  else if s = .connected then
    { c with connection := s, agreement := c.agreement.expire, petriNet := c.petriNet.expire }
  else { c with connection := s }

/-! ### Messages -/

/-- The messages in the order of their URIs. -/
def messageList (c : Conversation) : List Message := c.messages.values

/-- The message with this URI on the owner's side. -/
def message? (c : Conversation) (uri : String) : Option Message := c.messages.get? uri

/-- How many messages there are. -/
def size (c : Conversation) : Nat := c.messages.size

/-- There are no messages. -/
def isEmpty (c : Conversation) : Bool := c.messages.isEmpty

/-- Some message is known by this URI, on either side. -/
def containsEvent (c : Conversation) (uri : String) : Bool :=
  c.messages.contains uri || c.messageList.any (·.isKnownAs uri)

/-- The marker of `old` after a merge that leads to `remoteUri` and `status`. -/
def keepsMarker (old : Message) (remoteUri : Option String) (status : Status) : Bool :=
  old.upToDate && status = old.status && remoteUri = old.remoteUri

/-- The record `new` of the event that `old` records, under the same URI: `new` replaces `old`, but
flags stay raised and a known remote URI is not forgotten. -/
def refresh (old new : Message) : Message :=
  let status := old.status.merge new.status
  let remoteUri := new.remoteUri <|> old.remoteUri
  { new with
    remoteUri := remoteUri, status := status, upToDate := keepsMarker old remoteUri status }

/-- The record `new` of the event that `old` records, under the URI of the other side: `old` stays
and takes over the flags and, if it has no remote URI yet, the URI of `new`. -/
def absorb (old new : Message) : Message :=
  let status := old.status.merge new.status
  let remoteUri := old.remoteUri <|> some new.uri
  { old with
    remoteUri := remoteUri, status := status, upToDate := keepsMarker old remoteUri status }

/-- The conversation with other messages. -/
def withMessages (c : Conversation) (messages : OrderedMap Message) : Conversation :=
  { c with messages := messages }

@[simp] theorem uri_withMessages (c : Conversation) (ms : OrderedMap Message) :
    (c.withMessages ms).uri = c.uri := rfl

@[simp] theorem agreement_withMessages (c : Conversation) (ms : OrderedMap Message) :
    (c.withMessages ms).agreement = c.agreement := rfl

@[simp] theorem messages_withMessages (c : Conversation) (ms : OrderedMap Message) :
    (c.withMessages ms).messages = ms := rfl

/-- A message is listed just if it is stored under some key. -/
theorem mem_messageList {c : Conversation} {m : Message} :
    m ∈ c.messageList ↔ ∃ k, c.message? k = some m := OrderedMap.mem_values_iff

/-- Takes in a record. True if the event was unknown. A record of another connection is ignored. -/
def upsert (c : Conversation) (m : Message) : Conversation × Bool :=
  if m.connectionUri ≠ c.uri then (c, false)
  else if c.messages.contains m.uri then
    (c.withMessages (c.messages.modify m.uri (refresh · m)), false)
  else
    match c.messageList.find? (·.sameEvent m) with
    | some known => (c.withMessages (c.messages.modify known.uri (absorb · m)), false)
    | none => (c.withMessages (c.messages.insert m.uri m), true)

/-- Takes in records from left to right, and counts the unknown events. -/
def upsertAll (c : Conversation) : List Message → Conversation × Nat
  | [] => (c, 0)
  | m :: rest =>
    let (c, added) := c.upsert m
    let (c, n) := c.upsertAll rest
    (c, n + added.toNat)

/-- Raises the flags of a patch and marks the message. False if the message is unknown. -/
def applyPatch (c : Conversation) (p : Patch) : Conversation × Bool :=
  if c.messages.contains p.messageUri then
    (c.withMessages (c.messages.modify p.messageUri fun m ↦
      { m with status := m.status.merge p.status, upToDate := true }), true)
  else (c, false)

/-- Applies patches from left to right, and counts those that found their message. -/
def applyPatches (c : Conversation) : List Patch → Conversation × Nat
  | [] => (c, 0)
  | p :: rest =>
    let (c, applied) := c.applyPatch p
    let (c, n) := c.applyPatches rest
    (c, n + applied.toNat)

/-- Reconciles the messages that are not marked with the snapshot, and counts them. -/
def reconcile (c : Conversation) : Conversation × Nat :=
  c.applyPatches (Patch.forMessages c.messageList c.agreement.data)

/-- Marks every message as read, and counts those that were not. -/
def markAllRead (c : Conversation) : Conversation × Nat :=
  (c.withMessages (c.messages.map fun m ↦ { m with unread := false }),
    (c.messageList.filter (·.unread)).length)

/-! ### Fetching messages -/

/-- The date of the oldest visible message that has one. -/
def oldestDate (c : Conversation) : Option Timestamp :=
  ((c.messageList.filter Message.isVisible).filterMap (·.date)).min?

/-- A fetch of messages is in flight. -/
def isLoading (c : Conversation) : Bool := c.loading = .loading

/-- A fetch of messages is begun. -/
def beginMessages (c : Conversation) : Conversation := { c with loading := .loading }

/-- Messages have arrived; counts the unknown events. -/
def finishMessages (c : Conversation) (batch : List Message) : Conversation × Nat :=
  let (c, n) := c.upsertAll batch
  ({ c with loading := .loaded }, n)

/-- The fetch of messages has failed. -/
def failMessages (c : Conversation) : Conversation :=
  { c with loading := if c.isEmpty then .notLoaded else .loaded }

/-- The server has no older messages. -/
def markExhausted (c : Conversation) : Conversation := { c with exhausted := true }

/-! ### Fetching agreements and processes -/

/-- A fetch of the snapshot is begun. -/
def beginSnapshot (c : Conversation) : Conversation := { c with agreement := c.agreement.start }

/-- Some URI of the message is a member of `uris`. -/
def isMentioned (uris : UriSet) (m : Message) : Bool :=
  decide (m.uri ∈ uris) || m.remoteUri.any fun r ↦ decide (r ∈ uris)

/-- Takes the marker away from the messages that `uris` mentions. -/
def invalidate (uris : UriSet) (m : Message) : Message :=
  if isMentioned uris m then { m with upToDate := false } else m

/-- A snapshot has arrived. After an earlier one, just the messages under URIs that are new to a
category have to be reconciled again. -/
def applySnapshot (c : Conversation) (s : Snapshot) : Conversation :=
  let messages :=
    match c.agreement.data with
    | some prior => c.messages.map (invalidate (s.introducedSince prior))
    | none => c.messages
  { c with messages := messages, agreement := c.agreement.install s }

/-- The fetch of the snapshot has failed. -/
def failSnapshot (c : Conversation) : Conversation := { c with agreement := c.agreement.fail }

/-- A fetch of the processes is begun. -/
def beginPetriNet (c : Conversation) : Conversation := { c with petriNet := c.petriNet.start }

/-- The processes have arrived. -/
def applyPetriNet (c : Conversation) (n : PetriNet) : Conversation :=
  { c with petriNet := c.petriNet.install n }

/-- The fetch of the processes has failed. -/
def failPetriNet (c : Conversation) : Conversation := { c with petriNet := c.petriNet.fail }

/-! ### Views -/

/-- The chat. -/
def chat (c : Conversation) : List Message := Chat.ordered c.messageList

/-- Messages of the chat whose status does not yet take the snapshot into account. -/
def unreconciled (c : Conversation) : List Message := Chat.unreconciled c.messageList

/-- Agreements that are in force. -/
def agreements (c : Conversation) : List Message := Chat.agreements c.messageList

/-- Proposals that nobody has answered. -/
def proposals (c : Conversation) : List Message := Chat.proposals c.messageList

/-- Agreements that somebody wants to cancel. -/
def cancellations (c : Conversation) : List Message := Chat.cancellations c.messageList

/-- Messages of the chat that were not read yet. -/
def unread (c : Conversation) : List Message := Chat.unread c.messageList

/-- The first message of the conversation is known. -/
def isComplete (c : Conversation) : Bool := Chat.isComplete c.messageList

/-! ### What is due -/

/-- There may be older messages on the server, and nobody is fetching any. -/
def canLoadMore (c : Conversation) : Bool := !c.isLoading && !c.exhausted && !c.isComplete

/-- The newest messages have to be fetched: there are none, and nobody is fetching any. -/
def needsMessages (c : Conversation) : Bool :=
  c.connection != .closed && !c.isLoading && c.isEmpty

/-- The snapshot has to be fetched; `force` makes it so. -/
def needsAgreement (c : Conversation) (force : Bool) : Bool :=
  force || (c.isConnected && c.agreement.progress = .notLoaded)

/-- The processes have to be fetched; `force` makes it so. -/
def needsPetriNet (c : Conversation) (force : Bool) : Bool :=
  force || (c.isConnected && c.petriNet.progress = .notLoaded)

/-- All that reconciliation depends on is there, and some message has to be reconciled. -/
def needsReconciliation (c : Conversation) : Bool :=
  c.isConnected && c.agreement.progress = .loaded && !c.isLoading && !c.unreconciled.isEmpty

end Conversation

end Parley
