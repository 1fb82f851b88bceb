import Parley.Chat
import Parley.Snapshot

/-!
# What a snapshot says about messages

Each flag belongs to one category of a snapshot. Reconciling a message with a snapshot raises the
flags whose category holds the message, under the URI of either side, and lowers none.
`Patch` carries a status to the conversation that keeps the message.
-/

namespace Parley

/-- The category of a snapshot from which a flag is raised. -/
def Flag.category : Flag → Category
  | .proposed => .proposedMessages
  | .claimed => .claimedMessages
  | .accepted => .agreements
  | .rejected => .rejectedMessages
  | .retracted => .retractedMessages
  | .cancelled => .cancelledAgreements
  | .cancellationPending => .cancellationPendingAgreements

/-- The flags that a snapshot raises for a message. -/
def Snapshot.derive (s : Snapshot) (m : Message) : Status :=
  .ofFn fun f ↦ s.holds f.category m.uri m.remoteUri

/-- The status of a message once it takes a snapshot into account; without a snapshot nothing
changes. -/
def Message.reconciled (m : Message) (s : Option Snapshot) : Status :=
  match s with
  | some s => m.status.merge (s.derive m)
  | none => m.status

/-- A reconciled message has its own flags and those that the snapshot raises for it. -/
theorem Message.get_reconciled_some (m : Message) (s : Snapshot) (f : Flag) :
    (m.reconciled (some s)).get f =
      (m.status.get f || s.holds f.category m.uri m.remoteUri) := by
  simp [reconciled, Snapshot.derive]

/-- A new status for one message. -/
structure Patch where
  messageUri : String
  connectionUri : String
  status : Status
  deriving DecidableEq, Repr

namespace Patch

/-- The patch that reconciles a message with a snapshot. -/
def of (s : Snapshot) (m : Message) : Patch :=
  ⟨m.uri, m.connectionUri, m.reconciled (some s)⟩

/-- One patch for each unreconciled message of the chat, in its order; none without a snapshot. -/
def forMessages (l : List Message) (s : Option Snapshot) : List Patch :=
  match s with
  | some s => (Chat.unreconciled l).map (of s)
  | none => []

/-- How a patch is written. -/
def record : Record Patch where
  title := "StatusPatch"
  blank := ⟨"", "", .none⟩
  fields := [
    .of "messageUri" .required Decoder.text fun p v ↦ { p with messageUri := v },
    .of "connectionUri" .required Decoder.text fun p v ↦ { p with connectionUri := v },
    .of "messageStatus" .required Status.decoder fun p v ↦ { p with status := v }]

/-- How a patch is read. -/
def decoder : Decoder Patch := record.decoder

/-- A patch as JSON. -/
def toJson (p : Patch) : Json :=
  .object [("messageUri", .string p.messageUri), ("connectionUri", .string p.connectionUri),
    ("messageStatus", p.status.toJson)]

end Patch

end Parley
