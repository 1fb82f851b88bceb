import Parley.Conversation
import Parley.Fault
import Parley.Json.Printer
import Parley.Snapshot.Response

/-!
# Bundles

A bundle is the dump of one conversation in a JSON text: the records of its messages as they were
fetched, the response of the agreement protocol and the processes. `Bundle.load` and `Bundle.save`
read and write the text; `Bundle.unpack` builds the conversation.
-/

namespace Parley

/-- The dump of one conversation. -/
structure Bundle where
  version : Nat
  connectionUri : String
  ownedNeed : String
  remoteNeed : Option String := none
  connection : Connection
  /-- The records of the messages, which need not all be messages. -/
  messages : List Json := []
  agreement : Option Response := none
  processes : List Process := []

namespace Bundle

/-- The version that can be loaded. -/
def supportedVersion : Nat := 1

/-- The bundle of a conversation of which nothing is known. -/
def new (connectionUri ownedNeed : String) (connection : Connection) : Bundle where
  version := supportedVersion
  connectionUri := connectionUri
  ownedNeed := ownedNeed
  connection := connection

/-! ### Text -/

/-- How a bundle is written. -/
def record : Record Bundle where
  title := "ConversationBundle"
  blank := new "" "" .suggested
  fields := [
    .of "version" .required Decoder.byte fun b v ↦ { b with version := v },
    .of "connectionUri" .required Decoder.text fun b v ↦ { b with connectionUri := v },
    .of "ownedNeedUri" .required Decoder.text fun b v ↦ { b with ownedNeed := v },
    .of "remoteNeedUri" .defaulted (Decoder.nullable Decoder.text)
      fun b v ↦ { b with remoteNeed := v },
    .of "state" .required Connection.decoder fun b v ↦ { b with connection := v },
    .of "messages" .defaulted (Decoder.list Decoder.json) fun b v ↦ { b with messages := v },
    .of "agreementData" .defaulted (Decoder.nullable Response.decoder)
      fun b v ↦ { b with agreement := v },
    .of "petriNet" .defaulted (Decoder.list PetriNet.decoder) fun b v ↦ { b with processes := v }]

/-- How a bundle is read. -/
def decoder : Decoder Bundle := record.decoder

/-- A bundle as JSON; absent values are left out. -/
def toJson (b : Bundle) : Json :=
  .object (
    [("version", Json.count b.version), ("connectionUri", .string b.connectionUri),
      ("ownedNeedUri", .string b.ownedNeed)] ++
    (b.remoteNeed.map fun u ↦ ("remoteNeedUri", Json.string u)).toList ++
    [("state", .string b.connection.word), ("messages", .array b.messages)] ++
    (b.agreement.map fun r ↦ ("agreementData", r.toJson)).toList ++
    [("petriNet", .array (b.processes.map PetriNet.processToJson))])

/-- Why a text is no bundle. -/
inductive Rejection where
  /-- The text is not the JSON of a bundle. -/
  | unreadable (complaint : Json.Complaint)
  /-- The bundle has another version. -/
  | unsupported (version : Nat)
  deriving DecidableEq, Repr

/-- The reason as a fault. -/
def Rejection.fault : Rejection → Fault
  | .unreadable c => ⟨.serialization, c.message⟩
  | .unsupported version => ⟨.unsupportedBundle, "version " ++ Decimal.naturalText version⟩

/-- The bundle in a text. -/
def load (text : List UInt8) : Except Rejection Bundle := do
  let b ← (decoder.ofBytes text).mapError .unreadable
  if b.version = supportedVersion then return b else throw (.unsupported b.version)

/-- The text of a bundle. -/
def save (b : Bundle) : String := b.toJson.indented

/-! ### Conversation -/

/-- The records that are messages, in their order, and how many are not. -/
def sortOut : List Json → List Message × Nat
  | [] => ([], 0)
  | j :: rest =>
    let (messages, dropped) := sortOut rest
    match Message.ofJson j with
    | .ok m => (m :: messages, dropped)
    | .error _ => (messages, dropped + 1)

/-- A conversation from a bundle. -/
structure Unpacked where
  conversation : Conversation
  /-- How many records were no messages. -/
  dropped : Nat

/-- The conversation that a bundle describes. Nothing is reconciled yet. -/
def unpack (b : Bundle) : Unpacked :=
  let (messages, dropped) := sortOut b.messages
  let c := { Conversation.new b.connectionUri b.connection with remoteNeed := b.remoteNeed }
  let c := (c.beginMessages.finishMessages messages).1
  let c := b.agreement.elim c fun r ↦ c.applySnapshot r.snapshot
  let c := if b.processes.isEmpty then c else c.applyPetriNet (.ofProcesses b.processes)
  ⟨c, dropped⟩

end Bundle

end Parley
