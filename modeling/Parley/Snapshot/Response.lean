import Parley.Snapshot

/-!
# Responses of the agreement protocol

The server answers with lists, in which order and repetitions are kept, and with the proposals that
are still open. `Response.snapshot` reads it as a snapshot: a message counts as proposed if an open
proposal proposes it.

An empty list may be left out or written as `null`; only the list of open proposals may not be
`null`.
-/

namespace Parley

/-- A proposal that nobody has answered yet. -/
structure OpenProposal where
  uri : Option String := none
  proposes : List String := []
  proposesToCancel : List String := []
  deriving DecidableEq, Repr, Inhabited

/-- The answer of the server about the agreement protocol of a conversation. -/
structure Response where
  agreements : List String := []
  pendingProposals : List String := []
  openProposals : List OpenProposal := []
  acceptedCancellationProposals : List String := []
  cancellationPendingAgreements : List String := []
  pendingCancellationProposals : List String := []
  cancelledAgreements : List String := []
  rejectedMessages : List String := []
  retractedMessages : List String := []
  claimedMessages : List String := []
  deriving DecidableEq, Repr, Inhabited

namespace Response

/-- The URIs that the response has for a category. -/
def listed (r : Response) : Category → List String
  | .agreements => r.agreements
  | .pendingProposals => r.pendingProposals
  | .acceptedCancellationProposals => r.acceptedCancellationProposals
  | .cancellationPendingAgreements => r.cancellationPendingAgreements
  | .pendingCancellationProposals => r.pendingCancellationProposals
  | .cancelledAgreements => r.cancelledAgreements
  | .rejectedMessages => r.rejectedMessages
  | .retractedMessages => r.retractedMessages
  | .proposedMessages => r.openProposals.flatMap (·.proposes)
  | .claimedMessages => r.claimedMessages

/-- The snapshot that the response describes. -/
def snapshot (r : Response) : Snapshot := .ofFn fun c ↦ UriSet.ofList (r.listed c)

/-- Every category of the snapshot holds the URIs that the response lists for it. -/
theorem mem_snapshot {r : Response} {c : Category} {u : String} :
    u ∈ r.snapshot.uris c ↔ u ∈ r.listed c := by simp [snapshot]

/-! ### JSON -/

/-- How a list of URIs is read. -/
def uriList : Decoder (List String) := Decoder.listOrNull Decoder.text

/-- How an open proposal is written. -/
def proposalRecord : Record OpenProposal where
  title := "PendingProposal"
  blank := {}
  fields := [
    .of "uri" .defaulted (Decoder.nullable Decoder.text) fun p u ↦ { p with uri := u },
    .of "proposes" .defaulted uriList fun p l ↦ { p with proposes := l },
    .of "proposesToCancel" .defaulted uriList fun p l ↦ { p with proposesToCancel := l }]

/-- How a response is written. -/
def record : Record Response where
  title := "AgreementProtocolResponse"
  blank := {}
  fields := [
    .of "agreementUris" .defaulted uriList fun r l ↦ { r with agreements := l },
    .of "pendingProposalUris" .defaulted uriList fun r l ↦ { r with pendingProposals := l },
    .of "pendingProposals" .defaulted (Decoder.list proposalRecord.decoder)
      fun r l ↦ { r with openProposals := l },
    .of "acceptedCancellationProposalUris" .defaulted uriList
      fun r l ↦ { r with acceptedCancellationProposals := l },
    .of "cancellationPendingAgreementUris" .defaulted uriList
      fun r l ↦ { r with cancellationPendingAgreements := l },
    .of "pendingCancellationProposalUris" .defaulted uriList
      fun r l ↦ { r with pendingCancellationProposals := l },
    .of "cancelledAgreementUris" .defaulted uriList fun r l ↦ { r with cancelledAgreements := l },
    .of "rejectedMessageUris" .defaulted uriList fun r l ↦ { r with rejectedMessages := l },
    .of "retractedMessageUris" .defaulted uriList fun r l ↦ { r with retractedMessages := l },
    .of "claimedMessageUris" .defaulted uriList fun r l ↦ { r with claimedMessages := l }]

/-- How a response is read. -/
def decoder : Decoder Response := record.decoder

/-- An open proposal as JSON; an absent URI is left out. -/
def proposalToJson (p : OpenProposal) : Json :=
  .object ((p.uri.map fun u ↦ ("uri", Json.string u)).toList ++
    [("proposes", Json.strings p.proposes), ("proposesToCancel", Json.strings p.proposesToCancel)])

/-- A response as JSON. -/
def toJson (r : Response) : Json :=
  .object [
    ("agreementUris", Json.strings r.agreements),
    ("pendingProposalUris", Json.strings r.pendingProposals),
    ("pendingProposals", .array (r.openProposals.map proposalToJson)),
    ("acceptedCancellationProposalUris", Json.strings r.acceptedCancellationProposals),
    ("cancellationPendingAgreementUris", Json.strings r.cancellationPendingAgreements),
    ("pendingCancellationProposalUris", Json.strings r.pendingCancellationProposals),
    ("cancelledAgreementUris", Json.strings r.cancelledAgreements),
    ("rejectedMessageUris", Json.strings r.rejectedMessages),
    ("retractedMessageUris", Json.strings r.retractedMessages),
    ("claimedMessageUris", Json.strings r.claimedMessages)]

end Response

end Parley
