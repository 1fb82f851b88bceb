import Parley.Decoder.Record
import Parley.UriSet

/-!
# Agreement snapshots

A snapshot says what the agreement protocol of a conversation holds at one moment: for each of ten
categories, the URIs of the messages in it.

**One view.** A snapshot is read through `uris : Category → UriSet`; `Snapshot.ofFn` builds one from
such a function, and `Snapshot.ext` says that nothing else is in it.
-/

namespace Parley

/-- The categories of a snapshot. -/
inductive Category where
  | agreements
  | pendingProposals
  | acceptedCancellationProposals
  | cancellationPendingAgreements
  | pendingCancellationProposals
  | cancelledAgreements
  | rejectedMessages
  | retractedMessages
  | proposedMessages
  | claimedMessages
  deriving DecidableEq, Repr

namespace Category

/-- Every category, in the order of their declaration. -/
def all : List Category :=
  [.agreements, .pendingProposals, .acceptedCancellationProposals, .cancellationPendingAgreements,
    .pendingCancellationProposals, .cancelledAgreements, .rejectedMessages, .retractedMessages,
    .proposedMessages, .claimedMessages]

@[simp] theorem mem_all (c : Category) : c ∈ all := by cases c <;> decide

/-- The name under which a record keeps the category. -/
def key : Category → String
  | .agreements => "agreementUris"
  | .pendingProposals => "pendingProposalUris"
  | .acceptedCancellationProposals => "acceptedCancellationProposalUris"
  | .cancellationPendingAgreements => "cancellationPendingAgreementUris"
  | .pendingCancellationProposals => "pendingCancellationProposalUris"
  | .cancelledAgreements => "cancelledAgreementUris"
  | .rejectedMessages => "rejectedMessageUris"
  | .retractedMessages => "retractedMessageUris"
  | .proposedMessages => "proposedMessageUris"
  | .claimedMessages => "claimedMessageUris"

end Category

/-- The state of the agreement protocol at one moment. -/
structure Snapshot where
  agreements : UriSet := ∅
  pendingProposals : UriSet := ∅
  acceptedCancellationProposals : UriSet := ∅
  cancellationPendingAgreements : UriSet := ∅
  pendingCancellationProposals : UriSet := ∅
  cancelledAgreements : UriSet := ∅
  rejectedMessages : UriSet := ∅
  retractedMessages : UriSet := ∅
  proposedMessages : UriSet := ∅
  claimedMessages : UriSet := ∅
  deriving DecidableEq

namespace Snapshot

instance : Inhabited Snapshot := ⟨⟨∅, ∅, ∅, ∅, ∅, ∅, ∅, ∅, ∅, ∅⟩⟩

/-- The URIs in a category. -/
def uris (s : Snapshot) : Category → UriSet
  | .agreements => s.agreements
  | .pendingProposals => s.pendingProposals
  | .acceptedCancellationProposals => s.acceptedCancellationProposals
  | .cancellationPendingAgreements => s.cancellationPendingAgreements
  | .pendingCancellationProposals => s.pendingCancellationProposals
  | .cancelledAgreements => s.cancelledAgreements
  | .rejectedMessages => s.rejectedMessages
  | .retractedMessages => s.retractedMessages
  | .proposedMessages => s.proposedMessages
  | .claimedMessages => s.claimedMessages

/-- The snapshot with these URIs in each category. -/
def ofFn (f : Category → UriSet) : Snapshot :=
  ⟨f .agreements, f .pendingProposals, f .acceptedCancellationProposals,
    f .cancellationPendingAgreements, f .pendingCancellationProposals, f .cancelledAgreements,
    f .rejectedMessages, f .retractedMessages, f .proposedMessages, f .claimedMessages⟩

@[simp] theorem uris_ofFn (f : Category → UriSet) (c : Category) : (ofFn f).uris c = f c := by
  cases c <;> rfl

/-- A snapshot is determined by its categories. -/
theorem ext {s t : Snapshot} (h : ∀ c, s.uris c = t.uris c) : s = t := by
  have := congrArg ofFn (funext h)
  exact this

/-- The snapshot without any URI. -/
def empty : Snapshot := ofFn fun _ ↦ ∅

/-- The snapshot with one category replaced. -/
def setUris (s : Snapshot) (c : Category) (u : UriSet) : Snapshot :=
  ofFn fun c' ↦ if c' = c then u else s.uris c'

/-- The category holds a message under its own URI or under that of the other side. -/
def holds (s : Snapshot) (c : Category) (uri : String) (remoteUri : Option String) : Bool :=
  decide (uri ∈ s.uris c) || remoteUri.any fun r ↦ decide (r ∈ s.uris c)

/-- No category has a URI. -/
def isEmpty (s : Snapshot) : Bool := Category.all.all fun c ↦ (s.uris c).isEmpty

/-- The union over the categories of sets that belong to them. -/
def gather (f : Category → UriSet) : UriSet :=
  Category.all.foldl (fun acc c ↦ acc.union (f c)) ∅

/-- Every URI of the snapshot. -/
def allUris (s : Snapshot) : UriSet := gather s.uris

/-- The URIs that some category has here and the same category did not have in `prior`. -/
def introducedSince (s prior : Snapshot) : UriSet :=
  gather fun c ↦ (s.uris c).diff (prior.uris c)

/-- What is gathered is in one of the categories. -/
theorem mem_gather {f : Category → UriSet} {u : String} : u ∈ gather f ↔ ∃ c, u ∈ f c := by
  have step : ∀ (l : List Category) (s : UriSet),
      u ∈ l.foldl (fun acc c ↦ acc.union (f c)) s ↔ u ∈ s ∨ ∃ c ∈ l, u ∈ f c := by
    intro l
    induction l with
    | nil => simp
    | cons c l ih =>
      intro s
      rw [List.foldl_cons, ih]
      simp [or_assoc]
  rw [gather, step]
  simp [EmptyCollection.emptyCollection]

/-- A name is introduced if some category has it that did not have it before. It may have been in
another one. -/
theorem mem_introducedSince {s prior : Snapshot} {u : String} :
    u ∈ s.introducedSince prior ↔ ∃ c, u ∈ s.uris c ∧ u ∉ prior.uris c := by
  simp [introducedSince, mem_gather]

/-! ### JSON -/

/-- How a set of URIs is read: an array, in which repetitions collapse. -/
def uriSet : Decoder UriSet := (Decoder.list Decoder.text).map UriSet.ofList

/-- How a snapshot is written: one array for each category, any of which may be left out. -/
def record : Record Snapshot where
  title := "AgreementSnapshot"
  blank := empty
  fields := Category.all.map fun c ↦ Field.of c.key .defaulted uriSet fun s u ↦ s.setUris c u

/-- How a snapshot is read. -/
def decoder : Decoder Snapshot := record.decoder

/-- A snapshot as JSON. -/
def toJson (s : Snapshot) : Json :=
  .object (Category.all.map fun c ↦ (c.key, Json.strings (s.uris c).toList))

end Snapshot

end Parley
