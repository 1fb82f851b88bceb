import Parley.Conversation
import Parley.Source

/-!
# Keeping a conversation in step with the server

A `Sync` fetches what a conversation needs and puts the answers into it. Every step checks first
whether it is due, and a step that fails leaves the data of the conversation as it was. The
conversation that a step hands back counts also when the step answers with a fault.
-/

namespace Parley

/-- What the owner's side needs to know to fetch data for its conversations. -/
structure Sync (σ : Type) where
  source : Source σ
  /-- The need on whose behalf messages are fetched. -/
  ownedNeed : String
  /-- How many messages to fetch first. -/
  initialCount : Nat
  /-- How many older messages to fetch at a time. -/
  moreCount : Nat

/-- Why a fetched event cannot be used. -/
inductive EchoProblem where
  /-- The record under `uri` is an own echo and names no other URI. -/
  | noRemoteUri (uri : String)
  /-- The other URI of the event `uri` led to an own echo again. -/
  | unresolved (uri : String)
  deriving DecidableEq, Repr

/-- The wording of the reason. -/
def EchoProblem.message : EchoProblem → String
  | .noRemoteUri uri => "own echo " ++ uri ++ " has no usable remote uri"
  | .unresolved uri => uri ++ " did not resolve after 1 hops"

/-- The reason as a fault. -/
def EchoProblem.fault (p : EchoProblem) : Fault := ⟨.malformedRecord, p.message⟩

namespace Sync

variable {σ : Type}

/-- Fetches the newest messages, if there are none yet; counts the unknown events. -/
def loadLatest (y : Sync σ) (c : Conversation) : StateM σ (Conversation × Answer Nat) := do
  if c.needsMessages then
    let c := c.beginMessages
    match ← y.source.messages c.uri y.initialCount none with
    | .ok batch => return (c.finishMessages batch).map id .ok
    | .error f => return (c.failMessages, .error f)
  else return (c, .ok 0)

/-- Takes in a batch of older messages. A batch without an unknown event is the last one. -/
def finishMore (c : Conversation) (batch : List Message) : Conversation × Nat :=
  let (c, n) := c.finishMessages batch
  (if n = 0 then c.markExhausted else c, n)

/-- Fetches the next older messages, if there may be any; counts the unknown events. -/
def loadMore (y : Sync σ) (c : Conversation) : StateM σ (Conversation × Answer Nat) := do
  if c.canLoadMore then
    let before := c.oldestDate
    let c := c.beginMessages
    match ← y.source.messages c.uri y.moreCount before with
    | .ok batch => return (finishMore c batch).map id .ok
    | .error f => return (c.failMessages, .error f)
  else return (c, .ok 0)

/-- Fetches one event. If the record is an own echo, the event is looked up once more under the URI
of the other side. -/
def fetchEvent (y : Sync σ) (uri : String) : StateM σ (Answer Message) := do
  match ← y.source.message y.ownedNeed uri with
  | .error f => return .error f
  | .ok m =>
    if m.isOwnEcho y.ownedNeed then
      match m.remoteUri with
      | some remote =>
        if remote = uri then return .error (EchoProblem.noRemoteUri uri).fault
        else second remote
      | none => return .error (EchoProblem.noRemoteUri uri).fault
    else return .ok m
where
  /-- The look-up under the URI of the other side. -/
  second (remote : String) : StateM σ (Answer Message) := do
    match ← y.source.message y.ownedNeed remote with
    | .error f => return .error f
    | .ok m =>
      if m.isOwnEcho y.ownedNeed then
        if m.remoteUri.any (· != remote) then return .error (EchoProblem.unresolved uri).fault
        else return .error (EchoProblem.noRemoteUri remote).fault
      else return .ok m

/-- Fetches events one after the other. -/
def fetchEvents (y : Sync σ) (uris : List String) : StateM σ (List (Answer Message)) :=
  uris.mapM y.fetchEvent

/-- The messages among some answers. -/
def received (answers : List (Answer Message)) : List Message :=
  answers.filterMap fun a ↦ a.toOption

/-- Fetches the snapshot and the messages that it mentions and the conversation lacks; counts the
unknown events. Messages that cannot be fetched are left out. -/
def refreshAgreement (y : Sync σ) (c : Conversation) (force : Bool) :
    StateM σ (Conversation × Answer Nat) := do
  if c.needsAgreement force then
    let c := c.beginSnapshot
    match ← y.source.agreement c.uri with
    | .error f => return (c.failSnapshot, .error f)
    | .ok response =>
      let snapshot := response.snapshot
      let c := c.applySnapshot snapshot
      let missing := snapshot.allUris.toList.filter fun u ↦ !c.containsEvent u
      let answers ← y.fetchEvents missing
      return (c.upsertAll (received answers)).map id .ok
  else return (c, .ok 0)

/-- Fetches the processes; counts them. -/
def refreshPetriNet (y : Sync σ) (c : Conversation) (force : Bool) :
    StateM σ (Conversation × Answer Nat) := do
  if c.needsPetriNet force then
    let c := c.beginPetriNet
    match ← y.source.processes c.uri with
    | .error f => return (c.failPetriNet, .error f)
    | .ok processes =>
      let net := PetriNet.ofProcesses processes
      return (c.applyPetriNet net, .ok net.size)
  else return (c, .ok 0)

/-- Reconciles the conversation, if all that this depends on is there; counts the messages. -/
def reconcile (c : Conversation) : Conversation × Nat :=
  if c.needsReconciliation then c.reconcile else (c, 0)

/-- The first fault of three steps. -/
def firstFault {α : Type} (a b c : Answer α) : Answer Unit := do
  let _ ← a
  let _ ← b
  let _ ← c
  return ()

/-- Takes every step that is due. A step that fails does not keep the later ones from being taken;
the first fault is the answer. -/
def sync (y : Sync σ) (c : Conversation) : StateM σ (Conversation × Answer Unit) := do
  let (c, messages) ← y.loadLatest c
  let (c, agreement) ← y.refreshAgreement c false
  let (c, processes) ← y.refreshPetriNet c false
  return ((reconcile c).1, firstFault messages agreement processes)

end Sync

end Parley
