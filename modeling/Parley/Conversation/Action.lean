import Parley.Conversation
import Parley.Fault

/-!
# Actions on a conversation

`Action` lists everything that can happen to a conversation, and `Conversation.perform` says what it
does and answers. A run is a list of actions.
-/

namespace Parley

/-- Something that happens to a conversation. -/
inductive Action where
  | setConnection (s : Connection)
  | setRemoteNeed (uri : Option String)
  | upsert (m : Message)
  | upsertAll (l : List Message)
  | applyPatch (p : Patch)
  | reconcile
  | markAllRead
  | beginMessages
  | finishMessages (batch : List Message)
  | failMessages (f : Fault)
  | markExhausted
  | beginSnapshot
  | applySnapshot (s : Snapshot)
  | failSnapshot (f : Fault)
  | beginPetriNet
  | applyPetriNet (n : PetriNet)
  | failPetriNet (f : Fault)

/-- What an action answers. -/
inductive Outcome where
  | done
  /-- Whether something was found or added. -/
  | flag (b : Bool)
  | count (n : Nat)
  /-- The fault that was reported, for the caller to pass on. -/
  | fault (f : Fault)
  deriving DecidableEq, Repr

namespace Conversation

/-- The conversation after an action, and the answer. -/
def perform (c : Conversation) : Action → Conversation × Outcome
  | .setConnection s => (c.setConnection s, .done)
  | .setRemoteNeed uri => ({ c with remoteNeed := uri }, .done)
  | .upsert m => (c.upsert m).map id .flag
  | .upsertAll l => (c.upsertAll l).map id .count
  | .applyPatch p => (c.applyPatch p).map id .flag
  | .reconcile => c.reconcile.map id .count
  | .markAllRead => c.markAllRead.map id .count
  | .beginMessages => (c.beginMessages, .done)
  | .finishMessages batch => (c.finishMessages batch).map id .count
  | .failMessages f => (c.failMessages, .fault f)
  | .markExhausted => (c.markExhausted, .done)
  | .beginSnapshot => (c.beginSnapshot, .done)
  | .applySnapshot s => (c.applySnapshot s, .done)
  | .failSnapshot f => (c.failSnapshot, .fault f)
  | .beginPetriNet => (c.beginPetriNet, .done)
  | .applyPetriNet n => (c.applyPetriNet n, .done)
  | .failPetriNet f => (c.failPetriNet, .fault f)

/-- The conversation after some actions. -/
def run (c : Conversation) (actions : List Action) : Conversation :=
  actions.foldl (fun c a ↦ (c.perform a).1) c

end Conversation

end Parley
