import Parley.Conversation.Action
import Parley.Source.Log
import Parley.Sync

/-!
# Calls and steps, one after the other

`Load` lists the calls by which a `Sync` brings messages into a conversation, and `Sync.loads` makes
them one after the other. `Sync.Step` lists everything that happens to a conversation that is kept
in step with a server: actions on it, and the calls of a `Sync`. A run takes steps one after the
other. Each of them leaves an `Entry` in the log, which says what was asked for, what came and what
became of the conversation.

With a source that notes what it is asked, the notes say what a call asked for (`Sync.logged`), or
what it asked for and what came: its transcript (`Sync.recorded`).
-/

namespace Parley

/-- A call that may bring messages into a conversation. -/
inductive Load where
  | latest
  | more
  | agreement (force : Bool)
  deriving DecidableEq, Repr

namespace Sync

variable {σ κ : Type}

/-! ### Calls -/

/-- Makes a call. -/
def load (y : Sync σ) (c : Conversation) : Load → StateM σ (Conversation × Answer Nat)
  | .latest => y.loadLatest c
  | .more => y.loadMore c
  | .agreement force => y.refreshAgreement c force

/-- Makes calls from left to right, and collects their answers. -/
def loads (y : Sync σ) (c : Conversation) :
    List Load → StateM σ (Conversation × List (Answer Nat))
  | [] => return (c, [])
  | l :: rest => do
    let (c, answer) ← y.load c l
    let (c, answers) ← y.loads c rest
    return (c, answer :: answers)

/-! ### Notes -/

/-- The `Sync` whose source notes its requests. -/
def logged (y : Sync σ) : Sync (σ × List Call) := { y with source := y.source.logged }

/-- The `Sync` whose source keeps notes. -/
def noted (note : Exchange → κ) (y : Sync σ) : Sync (σ × List κ) :=
  { y with source := y.source.noted note }

/-- The `Sync` whose source keeps the transcript. -/
def recorded (y : Sync σ) : Sync (σ × List Exchange) := y.noted id

/-! ### Steps -/

/-- Something that happens to a conversation that is kept in step. -/
inductive Step where
  /-- An action, for which no server is needed. -/
  | perform (a : Action)
  | load (l : Load)
  | petriNet (force : Bool)
  | reconcile
  | sync
  /-- An event is looked up, for whatever purpose. -/
  | lookUp (uri : String)

/-- What a step is answered with. -/
inductive Reply where
  | outcome (o : Outcome)
  | count (r : Answer Nat)
  | whole (r : Answer Unit)
  | event (r : Answer Message)

/-- Takes a step. -/
def step (y : Sync σ) (c : Conversation) : Step → StateM σ (Conversation × Reply)
  | .perform a => return (c.perform a).map id .outcome
  | .load l => return (← y.load c l).map id .count
  | .petriNet force => return (← y.refreshPetriNet c force).map id .count
  | .reconcile => return (reconcile c).map id fun n ↦ .count (.ok n)
  | .sync => return (← y.sync c).map id .whole
  | .lookUp uri => return (c, .event (← y.fetchEvent uri))

/-- What a step of a run did. -/
structure Entry where
  step : Step
  before : Conversation
  exchanges : List Exchange
  after : Conversation
  reply : Reply

/-- Takes a step and notes what it did. -/
def observe (y : Sync σ) (c : Conversation) (x : Step) : StateM σ Entry := do
  let ((d, reply), s, exchanges) := (y.recorded.step c x).run (← get, [])
  set s
  return ⟨x, c, exchanges, d, reply⟩

/-- Takes steps from left to right, and notes what each of them did. -/
def steps (y : Sync σ) (c : Conversation) : List Step → StateM σ (Conversation × List Entry)
  | [] => return (c, [])
  | x :: rest => do
    let e ← y.observe c x
    let (c, log) ← y.steps e.after rest
    return (c, e :: log)

end Sync

end Parley
