import Parley.Source

/-!
# Noting requests and answers

`Source.logged` lets a source note every request that it gets, the latest last. An `Exchange` is a
request together with what it was answered with, and `Source.noted` lets a source keep a note of
every exchange. The answers stay the same.
-/

namespace Parley

/-- A request that a source got. -/
inductive Call where
  | message (ownedNeed uri : String)
  | messages (connection : String) (limit : Nat) (before : Option Timestamp)
  | agreement (connection : String)
  | processes (connection : String)
  deriving DecidableEq, Repr

/-- A request that a source got, and its answer. -/
inductive Exchange where
  | message (ownedNeed uri : String) (answer : Answer Message)
  | messages (connection : String) (limit : Nat) (before : Option Timestamp)
    (answer : Answer (List Message))
  | agreement (connection : String) (answer : Answer Response)
  | processes (connection : String) (answer : Answer (List Process))

/-- The request of an exchange. -/
def Exchange.call : Exchange → Call
  | .message ownedNeed uri _ => .message ownedNeed uri
  | .messages connection limit before _ => .messages connection limit before
  | .agreement connection _ => .agreement connection
  | .processes connection _ => .processes connection

namespace Source

variable {σ κ : Type}

/-- Answers a request and notes it. -/
def noting {α : Type} (call : Call) (request : StateM σ α) : StateM (σ × List Call) α := do
  let (s, calls) ← get
  let (a, s) := request.run s
  set (s, calls ++ [call])
  return a

/-- The source that also notes its requests. -/
def logged (source : Source σ) : Source (σ × List Call) where
  message need uri := noting (.message need uri) (source.message need uri)
  messages connection limit before :=
    noting (.messages connection limit before) (source.messages connection limit before)
  agreement connection := noting (.agreement connection) (source.agreement connection)
  processes connection := noting (.processes connection) (source.processes connection)

/-- Answers a request and adds the note of the answer. -/
def adding {α : Type} (note : α → κ) (request : StateM σ α) : StateM (σ × List κ) α := do
  let (s, notes) ← get
  let (a, s) := request.run s
  set (s, notes ++ [note a])
  return a

/-- The source that also keeps a note of every exchange. -/
def noted (note : Exchange → κ) (source : Source σ) : Source (σ × List κ) where
  message need uri := adding (fun a ↦ note (.message need uri a)) (source.message need uri)
  messages connection limit before :=
    adding (fun a ↦ note (.messages connection limit before a))
      (source.messages connection limit before)
  agreement connection :=
    adding (fun a ↦ note (.agreement connection a)) (source.agreement connection)
  processes connection :=
    adding (fun a ↦ note (.processes connection a)) (source.processes connection)

/-- Noting requests is keeping a note of the request of every exchange. -/
theorem logged_eq_noted (source : Source σ) : source.logged = source.noted Exchange.call := rfl

end Source

end Parley
