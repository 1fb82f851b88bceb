import Parley.Store

/-!
# Operations on a store

`Operation` lists everything that can happen to the conversations of an owner, and `Store.execute`
says what it does and answers. Every operation is about one connection, its `address`.
-/

namespace Parley

/-- Something that happens to a store. -/
inductive Operation where
  | openWith (uri : String) (connection : Connection)
  | close (uri : String)
  | upsert (m : Message)
  | applyPatch (p : Patch)
  /-- An action on the open conversation of a connection. -/
  | perform (uri : String) (a : Action)

/-- The connection that an operation is about. -/
def Operation.address : Operation → String
  | .openWith uri _ => uri
  | .close uri => uri
  | .upsert m => m.connectionUri
  | .applyPatch p => p.connectionUri
  | .perform uri _ => uri

/-- What an operation answers. -/
inductive Operation.Answer where
  /-- The conversation that is open now. -/
  | opened (c : Conversation)
  /-- The conversation that was open before, if there was one. -/
  | closed (c : Option Conversation)
  /-- Whether something was found or added, or that the connection is unknown. -/
  | flag (r : Except Fault Bool)
  /-- What the action answered, or that the connection is unknown. -/
  | outcome (r : Except Fault Outcome)

namespace Store

/-- The store after an operation, and the answer. -/
def execute (s : Store) : Operation → Store × Operation.Answer
  | .openWith uri connection => (s.openWith uri connection).map id .opened
  | .close uri => (s.close uri).map id .closed
  | .upsert m => (s.upsert m).map id .flag
  | .applyPatch p => (s.applyPatch p).map id .flag
  | .perform uri a => (s.perform uri a).map id .outcome

/-- The store after some operations, and each of them with its answer. -/
def run (s : Store) : List Operation → Store × List (Operation × Operation.Answer)
  | [] => (s, [])
  | o :: rest =>
    let (s, answer) := s.execute o
    let (s, log) := s.run rest
    (s, (o, answer) :: log)

end Store

end Parley
