import Parley.Fault
import Parley.Message
import Parley.PetriNet
import Parley.Snapshot.Response

/-!
# Sources

A `Source σ` stands for the server. Each request answers with data or a fault, and may change the
state `σ` of the server, so that equal requests can be answered in different ways.
-/

namespace Parley

/-- What a request is answered with. -/
abbrev Answer (α : Type) := Except Fault α

/-- What the server answers. -/
structure Source (σ : Type) where
  /-- One event, as the owner's need sees it. -/
  message : (ownedNeed uri : String) → StateM σ (Answer Message)
  /-- Up to `limit` of the newest messages of a connection, older than `before`. -/
  messages : (connection : String) → (limit : Nat) → (before : Option Timestamp) →
    StateM σ (Answer (List Message))
  /-- The state of the agreement protocol of a connection. -/
  agreement : (connection : String) → StateM σ (Answer Response)
  /-- The processes of a connection. -/
  processes : (connection : String) → StateM σ (Answer (List Process))

namespace Source

/-- The messages that have no date not before `before`. -/
def olderThan (before : Option Timestamp) (l : List Message) : List Message :=
  match before with
  | none => l
  | some t => l.filter fun m ↦ !m.date.any (t ≤ ·)

/-- The message `m` may stand before `n` when the newest come first and undated ones last. -/
def newestFirst (m n : Message) : Bool := (compare n.date m.date).isLE

/-- The newest `limit` messages of a history, older than `before`; messages of one date stay in
their order. -/
def page (history : List Message) (limit : Nat) (before : Option Timestamp) : List Message :=
  ((olderThan before history).mergeSort newestFirst).take limit

end Source

end Parley
