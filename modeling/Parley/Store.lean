import Parley.Conversation.Action

/-!
# The conversations of an owner

A `Store` keeps the open conversations by the URI of their connection and leads records and patches
to them.
-/

namespace Parley

/-- The open conversations, by the URI of their connection. -/
structure Store where
  conversations : OrderedMap Conversation := ∅

namespace Store

/-- No conversation is open. -/
def empty : Store := ⟨∅⟩

/-- The open conversation of a connection. -/
def get? (s : Store) (uri : String) : Option Conversation := s.conversations.get? uri

/-- The store with a conversation put under its connection. -/
def put (s : Store) (uri : String) (c : Conversation) : Store := ⟨s.conversations.insert uri c⟩

/-- Opens a conversation, or notes the state of one that is open. -/
def openWith (s : Store) (uri : String) (connection : Connection) : Store × Conversation :=
  let c := ((s.get? uri).getD (.new uri connection)).setConnection connection
  (s.put uri c, c)

/-- Forgets a conversation. -/
def close (s : Store) (uri : String) : Store × Option Conversation :=
  (⟨s.conversations.erase uri⟩, s.get? uri)

/-- The fault that no conversation is open for a connection. -/
def unknown (uri : String) : Fault := ⟨.unknownConversation, uri⟩

/-- Lets `f` change the open conversation of a connection. -/
def update {α : Type} (s : Store) (uri : String) (f : Conversation → Conversation × α) :
    Store × Except Fault α :=
  match s.get? uri with
  | none => (s, .error (unknown uri))
  | some c =>
    let (c, a) := f c
    (s.put uri c, .ok a)

/-- Takes in a record, in the conversation of its connection. -/
def upsert (s : Store) (m : Message) : Store × Except Fault Bool :=
  s.update m.connectionUri (·.upsert m)

/-- Applies a patch, in the conversation of its connection. -/
def applyPatch (s : Store) (p : Patch) : Store × Except Fault Bool :=
  s.update p.connectionUri (·.applyPatch p)

/-- Performs an action on the open conversation of a connection. -/
def perform (s : Store) (uri : String) (a : Action) : Store × Except Fault Outcome :=
  s.update uri (·.perform a)

/-- How many conversations are open. -/
def size (s : Store) : Nat := s.conversations.size

/-- No conversation is open. -/
def isEmpty (s : Store) : Bool := s.conversations.isEmpty

/-- How many messages of all chats were not read yet. -/
def unreadCount (s : Store) : Nat :=
  s.conversations.values.foldl (fun n c ↦ n + c.unread.length) 0

/-! ### What is kept under a connection -/

/-- A store is determined by what it keeps under each connection. -/
theorem ext {s t : Store} (h : ∀ k, s.get? k = t.get? k) : s = t := by
  obtain ⟨ms⟩ := s
  obtain ⟨ns⟩ := t
  exact congrArg Store.mk (OrderedMap.ext h)

theorem get?_put_self (s : Store) (uri : String) (c : Conversation) :
    (s.put uri c).get? uri = some c := OrderedMap.get?_insert_self _ _ _

theorem get?_put_of_ne (s : Store) {uri k : String} (h : k ≠ uri) (c : Conversation) :
    (s.put uri c).get? k = s.get? k := OrderedMap.get?_insert_ne _ h c

/-- An operation on an unknown conversation is refused and changes nothing. -/
theorem update_of_none {α : Type} {s : Store} {uri : String} (h : s.get? uri = none)
    (f : Conversation → Conversation × α) : s.update uri f = (s, .error (unknown uri)) := by
  rw [update, h]

/-- An operation on a conversation that is kept leaves there what it makes of it, and is answered
with its answer. -/
theorem update_of_some {α : Type} {s : Store} {uri : String} {c : Conversation}
    (h : s.get? uri = some c) (f : Conversation → Conversation × α) :
    s.update uri f = (s.put uri (f c).1, .ok (f c).2) := by
  rw [update, h]

end Store

end Parley
