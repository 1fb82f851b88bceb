import Parley.Source

/-!
# Scripted sources

A `Script` holds the answers of a source in advance. Batches of messages, responses and processes
are used up in their order; when no batch is left, messages come from a fixed history. Single
messages are looked up by URI.
-/

namespace Parley

/-- The answers that a source has left. -/
structure Script where
  /-- The records of single messages, by the URI under which they are asked for. -/
  records : OrderedMap (Answer Message) := ∅
  batches : List (Answer (List Message)) := []
  history : Answer (List Message) := .ok []
  responses : List (Answer Response) := []
  processes : List (Answer (List Process)) := []

namespace Script

/-- The record under a URI. -/
def record (s : Script) (uri : String) : Answer Message :=
  (s.records.get? uri).getD (.error ⟨.notFound, uri⟩)

/-- The source that answers from a script. -/
def source : Source Script where
  message _ uri := do return (← get).record uri
  messages _ limit before := do
    let s ← get
    match s.batches with
    | batch :: rest =>
      set { s with batches := rest }
      return batch
    | [] => return s.history.map fun l ↦ Source.page l limit before
  agreement _ := do
    let s ← get
    match s.responses with
    | response :: rest =>
      set { s with responses := rest }
      return response
    | [] => return .error ⟨.fetch, "no response queued"⟩
  processes _ := do
    let s ← get
    match s.processes with
    | processes :: rest =>
      set { s with processes := rest }
      return processes
    | [] => return .ok []

end Script

end Parley
