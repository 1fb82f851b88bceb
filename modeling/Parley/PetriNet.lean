import Parley.Decoder.Record

/-!
# Petri nets of a conversation

The server describes a process by its URI and further data, which are passed on as they came. A
conversation keeps its processes by URI.
-/

namespace Parley

/-- The data of one process. -/
structure Process where
  uri : Option String
  /-- Everything else that came with it, by name. -/
  extra : OrderedMap Json

/-- The processes of a conversation, by URI. -/
abbrev PetriNet := OrderedMap Process

namespace PetriNet

/-- The processes by URI. One without a URI is left out, and a later one of the same URI counts. -/
def ofProcesses (l : List Process) : PetriNet :=
  OrderedMap.ofList (l.filterMap fun p ↦ p.uri.map fun u ↦ (u, p))

/-- The pairs of one URI are those of the processes with this URI. -/
theorem filter_filterMap_uri (l : List Process) (u : String) :
    (l.filterMap fun p ↦ p.uri.map fun u ↦ (u, p)).filter (fun e ↦ e.1 = u) =
      (l.filter fun p ↦ p.uri = some u).map fun p ↦ (u, p) := by
  induction l with
  | nil => rfl
  | cons p l ih =>
    rcases hp : p.uri with - | u'
    · rw [List.filterMap_cons_none (by rw [hp]; rfl), List.filter_cons_of_neg (by simp [hp]), ih]
    · rw [List.filterMap_cons_some (by rw [hp]; rfl)]
      by_cases hu : u' = u
      · rw [List.filter_cons_of_pos (by simpa using hu), List.filter_cons_of_pos (by simp [hp, hu]),
          ih, List.map_cons, hu]
      · rw [List.filter_cons_of_neg (by simpa using hu), List.filter_cons_of_neg (by simp [hp, hu]),
          ih]

/-- Under a URI stands the last process that has it; a process without a URI stands nowhere. -/
theorem get?_ofProcesses (l : List Process) (u : String) :
    (ofProcesses l).get? u = (l.filter fun p ↦ p.uri = some u).getLast? := by
  rw [ofProcesses, OrderedMap.get?_ofList, filter_filterMap_uri, List.getLast?_map, Option.map_map]
  exact Option.map_id'

/-- How a process is written: an object that may have any members. -/
def record : Record Process where
  title := "PetriNetEntry"
  blank := ⟨none, ∅⟩
  fields := [
    .of "processURI" .defaulted (Decoder.nullable Decoder.text) fun p u ↦ { p with uri := u }]
  keep := some fun name j p ↦ { p with extra := p.extra.insert name j }

/-- How a process is read. -/
def decoder : Decoder Process := record.decoder

/-- A process as JSON: its URI, if it has one, and then the further data by name. -/
def processToJson (p : Process) : Json :=
  .object ((p.uri.map fun u ↦ ("processURI", Json.string u)).toList ++ p.extra.entries)

/-- The processes by URI as JSON. -/
def toJson (n : PetriNet) : Json := .object (n.map processToJson).entries

end PetriNet

end Parley
