/-!
# Data that has to be fetched

`Fetched α` is what a conversation knows about one kind of data on the server: the last value that
arrived, and how far the current fetch is. A fetch is begun, and then either a value is installed or
the fetch has failed. Older data stays until new data replaces it.
-/

namespace Parley

universe u

/-- How far a fetch is. -/
inductive Progress where
  | notLoaded
  | loading
  | loaded
  deriving DecidableEq, Repr, Inhabited

/-- The name of a progress in a listing. -/
def Progress.label : Progress → String
  | .notLoaded => "NotLoaded"
  | .loading => "Loading"
  | .loaded => "Loaded"

/-- The last value that was fetched, and how far the current fetch is. -/
structure Fetched (α : Type u) where
  data : Option α := none
  progress : Progress := .notLoaded
  deriving DecidableEq

namespace Fetched

variable {α : Type u}

/-- Nothing was fetched yet. -/
def fresh : Fetched α := ⟨none, .notLoaded⟩

/-- A fetch is in flight. -/
def start (x : Fetched α) : Fetched α := { x with progress := .loading }

/-- A value has arrived. -/
def install (_ : Fetched α) (a : α) : Fetched α := ⟨some a, .loaded⟩

/-- The fetch has failed: older data still counts as loaded. -/
def fail (x : Fetched α) : Fetched α :=
  { x with progress := if x.data.isSome then .loaded else .notLoaded }

/-- The data has to be fetched again, unless a fetch is in flight. -/
def expire (x : Fetched α) : Fetched α :=
  if x.progress = .loading then x else { x with progress := .notLoaded }

@[simp] theorem data_start (x : Fetched α) : x.start.data = x.data := rfl

@[simp] theorem data_fail (x : Fetched α) : x.fail.data = x.data := rfl

@[simp] theorem data_expire (x : Fetched α) : x.expire.data = x.data := by
  unfold expire; split <;> rfl

end Fetched

end Parley
