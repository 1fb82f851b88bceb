import Parley.Decoder.Record

/-!
# Negotiation status

A message carries seven flags about the negotiation. Flags are only ever raised: `Status.merge` is
the join of a semilattice whose order is `Status.covers`.

**One view.** A status is read through `get : Flag → Bool`; `Status.ofFn` builds one from such a
function, and `Status.ext` says that nothing else is in it.
-/

namespace Parley

/-- The flags of a negotiation. -/
inductive Flag where
  | proposed
  | claimed
  | accepted
  | rejected
  | retracted
  | cancelled
  | cancellationPending
  deriving DecidableEq, Repr

namespace Flag

/-- Every flag, in the order of their declaration. -/
def all : List Flag :=
  [.proposed, .claimed, .accepted, .rejected, .retracted, .cancelled, .cancellationPending]

@[simp] theorem mem_all (f : Flag) : f ∈ all := by cases f <;> decide

/-- The flag in words. -/
def label : Flag → String
  | .proposed => "proposed"
  | .claimed => "claimed"
  | .accepted => "accepted"
  | .rejected => "rejected"
  | .retracted => "retracted"
  | .cancelled => "cancelled"
  | .cancellationPending => "cancellation pending"

/-- The name under which a record keeps the flag. -/
def key : Flag → String
  | .proposed => "isProposed"
  | .claimed => "isClaimed"
  | .accepted => "isAccepted"
  | .rejected => "isRejected"
  | .retracted => "isRetracted"
  | .cancelled => "isCancelled"
  | .cancellationPending => "isCancellationPending"

end Flag

/-- Which flags of a message are raised. -/
structure Status where
  proposed : Bool := false
  claimed : Bool := false
  accepted : Bool := false
  rejected : Bool := false
  retracted : Bool := false
  cancelled : Bool := false
  cancellationPending : Bool := false
  deriving DecidableEq, Repr, Inhabited

namespace Status

/-- The flag is raised. -/
def get (s : Status) : Flag → Bool
  | .proposed => s.proposed
  | .claimed => s.claimed
  | .accepted => s.accepted
  | .rejected => s.rejected
  | .retracted => s.retracted
  | .cancelled => s.cancelled
  | .cancellationPending => s.cancellationPending

/-- The status in which just the flags with `f` are raised. -/
def ofFn (f : Flag → Bool) : Status :=
  ⟨f .proposed, f .claimed, f .accepted, f .rejected, f .retracted, f .cancelled,
    f .cancellationPending⟩

@[simp] theorem get_ofFn (f : Flag → Bool) (g : Flag) : (ofFn f).get g = f g := by
  cases g <;> rfl

/-- A status is determined by its flags. -/
theorem ext {s t : Status} (h : ∀ f, s.get f = t.get f) : s = t := by
  have := congrArg ofFn (funext h)
  exact this

/-- No flag is raised. -/
def none : Status := ofFn fun _ ↦ false

/-- The status with one flag set to `b`. -/
def set (s : Status) (f : Flag) (b : Bool) : Status := ofFn fun g ↦ if g = f then b else s.get g

/-- The status in which just the listed flags are raised. -/
def ofFlags (l : List Flag) : Status := ofFn fun f ↦ decide (f ∈ l)

/-- The flags that are raised in either status. -/
def merge (s t : Status) : Status := ofFn fun f ↦ s.get f || t.get f

/-- The raised flags, in the order of their declaration. -/
def flags (s : Status) : List Flag := Flag.all.filter s.get

/-- No flag is raised. -/
def isEmpty (s : Status) : Bool := s.flags.isEmpty

/-- Every flag that was raised `earlier` is still raised. -/
def covers (s earlier : Status) : Bool := earlier.flags.all s.get

@[simp] theorem get_none (f : Flag) : none.get f = false := get_ofFn _ f

@[simp] theorem get_set (s : Status) (f : Flag) (b : Bool) (g : Flag) :
    (s.set f b).get g = if g = f then b else s.get g := get_ofFn _ g

@[simp] theorem get_ofFlags (l : List Flag) (f : Flag) : (ofFlags l).get f = decide (f ∈ l) :=
  get_ofFn _ f

@[simp] theorem get_merge (s t : Status) (f : Flag) : (s.merge t).get f = (s.get f || t.get f) :=
  get_ofFn _ f

@[simp] theorem mem_flags {s : Status} {f : Flag} : f ∈ s.flags ↔ s.get f = true := by
  simp [flags]

/-- A status covers another just if it has all its flags. -/
theorem covers_iff {s t : Status} : s.covers t = true ↔ ∀ f, t.get f = true → s.get f = true := by
  simp [covers]

theorem merge_comm (s t : Status) : s.merge t = t.merge s :=
  ext fun f ↦ by simp [Bool.or_comm]

theorem merge_assoc (s t u : Status) : (s.merge t).merge u = s.merge (t.merge u) :=
  ext fun f ↦ by simp [Bool.or_assoc]

@[simp] theorem merge_self (s : Status) : s.merge s = s := ext fun f ↦ by simp

/-- Covering is what merging adds nothing to. -/
theorem covers_iff_merge_eq {s t : Status} : s.covers t = true ↔ s.merge t = s := by
  rw [covers_iff]
  constructor
  · intro h
    refine ext fun f ↦ ?_
    rw [get_merge]
    cases ht : t.get f
    · simp
    · simp [h f ht]
  · intro h f hf
    rw [← h, get_merge, hf, Bool.or_true]

theorem covers_refl (s : Status) : s.covers s = true := covers_iff_merge_eq.mpr s.merge_self

theorem covers_trans {s t u : Status} (hst : s.covers t = true) (htu : t.covers u = true) :
    s.covers u = true :=
  covers_iff.mpr fun f hf ↦ covers_iff.mp hst f (covers_iff.mp htu f hf)

/-- Merging loses no flag. -/
theorem covers_merge (s t : Status) : (s.merge t).covers s = true :=
  covers_iff.mpr fun f hf ↦ by rw [get_merge, hf, Bool.true_or]

/-! ### JSON -/

/-- How a status is written: one truth value for each flag, any of which may be left out. -/
def record : Record Status where
  title := "MessageStatus"
  blank := none
  fields := Flag.all.map fun f ↦ Field.of f.key .defaulted Decoder.bool fun s b ↦ s.set f b

/-- How a status is read. -/
def decoder : Decoder Status := record.decoder

/-- A status as JSON. -/
def toJson (s : Status) : Json := .object (Flag.all.map fun f ↦ (f.key, .bool (s.get f)))

end Status

end Parley
