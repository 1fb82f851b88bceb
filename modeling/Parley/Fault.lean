/-!
# Faults

What can go wrong outside the pure rules of a conversation: files, texts, fetches, records and
options. A fault has a kind, which decides how callers react, and a detail for the reader. The
modules that find faults have their own types of causes and turn a cause into a fault at their
boundary.
-/

namespace Parley

/-- The kinds of faults. -/
inductive Fault.Kind where
  /-- A file cannot be read or written. -/
  | io
  /-- A JSON text or value is not what it should be. -/
  | serialization
  /-- The server could not be asked. -/
  | fetch
  /-- A fetched record is no message. -/
  | malformedRecord
  /-- The server does not know a message. -/
  | notFound
  /-- The program was called in a wrong way. -/
  | configuration
  /-- No such conversation is open. -/
  | unknownConversation
  /-- A bundle has a version that is not supported. -/
  | unsupportedBundle
  deriving DecidableEq, Repr

/-- A fault, with a detail in words. -/
structure Fault where
  kind : Fault.Kind
  detail : String
  deriving DecidableEq, Repr

/-- What a message about the kind of fault begins with. -/
def Fault.Kind.heading : Fault.Kind → String
  | .io => "IO error"
  | .serialization => "Serialization error"
  | .fetch => "Fetch error"
  | .malformedRecord => "Malformed record"
  | .notFound => "Not found"
  | .configuration => "Configuration error"
  | .unknownConversation => "Unknown conversation"
  | .unsupportedBundle => "Unsupported bundle"

/-- The wording of a fault. -/
def Fault.message (f : Fault) : String := f.kind.heading ++ ": " ++ f.detail

/-- The fault concerns one record and need not stop the records around it. -/
def Fault.isRecordLocal (f : Fault) : Bool := f.kind = .malformedRecord || f.kind = .notFound

end Parley
