import Parley.Decoder.Record
import Parley.Fault

/-!
# Options

`Options.ofArguments` reads the arguments of the program from left to right: flags with their values
and exactly one path. A later flag overrides an earlier one of the same name, and the environment
overrides the flags. The first argument that does not fit decides the problem.
-/

namespace Parley

/-- Which messages of a conversation to show. -/
inductive View where
  | chat
  | agreements
  | proposals
  | cancellations
  | unread
  | unreconciled
  deriving DecidableEq, Repr

namespace View

/-- The names of the views. -/
def table : List (String × View) :=
  [("chat", .chat), ("agreements", .agreements), ("proposals", .proposals),
    ("cancellations", .cancellations), ("unread", .unread), ("unreconciled", .unreconciled)]

/-- The view with a name. -/
def ofName? (name : String) : Option View := KeyedList.find? name table

/-- The name of a view. -/
def name : View → String
  | .chat => "chat"
  | .agreements => "agreements"
  | .proposals => "proposals"
  | .cancellations => "cancellations"
  | .unread => "unread"
  | .unreconciled => "unreconciled"

/-- The name of a view in a listing. -/
def label : View → String
  | .chat => "Chat"
  | .agreements => "Agreements"
  | .proposals => "Proposals"
  | .cancellations => "Cancellations"
  | .unread => "Unread"
  | .unreconciled => "Unreconciled"

theorem ofName?_name (v : View) : ofName? v.name = some v := by cases v <;> decide

end View

/-- What the program is asked to do. -/
structure Options where
  /-- How many messages to fetch first. -/
  initialCount : Nat := 15
  /-- How many older messages to fetch at a time. -/
  moreCount : Nat := 5
  /-- The path of the bundle to show. -/
  bundle : Option String := none
  view : View := .chat
  /-- Print JSON instead of a listing. -/
  json : Bool := false
  deriving DecidableEq, Repr

/-- The parts of the environment that override options. -/
structure Environment where
  initialCount : Option String := none
  moreCount : Option String := none
  /-- JSON is asked for, with whatever value. -/
  json : Bool := false
  deriving DecidableEq, Repr

namespace Options

/-- Why the arguments cannot be used. -/
inductive Problem where
  /-- There is no argument; `program` is the name by which the program was called. -/
  | usage (program : String)
  | unknownView (name : String)
  /-- `--view` stands at the end. -/
  | missingView
  /-- The flag stands at the end. -/
  | missingNumber (flag : String)
  /-- The flag's value is no positive number. -/
  | badNumber (flag : String)
  | unknownFlag (flag : String)
  /-- A path after the first one. -/
  | secondBundle (path : String)
  | noBundle
  deriving DecidableEq, Repr

/-- The wording of a problem. -/
def Problem.message : Problem → String
  | .usage program =>
    "Usage: " ++ program ++ " <bundle.json> [--view chat|agreements|proposals|cancellations|" ++
      "unread|unreconciled] [--json] [--initial <n>] [--more <n>]"
  | .unknownView name => "Unknown view: " ++ name
  | .missingView => "--view requires a view name"
  | .missingNumber flag => flag ++ " requires a number"
  | .badNumber flag => flag ++ " must be a positive number"
  | .unknownFlag flag => "Unknown flag: " ++ flag
  | .secondBundle path => "Only one bundle may be given, got extra " ++ path
  | .noBundle => "No bundle file given"

/-- The problem as a fault. -/
def Problem.fault (p : Problem) : Fault := ⟨.configuration, p.message⟩

/-- A natural number in decimal digits, behind an optional plus sign, that fits 64 bits. -/
def number? (s : String) : Option Nat :=
  let ds := match s.toList with
    | '+' :: ds => ds
    | ds => ds
  if ds.isEmpty || !ds.all Decimal.isDigit then none
  else some (Decimal.valueOf ds) |>.filter (· < Nat.pow 2 64)

/-- A positive number in decimal digits that fits 64 bits. -/
def count? (s : String) : Option Nat := (number? s).filter (0 < ·)

/-- The view that a flag's value names. -/
def viewOf (name : String) : Except Problem View :=
  match View.ofName? name with
  | some v => .ok v
  | none => .error (.unknownView name)

/-- The count that a flag's value gives. -/
def countOf (flag value : String) : Except Problem Nat :=
  match count? value with
  | some n => .ok n
  | none => .error (.badNumber flag)

/-- An argument of two hyphens and more is a flag. -/
def isFlag (arg : String) : Bool := ['-', '-'].isPrefixOf arg.toList

/-- A path, if there is none yet. -/
def addBundle (o : Options) (path : String) : Except Problem Options :=
  match o.bundle with
  | some _ => .error (.secondBundle path)
  | none => .ok { o with bundle := some path }

/-- Reads arguments from left to right into options. -/
def absorb (o : Options) : List String → Except Problem Options
  | [] => .ok o
  | arg :: args =>
    if arg = "--view" then
      match args with
      | [] => .error .missingView
      | name :: args => do absorb { o with view := ← viewOf name } args
    else if arg = "--json" then absorb { o with json := true } args
    else if arg = "--initial" then
      match args with
      | [] => .error (.missingNumber "--initial")
      | value :: args => do absorb { o with initialCount := ← countOf "--initial" value } args
    else if arg = "--more" then
      match args with
      | [] => .error (.missingNumber "--more")
      | value :: args => do absorb { o with moreCount := ← countOf "--more" value } args
    else if isFlag arg then .error (.unknownFlag arg)
    else do (← addBundle o arg).absorb args

/-- Lets the environment override options. Counts that are not positive numbers are ignored. -/
def withEnvironment (o : Options) (e : Environment) : Options where
  initialCount := (e.initialCount.bind count?).getD o.initialCount
  moreCount := (e.moreCount.bind count?).getD o.moreCount
  bundle := o.bundle
  view := o.view
  json := e.json || o.json

/-- The name of the program when it is called without one. -/
def defaultProgram : String := "accord"

/-- The options from the arguments, the first of which is the program's name. -/
def ofArguments (args : List String) (e : Environment) : Except Problem Options :=
  match args with
  | [] => .error (.usage defaultProgram)
  | [program] => .error (.usage program)
  | _ :: args => do
    let o := (← absorb {} args).withEnvironment e
    if o.bundle.isNone then throw .noBundle else return o

/-! ### JSON -/

/-- How options are written. -/
def record : Record Options where
  title := "Config"
  blank := {}
  fields := [
    .of "initial_message_count" .required Decoder.size fun o v ↦ { o with initialCount := v },
    .of "more_message_count" .required Decoder.size fun o v ↦ { o with moreCount := v },
    .of "bundle_path" .optional (Decoder.nullable (Decoder.parsedText "path string" .ok))
      fun o v ↦ { o with bundle := v },
    .of "view" .required (Decoder.oneOf (Decoder.entryOf View.table))
      fun o v ↦ { o with view := v },
    .of "json" .required Decoder.bool fun o v ↦ { o with json := v }]

/-- How options are read. -/
def decoder : Decoder Options := record.decoder

/-- Options as JSON. -/
def toJson (o : Options) : Json :=
  .object [("initial_message_count", Json.count o.initialCount),
    ("more_message_count", Json.count o.moreCount), ("bundle_path", Json.stringOrNull o.bundle),
    ("view", .string o.view.name), ("json", .bool o.json)]

end Options

end Parley
