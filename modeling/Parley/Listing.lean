import Parley.Bundle
import Parley.Options

/-!
# Listings

`Listing.output` prints one view of the conversation in a bundle: as JSON, or as a listing with a
heading and one line for each message. Listings may be coloured with the escape sequences of
terminals.
-/

namespace Parley.Listing

/-! ### Colours -/

/-- How a part of a listing stands out. -/
inductive Style where
  /-- Bold and in bright cyan. -/
  | title
  /-- In bright white. -/
  | label
  | yellow
  | red
  | green
  | blue
  | magenta
  | cyan
  | dimmed
  deriving DecidableEq, Repr

/-- The numbers that switch a style on. -/
def Style.codes : Style → String
  | .title => "1;96"
  | .label => "97"
  | .yellow => "33"
  | .red => "31"
  | .green => "32"
  | .blue => "34"
  | .magenta => "35"
  | .cyan => "36"
  | .dimmed => "2"

/-- The sequence that switches a style on. -/
def Style.start (s : Style) : String := "\x1b[" ++ s.codes ++ "m"

/-- The sequence that switches every style off. -/
def reset : String := "\x1b[0m"

/-- The text with `start` behind every `reset` in it, so that a text that switches styles off does
not end the style around it. -/
def resume (start : List Char) (text : List Char) : List Char :=
  match text with
  | [] => []
  | '\x1b' :: '[' :: '0' :: 'm' :: rest => reset.toList ++ start ++ resume start rest
  | c :: rest => c :: resume start rest

/-- The text in a style, if listings are coloured. -/
def paint (coloured : Bool) (s : Style) (text : String) : String :=
  if coloured then
    s.start ++ String.ofList (resume s.start.toList text.toList) ++ reset
  else text

/-! ### The parts of a listing -/

/-- The messages of a view. -/
def select (c : Conversation) : View → List Message
  | .chat => c.chat
  | .agreements => c.agreements
  | .proposals => c.proposals
  | .cancellations => c.cancellations
  | .unread => c.unread
  | .unreconciled => c.unreconciled

/-- The heading of a listing, line by line. -/
def heading (coloured : Bool) (c : Conversation) (view : View) (dropped : Nat) : List String :=
  let paint := paint coloured
  [paint .title ("⚡ " ++ c.uri),
    "  " ++ paint .label "state:" ++ " " ++ c.connection.label ++
      "   " ++ paint .label "view:" ++ " " ++ view.label ++
      "   " ++ paint .label "messages:" ++ " " ++ Decimal.naturalText c.size] ++
  (if c.isComplete then [] else ["  " ++ paint .yellow "older messages not loaded"]) ++
  (if c.agreement.data.isSome then [] else ["  " ++ paint .yellow "agreement data not loaded"]) ++
  (if dropped = 0 then []
    else ["  " ++ paint .red "✗" ++ " " ++ Decimal.naturalText dropped ++
      " malformed records dropped"]) ++
  [""]

/-- The line of a message. -/
def line (coloured : Bool) (m : Message) : String :=
  let paint := paint coloured
  let date := (m.date.map Timestamp.minuteText).getD "----------------"
  let who := if m.outgoing then paint .green "me  " else paint .blue "them"
  let unread := if m.unread then paint .yellow "●" else " "
  let kind := if m.kind = .chat then "" else " " ++ paint .magenta ("[" ++ m.kind.label ++ "]")
  let flags := m.status.flags.map Flag.label
  let status :=
    if flags.isEmpty then "" else " " ++ paint .cyan ("(" ++ ", ".intercalate flags ++ ")")
  unread ++ " " ++ paint .dimmed date ++ " " ++ who ++ " " ++ m.text.getD "" ++ kind ++ status

/-- Lines as one text. -/
def unlines (lines : List String) : String := String.join (lines.map (· ++ "\n"))

/-- The messages of a view as JSON. -/
def json (l : List Message) : Json := .array (l.map Message.toJson)

/-- What is printed for the conversation in a bundle. -/
def ofBundle (coloured : Bool) (o : Options) (b : Bundle) : String :=
  let unpacked := b.unpack
  let c := unpacked.conversation.reconcile.1
  let selected := select c o.view
  if o.json then unlines [(json selected).indented]
  else
    unlines (heading coloured c o.view unpacked.dropped ++
      if selected.isEmpty then ["  " ++ paint coloured .dimmed "(nothing to show)"]
      else selected.map (line coloured))

/-! ### The whole run -/

/-- Why nothing is printed. -/
inductive Failure where
  /-- The options name no bundle. -/
  | noBundle
  /-- The bundle at the path cannot be loaded. -/
  | unloadable (path : String) (fault : Fault)
  deriving DecidableEq, Repr

/-- The wording of the reason. -/
def Failure.message : Failure → String
  | .noBundle => "No bundle file given"
  | .unloadable path fault => "Failed to load " ++ path ++ ": " ++ fault.message

/-- The bundle in what was read from a file. -/
def bundleOf (content : Except Fault (List UInt8)) : Except Fault Bundle := do
  (Bundle.load (← content)).mapError Bundle.Rejection.fault

/-- What is printed for some options, when `read` gives the contents of files. -/
def output {m : Type → Type} [Monad m] (coloured : Bool) (o : Options)
    (read : String → m (Except Fault (List UInt8))) : m (Except Failure String) := do
  match o.bundle with
  | none => return .error .noBundle
  | some path =>
    match bundleOf (← read path) with
    | .ok b => return .ok (ofBundle coloured o b)
    | .error f => return .error (.unloadable path f)

end Parley.Listing
