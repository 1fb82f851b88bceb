import Parley.Files
import Parley.Listing

/-!
# The program

Shows the messages of a conversation that was dumped into a file. Colours are used when the output
is not redirected and the environment does not forbid them.
-/

namespace Parley

/-- The part of the environment that overrides options. -/
def readEnvironment : IO Environment := do
  return {
    initialCount := ← IO.getEnv "ACCORD_INITIAL_MESSAGES"
    moreCount := ← IO.getEnv "ACCORD_MORE_MESSAGES"
    json := (← IO.getEnv "ACCORD_JSON").isSome }

/-- The content of a file. -/
def readFile (path : String) : IO (Except Fault (List UInt8)) := do
  try
    return .ok (← IO.FS.readBinFile path).toList
  catch e =>
    return .error (problemOf e).fault
where
  /-- The reason behind an error of the operating system. -/
  problemOf : IO.Error → FileProblem
    | .noFileOrDirectory .. => .missing
    | .inappropriateType .. => .notDirectory
    | e => .other (toString e)

/-- Colours may be used. -/
def usesColours : IO Bool := do
  if (← IO.getEnv "CLICOLOR_FORCE").any (· != "0") then return true
  else if (← IO.getEnv "NO_COLOR").isSome then return false
  else if (← IO.getEnv "CLICOLOR").any (· == "0") then return false
  else (← IO.getStdout).isTty

end Parley

/-- Runs the program: the listing goes to the output, a problem to the error output. -/
def main (args : List String) : IO UInt32 := do
  match Parley.Options.ofArguments (Parley.Options.defaultProgram :: args)
      (← Parley.readEnvironment) with
  | .error p =>
    IO.eprintln ("Error: Configuration error: " ++ p.fault.message)
    return 1
  | .ok options =>
    match ← Parley.Listing.output (← Parley.usesColours) options Parley.readFile with
    | .ok text =>
      IO.print text
      return 0
    | .error f =>
      IO.eprintln ("Error: " ++ f.message)
      return 1
