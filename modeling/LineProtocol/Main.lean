import LineProtocol.Project.Task
/-!
# The command line

Shows what a task would do in a project whose paths are read from standard
input, one in each line.  The log of the task goes to standard error, and the
paths that are left go to standard output.  Nothing is removed, and the
children count as successful.
-/

namespace LineProtocol

def projectOf (paths : List Text) : Project where
  location := [Text.ofString "project"]
  surroundings := .empty
  interpreter := "python3"
  tree := .ofTexts paths
  exitCodes := []

/-- A text as the system writes it. -/
def written (t : Text) : String := String.ofList (t.map fun c => Char.ofNat c.val)

/-- The lines that are left in a stream. -/
partial def readLines (input : IO.FS.Stream) : IO (List Text) := do
  let line ← input.getLine
  if line.isEmpty then return []
  return (Text.ofString line).filter (· != '\n') :: (← readLines input)

end LineProtocol

open LineProtocol in
/-- Carries out the task that the arguments name. -/
def main (args : List String) : IO UInt32 := do
  let project := projectOf (← readLines (← IO.getStdin))
  let report := project.commandLine (args.map Text.ofString)
  IO.eprint (written report.log)
  if let .failed fault := report.ending then IO.eprintln (written fault.text)
  report.project.tree.top.listing.forM fun path => IO.println (written path)
  return report.ending.status.toUInt32
