import SumScript.CommandLine.Response

/-!
# The command line

Reads the script that the arguments name, if they name one, and carries out
what `respond` answers.  Wrong arguments are answered with how it is used.
-/

namespace SumScript

/-- The bytes of a file; none if it cannot be read. -/
def readBytes? (path : String) : IO (Option ByteArray) := do
  try
    return some (← IO.FS.readBinFile path)
  catch _ =>
    return none

end SumScript

/-- Runs a script. -/
def main (args : List String) : IO UInt32 := do
  let content ←
    match (SumScript.Request.ofArgs args).script? with
    | some path => SumScript.readBytes? path
    | none => pure none
  let response := SumScript.respond (fun _ => content) args
  IO.print response.output
  for note in response.notes do
    IO.eprintln (note.text SumScript.usageText)
  return UInt32.ofNat response.status
