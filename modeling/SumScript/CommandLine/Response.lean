import SumScript.CommandLine.Request
import SumScript.Trace

/-!
# Answering a command line

`respond` is the command line as a function: from the arguments and a way to
read files, the exit status, the standard output and the notes on standard
error.  A script must have the right extension and hold valid UTF-8.  It is
then executed: its lines go to the output, and an error to the notes, after
the log if diagnostics were asked for.

A note that the arguments are wrong has no wording of its own.  What is said about
them may depend on them, so `Diagnostic.text` takes it as an argument.
-/

namespace SumScript

/-- A note on standard error. -/
inductive Diagnostic where
  /-- The arguments are wrong. -/
  | usage
  /-- An event of the log. -/
  | event (e : Event)
  /-- What went wrong. -/
  | failure (message : String)
deriving DecidableEq

/-- The text of a note, where `usage` is what is said about wrong arguments. -/
def Diagnostic.text (usage : String) : Diagnostic → String
  | .usage => usage
  | .event e => e.text
  | .failure message => "Error: " ++ message

/-- What a command line does. -/
structure Response where
  /-- The exit status. -/
  status : Nat
  /-- The standard output. -/
  output : String
  /-- The notes on standard error, in order. -/
  notes : List Diagnostic

/-- How the command line is used. -/
def usageText : String := "Usage: pushkin [OPTIONS] <FILE>"

/-- The help text. -/
def helpText : String :=
  "A tiny scripting language with variables, addition, subtraction and print.\n\n" ++
  usageText ++ "\n\n" ++
  "Arguments:\n" ++
  "  <FILE>  The script to run. Must have a `.push` extension\n\n" ++
  "Options:\n" ++
  "  -v, --verbose  Print pipeline diagnostics to standard error\n" ++
  "  -h, --help     Print help\n" ++
  "  -V, --version  Print version\n"

/-- The name and the version. -/
def versionText : String := "pushkin 0.1.0\n"

/-- Whether a path has the extension of scripts. -/
def isScriptPath (path : String) : Bool := ".push".toList.isSuffixOf path.toList

/-- The path of the script that a request reads, if it reads one. -/
def Request.script? : Request → Option String
  | .run _ path => if isScriptPath path then some path else none
  | _ => none

/-- Lines, each with a line end. -/
def linesText (lines : List String) : String := String.join (lines.map (· ++ "\n"))

/-- A failure before anything was executed. -/
def Response.refuse (message : String) : Response := ⟨1, "", [.failure message]⟩

/-- The response to a script with the given text. -/
def Response.ofSource (verbose : Bool) (source : String) : Response :=
  let (outcome, events) := trace (if verbose then .debug else .warn) source
  let notes := events.toList.map Diagnostic.event
  let output := linesText outcome.lines
  match outcome.result with
  | .ok _ => ⟨0, output, notes⟩
  | .error e => ⟨1, output, notes ++ [.failure e.message]⟩

/-- The response to a request.  `read` gives the bytes of the file at a path. -/
def Request.respond (read : String → Option ByteArray) : Request → Response
  | .help => ⟨0, helpText, []⟩
  | .version => ⟨0, versionText, []⟩
  | .misuse => ⟨1, "", [.usage]⟩
  | .run verbose path =>
      if isScriptPath path then
        match (read path).bind String.fromUTF8? with
        | some source => .ofSource verbose source
        | none => .refuse ("Could not read file '" ++ path ++ "'")
      else .refuse "File must have a .push extension"

/-- The response to a command line. -/
def respond (read : String → Option ByteArray) (args : List String) : Response :=
  (Request.ofArgs args).respond read

end SumScript
