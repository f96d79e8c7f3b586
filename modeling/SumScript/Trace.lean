import SumScript.Execute
import SumScript.Log

/-!
# Execution with a log

The same way from a text to its output as in `execute`, with a log carried
along.  Each stage is noted once it is done, a run and each of its statements
before it starts.  A stage that fails is not noted.
-/

namespace SumScript

/-- Runs statements until one fails and notes each before it starts. -/
def Context.runLogged (ctx : Context Double) (log : Log) :
    Program Double → (Context Double × Except RuntimeError Unit) × Log
  | [] => ((ctx, .ok ()), log)
  | statement :: program =>
      let log := log.record (.statement statement)
      match ctx.exec statement with
      | .error e => ((ctx, .error e), log)
      | .ok ctx => ctx.runLogged log program

/-- Runs the program of a text from an empty context and notes the stages. -/
def executeLogged (log : Log) (source : String) : Outcome × Log :=
  match tokenize source with
  | .error e => (⟨[], .error (.lex e)⟩, log)
  | .ok tokens =>
      let log := log.record (.tokenized tokens.length)
      match Program.ofTokens tokens with
      | .error e => (⟨[], .error (.parse e)⟩, log)
      | .ok program =>
          let log := log.record (.parsed program.length)
          let log := log.record (.executing program.length)
          let log := log.record (.running program.length)
          let ((ctx, result), log) := Context.empty.runLogged log program
          (⟨ctx.lines, result.mapError .runtime⟩, log)

/-- Executes a text and gives back the events from a level of detail on. -/
def trace (threshold : Level) (source : String) : Outcome × Array Event :=
  let (outcome, log) := executeLogged (.empty threshold) source
  (outcome, log.events)

end SumScript
