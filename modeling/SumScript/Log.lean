import SumScript.Program.Basic

/-!
# The log

The stages from a text to its output can leave notes: how many tokens there
were, how many statements, and each statement before it runs.  A note is an
`Event` with a level of detail.  A `Log` has a threshold and keeps the events
that reach it.
-/

namespace SumScript

/-! ## Levels and events -/

/-- Levels of detail, from the finest. -/
inductive Level where
  /-- Single steps. -/
  | trace
  /-- Stages. -/
  | debug
  /-- What users may want to know. -/
  | info
  /-- What may be wrong. -/
  | warn
  /-- What is wrong. -/
  | error
deriving DecidableEq

/-- The place of a level in the order of levels. -/
def Level.rank : Level → Nat
  | .trace => 0
  | .debug => 1
  | .info => 2
  | .warn => 3
  | .error => 4

/-- A note in the log. -/
inductive Event where
  /-- A text was read into so many tokens. -/
  | tokenized (count : Nat)
  /-- Tokens were read into so many statements. -/
  | parsed (statements : Nat)
  /-- A text with so many statements is executed. -/
  | executing (statements : Nat)
  /-- A program of so many statements starts. -/
  | running (statements : Nat)
  /-- A statement starts. -/
  | statement (s : Statement Double)
deriving DecidableEq

/-- The level of an event. -/
def Event.level : Event → Level
  | .statement _ => .trace
  | _ => .debug

/-! ## Texts -/

/-- The name of a level. -/
def Level.name : Level → String
  | .trace => "TRACE"
  | .debug => "DEBUG"
  | .info => "INFO"
  | .warn => "WARN"
  | .error => "ERROR"

/-- The name of an operation in the log. -/
def Operator.logName : Operator → String
  | .add => "Add"
  | .sub => "Sub"

/-- A name in quotation marks.  Only names read from a text are logged.  They are plain
words, so nothing in them has to be escaped. -/
def quoted (name : String) : String := "\"" ++ name ++ "\""

/-- A node of a tree in the log: its name and its labelled parts. -/
def logNode (name : String) (parts : List (String × String)) : String :=
  name ++ " \x7b " ++ ", ".intercalate (parts.map fun part => part.1 ++ ": " ++ part.2) ++ " \x7d"

/-- An expression in the log. -/
def Expr.logText : Expr Double → String
  | .number value => logNode "Number" [("value", value.logText)]
  | .var name => logNode "Identifier" [("name", quoted name)]
  | .binary op left right =>
      logNode "Binary" [("op", op.logName), ("left", left.logText), ("right", right.logText)]

/-- A statement in the log. -/
def Statement.logText : Statement Double → String
  | .declare name value =>
      logNode "VariableDeclaration" [("name", quoted name), ("value", value.logText)]
  | .assign name value => logNode "Assignment" [("name", quoted name), ("value", value.logText)]
  | .print value => logNode "Print" [("value", value.logText)]

/-- The part of the program that an event comes from. -/
def Event.target : Event → String
  | .tokenized _ => "pushkin::interpreter::lexer"
  | .parsed _ => "pushkin::interpreter::parser::core"
  | .executing _ => "pushkin"
  | .running _ => "pushkin::interpreter::evaluator::core"
  | .statement _ => "pushkin::interpreter::evaluator::core"

/-- What an event says. -/
def Event.message : Event → String
  | .tokenized count => "tokenized source count=" ++ toString count
  | .parsed statements => "parsed program statements=" ++ toString statements
  | .executing statements => "executing source statements=" ++ toString statements
  | .running statements => "running program statements=" ++ toString statements
  | .statement s => "executing statement statement=" ++ s.logText

/-- The line of an event, without the time of the event that stands in front. -/
def Event.text (event : Event) : String :=
  event.level.name ++ " " ++ event.target ++ ": " ++ event.message

/-! ## Logs -/

/-- The events noted so far. -/
structure Log where
  /-- The finest level that is kept. -/
  threshold : Level
  /-- The events kept, in order. -/
  events : Array Event

/-- The log before the first event. -/
def Log.empty (threshold : Level) : Log := ⟨threshold, #[]⟩

/-- The log after an event, which is kept if its level reaches the threshold. -/
def Log.record (log : Log) (event : Event) : Log :=
  if log.threshold.rank ≤ event.level.rank then { log with events := log.events.push event }
  else log

end SumScript
