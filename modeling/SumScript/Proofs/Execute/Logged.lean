import SumScript.Proofs.Context.Failure
import SumScript.Trace

/-!
# What the log says

The log of an execution can be read off the text, without any log: `eventsOf` lists
the events stage by stage, and of the statements those that the run starts
(`Context.started`).  An execution with a log does the same as one without, and it
records just these events (`executeLogged_eq`).  A threshold only sorts out: what is
kept at a level are the events that reach it (`trace_events`).

A run that succeeds starts all of its statements, and a run that fails starts those up
to the first that fails, with this one (`Context.started_of_ok`,
`Program.FailsAt.started`).  So the log tells where a run ended.
-/

namespace SumScript

/-! ## Recording -/

/-- Whether a log with the threshold keeps the event. -/
def Event.reaches (threshold : Level) (event : Event) : Bool :=
  decide (threshold.rank ≤ event.level.rank)

/-- The log after some events. -/
def Log.recordAll (log : Log) (events : List Event) : Log := events.foldl Log.record log

theorem Log.threshold_record (log : Log) (event : Event) :
    (log.record event).threshold = log.threshold := by
  unfold Log.record
  split
  · rfl
  · rfl

theorem Log.toList_record (log : Log) (event : Event) :
    (log.record event).events.toList =
      log.events.toList ++ [event].filter (·.reaches log.threshold) := by
  by_cases h : log.threshold.rank ≤ event.level.rank
  · simp [Log.record, Event.reaches, h]
  · simp [Log.record, Event.reaches, h]

/-- A log keeps the events that reach its threshold, in order. -/
theorem Log.toList_recordAll (log : Log) (events : List Event) :
    (log.recordAll events).events.toList =
      log.events.toList ++ events.filter (·.reaches log.threshold) := by
  induction events generalizing log with
  | nil => exact (List.append_nil _).symm
  | cons event events ih =>
      have hrest := ih (log.record event)
      rw [Log.toList_record, Log.threshold_record, List.append_assoc, ← List.filter_append] at hrest
      exact hrest

/-! ## Statements that a run starts -/

section

variable {ν : Type} [NumberSystem ν]

/-- The statements that a run starts: those up to the first that fails, with this one. -/
def Context.started (ctx : Context ν) : Program ν → Program ν
  | [] => []
  | s :: p =>
      s ::
        match ctx.exec s with
        | .error _ => []
        | .ok next => next.started p

theorem Context.started_of_ok {ctx : Context ν} {p : Program ν} (h : (ctx.run p).2 = .ok ()) :
    ctx.started p = p := by
  induction p generalizing ctx with
  | nil => rfl
  | cons s p ih =>
      rw [Context.run] at h
      rw [Context.started]
      cases hexec : ctx.exec s with
      | error e =>
          rw [hexec] at h
          cases h
      | ok next =>
          rw [hexec] at h
          exact congrArg (s :: ·) (ih h)

theorem Program.FailsAt.started {p : Program ν} {ctx : Context ν} {j : Nat} {e : RuntimeError}
    (h : Program.FailsAt p ctx j e) : ctx.started p = p.take (j + 1) := by
  obtain ⟨s, hget, hok, hfails⟩ := Program.failsAt_iff.mp h
  induction p generalizing ctx j with
  | nil => cases hget
  | cons first p ih =>
      rw [Context.started, List.take_succ_cons]
      cases j with
      | zero =>
          obtain rfl : first = s := Option.some.inj hget
          have hexec : ctx.exec first = .error e := hfails
          rw [hexec, List.take_zero]
      | succ j =>
          rw [List.take_succ_cons, Context.run] at hok hfails
          cases hexec : ctx.exec first with
          | error e' =>
              rw [hexec] at hok
              cases hok
          | ok next =>
              rw [hexec] at hok hfails
              have hrest : Program.FailsAt p next j e :=
                Program.failsAt_iff.mpr ⟨s, hget, hok, hfails⟩
              exact congrArg (first :: ·) (ih hrest hget hok hfails)

/-- A run that succeeds prints a line for each `print`. -/
theorem Context.length_printed_of_ok {ctx : Context ν} {p : Program ν}
    (h : (ctx.run p).2 = .ok ()) :
    (ctx.run p).1.printed.length = ctx.printed.length + p.countP Statement.isPrint := by
  obtain ⟨hresult, -, hprinted⟩ := ctx.run_check p
  have hstops := Program.check_stops ctx.env.names p
  rw [← hresult, h] at hstops
  rw [hprinted, hstops, List.take_length]

end

/-! ## Events of an execution -/

theorem Context.runLogged_eq (ctx : Context Double) (log : Log) (p : Program Double) :
    ctx.runLogged log p = (ctx.run p, log.recordAll ((ctx.started p).map .statement)) := by
  induction p generalizing ctx log with
  | nil => rfl
  | cons s p ih =>
      rw [Context.runLogged, Context.run, Context.started]
      cases ctx.exec s with
      | error e => rfl
      | ok next => exact ih next _

/-- The events of an execution, in order. -/
def eventsOf (source : String) : List Event :=
  match tokenize source with
  | .error _ => []
  | .ok tokens =>
      .tokenized tokens.length ::
        match Program.ofTokens tokens with
        | .error _ => []
        | .ok p =>
            .parsed p.length :: .executing p.length :: .running p.length ::
              (Context.empty.started p).map .statement

/-- An execution with a log does what one without does, and records its events. -/
theorem executeLogged_eq (log : Log) (source : String) :
    executeLogged log source = (execute source, log.recordAll (eventsOf source)) := by
  simp only [executeLogged, execute, executeOver, Context.runSource, Program.ofSource, eventsOf]
  cases tokenize source with
  | error e => rfl
  | ok tokens =>
      cases hread : (Program.ofTokens tokens : Except ParseError (Program Double)) with
      | error e => simp only [hread]; rfl
      | ok p => simp only [hread, Context.runLogged_eq]; rfl

theorem trace_outcome (threshold : Level) (source : String) :
    (trace threshold source).1 = execute source := by
  rw [trace, executeLogged_eq]

theorem trace_events (threshold : Level) (source : String) :
    (trace threshold source).2.toList = (eventsOf source).filter (·.reaches threshold) := by
  rw [trace, executeLogged_eq]
  exact Log.toList_recordAll (.empty threshold) (eventsOf source)

/-- There is nothing to note about a text without tokens. -/
theorem trace_events_of_error {source : String} {e : LexError} (h : tokenize source = .error e)
    (threshold : Level) : (trace threshold source).2.toList = [] := by
  rw [trace_events, eventsOf, h]
  rfl

/-- Nothing is worth more than a note about a stage. -/
theorem trace_events_of_debug_lt {threshold : Level} (h : Level.debug.rank < threshold.rank)
    (source : String) : (trace threshold source).2.toList = [] := by
  rw [trace_events, List.filter_eq_nil_iff]
  intro event _ hreaches
  have hle : threshold.rank ≤ event.level.rank := of_decide_eq_true hreaches
  have hdebug : event.level.rank ≤ Level.debug.rank := by
    cases event with
    | statement => exact Nat.zero_le _
    | _ => exact Nat.le_refl _
  omega

/-! ## Lines -/

/-- The log of an execution from a level on, line by line. -/
def logLines (threshold : Level) (source : String) : List String :=
  (trace threshold source).2.toList.map Event.text

/-- Whether a line of a log is of the finest level. -/
def isTraceLine (line : String) : Bool := "TRACE ".toList.isPrefixOf line.toList

/-- The line about a text of so many tokens. -/
def tokenizedLine (count : Nat) : String :=
  "DEBUG pushkin::interpreter::lexer: tokenized source count=" ++ toString count

/-- The lines about a program of so many statements, up to the start of its run. -/
def programLines (count : Nat) : List String :=
  ["DEBUG pushkin::interpreter::parser::core: parsed program statements=" ++ toString count,
    "DEBUG pushkin: executing source statements=" ++ toString count,
    "DEBUG pushkin::interpreter::evaluator::core: running program statements=" ++ toString count]

/-- The line about a statement. -/
def statementLine (s : Statement Double) : String :=
  "TRACE pushkin::interpreter::evaluator::core: executing statement statement=" ++ s.logText

/-- What a message ends with, its line ends with. -/
theorem Event.text_append {event : Event} {start stop line : String}
    (hmessage : event.message = start ++ stop)
    (hline : event.level.name ++ " " ++ event.target ++ ": " ++ start = line) :
    event.text = line ++ stop := by
  rw [Event.text, hmessage, ← String.append_assoc, hline]

theorem Event.text_tokenized (count : Nat) : (Event.tokenized count).text = tokenizedLine count :=
  Event.text_append rfl rfl

theorem Event.map_text_program (count : Nat) :
    [Event.parsed count, .executing count, .running count].map Event.text = programLines count := by
  have hparsed : (Event.parsed count).text = _ := Event.text_append rfl rfl
  have hexecuting : (Event.executing count).text = _ := Event.text_append rfl rfl
  have hrunning : (Event.running count).text = _ := Event.text_append rfl rfl
  rw [List.map_cons, List.map_cons, List.map_singleton, hparsed, hexecuting, hrunning]
  rfl

theorem Event.text_statement (s : Statement Double) : (Event.statement s).text = statementLine s :=
  Event.text_append rfl rfl

/-- A line shows the level of its event. -/
theorem Event.isTraceLine_text (event : Event) :
    isTraceLine event.text = decide (event.level = .trace) := by
  have htext : event.text.toList =
      event.level.name.toList ++ ' ' :: (event.target ++ ": " ++ event.message).toList := by
    simp [Event.text]
  rw [isTraceLine, htext]
  cases event.level <;> rfl

theorem logLines_eq (threshold : Level) (source : String) :
    logLines threshold source =
      ((eventsOf source).filter (·.reaches threshold)).map Event.text := by
  rw [logLines, trace_events]

theorem logLines_trace (source : String) :
    logLines .trace source = (eventsOf source).map Event.text := by
  have hall : ∀ event ∈ eventsOf source, event.reaches .trace := by
    intro event _
    exact decide_eq_true (Nat.zero_le _)
  rw [logLines_eq, List.filter_eq_self.mpr hall]

/-- The lines of the stages are those that are not of the finest level. -/
theorem logLines_debug (source : String) :
    logLines .debug source = (logLines .trace source).filter (!isTraceLine ·) := by
  have hreaches : ∀ event ∈ eventsOf source,
      event.reaches .debug = ((!isTraceLine ·) ∘ Event.text) event := by
    intro event _
    rw [Function.comp_apply, Event.isTraceLine_text]
    cases event <;> rfl
  rw [logLines_trace, List.filter_map, ← List.filter_congr hreaches, logLines_eq]

theorem logLines_of_debug_lt {threshold : Level} (h : Level.debug.rank < threshold.rank)
    (source : String) : logLines threshold source = [] := by
  rw [logLines, trace_events_of_debug_lt h, List.map_nil]

/-! ## The account of an execution -/

/-- `Starts p outcome k`: an execution of the program with this outcome starts the first
`k` statements.  It is the run of all of them, or the last one started is the first that
fails.  Each `print` that was started has left a line, unless it is the one that failed. -/
inductive Starts (p : Program Double) (outcome : Outcome) : Nat → Prop where
  | all (result : outcome.result = .ok ())
      (lines : outcome.lines.length = p.countP Statement.isPrint) : Starts p outcome p.length
  | failed {j : Nat} {s : Statement Double} {e : RuntimeError}
      (fails : Program.FailsAt p .empty j e) (statement : p[j]? = some s)
      (result : outcome.result = .error (.runtime e))
      (lines : outcome.lines.length + (if s.isPrint then 1 else 0) =
        (p.take (j + 1)).countP Statement.isPrint) :
      Starts p outcome (j + 1)

/-- Every execution of a program starts some first part of it, and these statements are
in the log. -/
theorem exists_starts {source : String} {tokens : List Token} {p : Program Double}
    (htokens : tokenize source = .ok tokens) (hread : Program.ofTokens tokens = .ok p) :
    ∃ k, Starts p (execute source) k ∧ Context.empty.started p = p.take k := by
  rw [execute_of_ofSource (Program.ofSource_eq_ok_iff.mpr ⟨tokens, htokens, hread⟩)]
  have hlines : ∀ q : Program Double, (Context.empty.run q).2 = .ok () →
      (Context.empty.run q).1.lines.length = q.countP Statement.isPrint := by
    intro q hok
    rw [Context.lines, List.length_reverse, Context.length_printed_of_ok hok]
    exact Nat.zero_add _
  cases hresult : (Context.empty.run p).2 with
  | ok =>
      refine ⟨p.length, .all rfl (hlines p hresult), ?_⟩
      rw [Context.started_of_ok hresult, List.take_length]
  | error e =>
      obtain ⟨j, hfails⟩ := Program.exists_failsAt hresult
      obtain ⟨s, hget, hok, -⟩ := Program.failsAt_iff.mp hfails
      have hrun : (Context.empty.run p).1 = (Context.empty.run (p.take j)).1 := by
        have hlater := hfails.run (p.drop (j + 1))
        rw [List.take_append_drop] at hlater
        rw [hlater]
      refine ⟨j + 1, .failed hfails hget rfl ?_, hfails.started⟩
      rw [hrun, hlines _ hok, List.take_add_one, hget, List.countP_append, Option.toList_some,
        List.countP_singleton]

/-- The log accounts for an execution.  With all details it has nothing about a text
without tokens, one line about a text without a program, and otherwise four lines about
the stages and then one about each statement that was started.  The level of detail
changes neither the lines nor the end of an execution.  The next level has the same
lines but for those about statements, and the others have none. -/
theorem trace_accounts (source : String) :
    (∀ e, tokenize source = .error e → logLines .trace source = []) ∧
    (∀ tokens e, tokenize source = .ok tokens →
      (Program.ofTokens tokens : Except ParseError (Program Double)) = .error e →
        logLines .trace source = [tokenizedLine tokens.length]) ∧
    (∀ tokens p, tokenize source = .ok tokens → Program.ofTokens tokens = .ok p →
      ∃ k, Starts p (execute source) k ∧
        logLines .trace source =
          tokenizedLine tokens.length :: programLines p.length ++ (p.take k).map statementLine) ∧
    (∀ threshold, (trace threshold source).1 = execute source) ∧
    logLines .debug source = (logLines .trace source).filter (!isTraceLine ·) ∧
    logLines .info source = [] ∧ logLines .warn source = [] ∧ logLines .error source = [] := by
  refine ⟨?_, ?_, ?_, fun threshold => trace_outcome threshold source, logLines_debug source,
    logLines_of_debug_lt (by decide) source, logLines_of_debug_lt (by decide) source,
    logLines_of_debug_lt (by decide) source⟩
  · intro e he
    rw [logLines, trace_events_of_error he, List.map_nil]
  · intro tokens e htokens hread
    simp only [logLines_trace, eventsOf, htokens, hread]
    rw [List.map_singleton, Event.text_tokenized]
  · intro tokens p htokens hread
    obtain ⟨k, hstarts, hstarted⟩ := exists_starts htokens hread
    refine ⟨k, hstarts, ?_⟩
    have hstatements : Event.text ∘ Event.statement = statementLine :=
      funext Event.text_statement
    rw [logLines_trace, ← Event.text_tokenized, ← Event.map_text_program, ← hstatements,
      ← hstarted]
    simp only [eventsOf, htokens, hread]
    simp

/-- A text whose second statement fails. -/
def brokenText : String := "print(1);print(a);print(2);"

/-- The program of the text. -/
def brokenProgram : Program Double :=
  [.print (.number (.ofNat 1)), .print (.var "a"), .print (.number (.ofNat 2))]

/-- Two statements are started, both print, and one line is left. -/
theorem trace_brokenText :
    Program.ofSource brokenText = .ok brokenProgram ∧
      Starts brokenProgram (execute brokenText) 2 ∧
      (execute brokenText).lines = ["1"] ∧
      logLines .trace brokenText =
        tokenizedLine 16 :: programLines 3 ++ (brokenProgram.take 2).map statementLine ∧
      statementLine (.print (.var "a")) =
        "TRACE pushkin::interpreter::evaluator::core: executing statement " ++
          "statement=Print \x7b value: Identifier \x7b name: \"a\" \x7d \x7d" ∧
      logLines .debug brokenText = tokenizedLine 16 :: programLines 3 ∧
      logLines .warn brokenText = [] := by
  have hsource : Program.ofSource brokenText = .ok brokenProgram := by decide +kernel
  have hlines : (execute brokenText).lines = ["1"] := by decide +kernel
  have hcount : (tokenize brokenText).map List.length = .ok 16 := by decide +kernel
  obtain ⟨tokens, htokens, hread⟩ := Program.ofSource_eq_ok_iff.mp hsource
  obtain ⟨-, -, hlog, -, hdebug, -, hwarn, -⟩ := trace_accounts brokenText
  obtain ⟨k, hstarts, hlog⟩ := hlog tokens brokenProgram htokens hread
  have hlength : tokens.length = 16 := by
    rw [htokens] at hcount
    exact Except.ok.inj hcount
  have hk : k = 2 := by
    cases hstarts with
    | all result =>
        have hfails : (execute brokenText).result = .error (.runtime (.undeclared "a")) := by
          decide +kernel
        rw [hfails] at result
        cases result
    | @failed j s e fails =>
        have htake := congrArg List.length fails.started
        have hstarted : (Context.empty.started brokenProgram).length = 2 := by decide +kernel
        rw [hstarted, List.length_take] at htake
        change 2 = min (j + 1) 3 at htake
        omega
  have hthree : brokenProgram.length = 3 := rfl
  rw [hlength, hk, hthree] at hlog
  have hstages : ∀ line ∈ tokenizedLine 16 :: programLines 3, !isTraceLine line := by
    rw [← Event.text_tokenized, ← Event.map_text_program]
    simp [Event.isTraceLine_text, Event.level]
  have hstatements : ∀ line ∈ (brokenProgram.take 2).map statementLine, ¬ !isTraceLine line := by
    intro line hline
    obtain ⟨s, -, rfl⟩ := List.mem_map.mp hline
    rw [← Event.text_statement, Event.isTraceLine_text]
    exact Bool.false_ne_true
  refine ⟨hsource, hk ▸ hstarts, hlines, hlog, by decide +kernel, ?_, hwarn⟩
  rw [hdebug, hlog, List.filter_append, List.filter_eq_self.mpr hstages,
    List.filter_eq_nil_iff.mpr hstatements, List.append_nil]

end SumScript
