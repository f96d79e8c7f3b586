import SumScript.Context
import SumScript.Program.Parser
import SumScript.Token.Lexer

/-!
# From a text to its output

A text is read into tokens, the tokens into a program, and the program is run.
The first error ends it.  A text that cannot be read runs nothing; the lines
that were printed before a run broke off stay printed.
-/

namespace SumScript

/-- What comes of executing a text. -/
structure Outcome where
  /-- The lines printed. -/
  lines : List String
  /-- How it ended. -/
  result : Except Error Unit

section

variable {ν : Type} [NumberSystem ν]

/-- The program of a text. -/
def Program.ofSource (source : String) : Except Error (Program ν) :=
  match tokenize source with
  | .error e => .error (.lex e)
  | .ok tokens =>
      match Program.ofTokens tokens with
      | .error e => .error (.parse e)
      | .ok program => .ok program

theorem Program.ofSource_eq_ok_iff {source : String} {p : Program ν} :
    Program.ofSource source = .ok p ↔
      ∃ tokens, tokenize source = .ok tokens ∧ Program.ofTokens tokens = .ok p := by
  unfold Program.ofSource
  constructor
  · intro h
    split at h
    next => cases h
    next tokens htokens =>
      split at h
      next => cases h
      next q hread => exact ⟨tokens, htokens, hread.trans (congrArg _ (Except.ok.inj h))⟩
  · rintro ⟨tokens, htokens, hread⟩
    simp only [htokens, hread]

/-- Runs the program of a text in a context. -/
def Context.runSource (ctx : Context ν) (source : String) : Context ν × Except Error Unit :=
  match Program.ofSource source with
  | .error e => (ctx, .error e)
  | .ok program =>
      let (ctx, result) := ctx.run program
      (ctx, result.mapError .runtime)

/-- Runs the program of a text from an empty context, over the numbers `ν`. -/
def executeOver (ν : Type) [NumberSystem ν] (source : String) : Outcome :=
  let (ctx, result) := (Context.empty : Context ν).runSource source
  ⟨ctx.lines, result⟩

end

/-- Runs the program of a text from an empty context. -/
def execute (source : String) : Outcome := executeOver Double source

/-! ## Examples -/

example : (execute "new a = 10;\nnew b = 20;\nprint(a + b);\na = 5;\nprint(a - b);").lines =
    ["30", "-15"] := by decide +kernel

/-- What was printed before an error stays printed. -/
example : (execute "print(1);\nprint(x);").lines = ["1"] := by decide +kernel

/-- Over the integers nothing is rounded. -/
example : (executeOver Int "print(9007199254740993 + 0);").lines = ["9007199254740993"] := by
  decide +kernel

example : (execute "print(9007199254740993 + 0);").lines = ["9007199254740992"] := by
  decide +kernel

end SumScript
