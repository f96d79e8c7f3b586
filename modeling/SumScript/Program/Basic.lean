import SumScript.NumberSystem

/-!
# Programs

A program is a list of statements.  A statement declares a variable, gives a
new value to one, or prints a value, and the value is a tree of sums and
differences over numbers and variables.  Trees may take any shape; those that
are read from a text lean to the left.

The numbers in a program are of any type `ν`.  A text gives its numbers through
a `NumberSystem`, and a program built by hand may hold any.
-/

namespace SumScript

/-- The operations on numbers. -/
inductive Operator where
  /-- Addition. -/
  | add
  /-- Subtraction. -/
  | sub
deriving DecidableEq

/-- The sign of an operation. -/
def Operator.symbol : Operator → String
  | .add => "+"
  | .sub => "-"

/-- The result of an operation. -/
def Operator.apply {ν : Type} [NumberSystem ν] : Operator → ν → ν → ν
  | .add => NumberSystem.add
  | .sub => NumberSystem.sub

/-- An expression over the numbers `ν`. -/
inductive Expr (ν : Type) where
  /-- A number. -/
  | number (value : ν)
  /-- The value of a variable. -/
  | var (name : String)
  /-- An operation on two values. -/
  | binary (op : Operator) (left right : Expr ν)
deriving DecidableEq

/-- A statement over the numbers `ν`. -/
inductive Statement (ν : Type) where
  /-- Makes a variable and gives it a value. -/
  | declare (name : String) (value : Expr ν)
  /-- Gives a variable another value. -/
  | assign (name : String) (value : Expr ν)
  /-- Prints a value. -/
  | print (value : Expr ν)
deriving DecidableEq

/-- A program: its statements in order. -/
abbrev Program (ν : Type) := List (Statement ν)

/-! ## Equality of programs over the doubles

Two programs are the same when they have the same shape, the same names and the
same numbers.  Numbers are compared as numbers: a zero is the same as a negative
zero, and a program with a value that is not a number is not even the same as
itself.
-/

/-- Whether two expressions are the same. -/
def Expr.same : Expr Double → Expr Double → Bool
  | .number x, .number y => x.sameNumber y
  | .var m, .var n => m == n
  | .binary o a b, .binary p c d => o == p && a.same c && b.same d
  | _, _ => false

/-- Whether two statements are the same. -/
def Statement.same : Statement Double → Statement Double → Bool
  | .declare m a, .declare n b => m == n && a.same b
  | .assign m a, .assign n b => m == n && a.same b
  | .print a, .print b => a.same b
  | _, _ => false

/-- Whether two programs are the same. -/
def Program.same : Program Double → Program Double → Bool
  | [], [] => true
  | s :: p, t :: q => s.same t && Program.same p q
  | _, _ => false

end SumScript
