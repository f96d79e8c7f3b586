import Mathlib.Data.List.Forall2
import SumScript.Program.Basic

/-!
# The shape of a program

What the trees of a program say by themselves: the expression of each statement,
its names and its numbers, and whether it leans to the left.  Two programs have the
same *shape* if they differ in their numbers only.  They are *related* if, besides,
their numbers correspond to each other in a given way.
-/

namespace SumScript

variable {ν : Type}

/-! ## Expressions -/

/-- Whether an expression is a single operand. -/
def Expr.isLeaf : Expr ν → Bool
  | .binary _ _ _ => false
  | _ => true

/-- All right operands in an expression are leaves. -/
def Expr.LeftComb : Expr ν → Prop
  | .binary _ left right => left.LeftComb ∧ right.isLeaf
  | _ => True

/-- The names that an expression reads, from left to right. -/
def Expr.names : Expr ν → List String
  | .number _ => []
  | .var name => [name]
  | .binary _ left right => left.names ++ right.names

/-- The numbers in an expression, from left to right. -/
def Expr.numbers : Expr ν → List ν
  | .number value => [value]
  | .var _ => []
  | .binary _ left right => left.numbers ++ right.numbers

/-- An expression without its numbers. -/
def Expr.shape : Expr ν → Expr Unit
  | .number _ => .number ()
  | .var name => .var name
  | .binary op left right => .binary op left.shape right.shape

theorem Expr.names_shape (e : Expr ν) : e.shape.names = e.names := by
  induction e with
  | number => rfl
  | var => rfl
  | binary op left right ihl ihr => rw [Expr.shape, Expr.names, Expr.names, ihl, ihr]

/-! ## Statements and programs -/

/-- The expression of a statement. -/
def Statement.value : Statement ν → Expr ν
  | .declare _ value => value
  | .assign _ value => value
  | .print value => value

/-- The names in a statement: the variable that it sets, and those that it reads. -/
def Statement.names : Statement ν → List String
  | .declare name value => name :: value.names
  | .assign name value => name :: value.names
  | .print value => value.names

/-- The variable that a statement sets, if it sets one. -/
def Statement.target : Statement ν → Option String
  | .declare name _ => some name
  | .assign name _ => some name
  | .print _ => none

/-- The names in a program. -/
def Program.names (p : Program ν) : List String := p.flatMap Statement.names

/-- The variables that a program sets. -/
def Program.targets (p : Program ν) : List String := p.filterMap Statement.target

/-- Whether a statement prints. -/
def Statement.isPrint : Statement ν → Bool
  | .print _ => true
  | _ => false

/-- A statement without its numbers. -/
def Statement.shape : Statement ν → Statement Unit
  | .declare name value => .declare name value.shape
  | .assign name value => .assign name value.shape
  | .print value => .print value.shape

/-- A program without its numbers. -/
def Program.shape (p : Program ν) : Program Unit := p.map Statement.shape

theorem Statement.value_shape (s : Statement ν) : s.shape.value = s.value.shape := by
  cases s <;> rfl

theorem Statement.isPrint_shape (s : Statement ν) : s.shape.isPrint = s.isPrint := by
  cases s <;> rfl

/-! ## Programs with related numbers -/

variable {μ : Type}

/-- Expressions of the same shape whose numbers are related one by one. -/
inductive Expr.Related (r : ν → μ → Prop) : Expr ν → Expr μ → Prop where
  | number {x : ν} {y : μ} : r x y → Related r (.number x) (.number y)
  | var {name : String} : Related r (.var name) (.var name)
  | binary {op : Operator} {left right : Expr ν} {left' right' : Expr μ} :
      Related r left left' → Related r right right' →
      Related r (.binary op left right) (.binary op left' right')

/-- Statements that differ in their numbers only, and these are related. -/
inductive Statement.Related (r : ν → μ → Prop) : Statement ν → Statement μ → Prop where
  | declare {name : String} {e : Expr ν} {e' : Expr μ} : e.Related r e' →
      Related r (.declare name e) (.declare name e')
  | assign {name : String} {e : Expr ν} {e' : Expr μ} : e.Related r e' →
      Related r (.assign name e) (.assign name e')
  | print {e : Expr ν} {e' : Expr μ} : e.Related r e' → Related r (.print e) (.print e')

/-- Programs that differ in their numbers only, and these are related. -/
def Program.Related (r : ν → μ → Prop) : Program ν → Program μ → Prop :=
  List.Forall₂ (Statement.Related r)

theorem Statement.Related.value {r : ν → μ → Prop} {s : Statement ν} {s' : Statement μ}
    (h : s.Related r s') : s.value.Related r s'.value := by
  cases h with
  | declare he => exact he
  | assign he => exact he
  | print he => exact he

section

variable {r r' : ν → μ → Prop} (himp : ∀ x y, r x y → r' x y)

include himp

theorem Expr.Related.imp {e : Expr ν} {e' : Expr μ} (h : e.Related r e') : e.Related r' e' := by
  induction h with
  | number hxy => exact .number (himp _ _ hxy)
  | var => exact .var
  | binary _ _ ihl ihr => exact .binary ihl ihr

theorem Statement.Related.imp {s : Statement ν} {s' : Statement μ} (h : s.Related r s') :
    s.Related r' s' := by
  cases h with
  | declare he => exact .declare (he.imp himp)
  | assign he => exact .assign (he.imp himp)
  | print he => exact .print (he.imp himp)

theorem Program.Related.imp {p : Program ν} {q : Program μ} (h : Program.Related r p q) :
    Program.Related r' p q :=
  List.Forall₂.imp (fun _ _ hs => hs.imp himp) h

end

section

variable {r : ν → ν → Prop} (hr : ∀ x y, r x y → x = y)

include hr

theorem Expr.Related.eq {e e' : Expr ν} (h : e.Related r e') : e = e' := by
  induction h with
  | number hxy => rw [hr _ _ hxy]
  | var => rfl
  | binary _ _ ihl ihr => rw [ihl, ihr]

theorem Statement.Related.eq {s s' : Statement ν} (h : s.Related r s') : s = s' := by
  cases h with
  | declare he => rw [he.eq hr]
  | assign he => rw [he.eq hr]
  | print he => rw [he.eq hr]

theorem Program.Related.eq {p q : Program ν} (h : Program.Related r p q) : p = q := by
  induction h with
  | nil => rfl
  | cons hs _ ih => rw [hs.eq hr, ih]

end

section

variable {r : ν → ν → Prop} (hr : ∀ x y, r x y → r y x)

include hr

theorem Expr.Related.symm {e e' : Expr ν} (h : e.Related r e') : e'.Related r e := by
  induction h with
  | number hxy => exact .number (hr _ _ hxy)
  | var => exact .var
  | binary _ _ ihl ihr => exact .binary ihl ihr

theorem Statement.Related.symm {s s' : Statement ν} (h : s.Related r s') : s'.Related r s := by
  cases h with
  | declare he => exact .declare (he.symm hr)
  | assign he => exact .assign (he.symm hr)
  | print he => exact .print (he.symm hr)

theorem Program.Related.symm {p q : Program ν} (h : Program.Related r p q) :
    Program.Related r q p := by
  induction h with
  | nil => exact .nil
  | cons hs _ ih => exact .cons (hs.symm hr) ih

end

section

variable {r : ν → ν → Prop} (hr : ∀ x y z, r x y → r y z → r x z)

include hr

theorem Expr.Related.trans {e e' e'' : Expr ν} (h : e.Related r e') (h' : e'.Related r e'') :
    e.Related r e'' := by
  induction h generalizing e'' with
  | number hxy =>
      cases h' with
      | number hyz => exact .number (hr _ _ _ hxy hyz)
  | var => exact h'
  | binary _ _ ihl ihr =>
      cases h' with
      | binary hleft hright => exact .binary (ihl hleft) (ihr hright)

theorem Statement.Related.trans {s s' s'' : Statement ν} (h : s.Related r s')
    (h' : s'.Related r s'') : s.Related r s'' := by
  cases h with
  | declare he =>
      cases h' with
      | declare he' => exact .declare (he.trans hr he')
  | assign he =>
      cases h' with
      | assign he' => exact .assign (he.trans hr he')
  | print he =>
      cases h' with
      | print he' => exact .print (he.trans hr he')

theorem Program.Related.trans {p q q' : Program ν} (h : Program.Related r p q)
    (h' : Program.Related r q q') : Program.Related r p q' := by
  induction h generalizing q' with
  | nil => exact h'
  | cons hs _ ih =>
      cases h' with
      | cons hs' hrest => exact .cons (hs.trans hr hs') (ih hrest)

end

theorem Expr.related_self_iff {r : ν → ν → Prop} {e : Expr ν} :
    e.Related r e ↔ ∀ x ∈ e.numbers, r x x := by
  induction e with
  | number value =>
      constructor
      · intro h
        cases h with
        | number hvalue => simpa [Expr.numbers] using hvalue
      · intro h
        exact .number (h value (List.mem_singleton_self value))
  | var name => simpa [Expr.numbers] using Expr.Related.var
  | binary op left right ihl ihr =>
      rw [Expr.numbers, List.forall_mem_append, ← ihl, ← ihr]
      constructor
      · intro h
        cases h with
        | binary hleft hright => exact ⟨hleft, hright⟩
      · rintro ⟨hleft, hright⟩
        exact .binary hleft hright

theorem Statement.related_self_iff {r : ν → ν → Prop} {s : Statement ν} :
    s.Related r s ↔ ∀ x ∈ s.value.numbers, r x x := by
  rw [← Expr.related_self_iff]
  refine ⟨Statement.Related.value, fun h => ?_⟩
  cases s with
  | declare name e => exact .declare h
  | assign name e => exact .assign h
  | print e => exact .print h

/-- A program is related to itself if each of its numbers is. -/
theorem Program.related_self_iff {r : ν → ν → Prop} {p : Program ν} :
    Program.Related r p p ↔ ∀ s ∈ p, ∀ x ∈ s.value.numbers, r x x := by
  rw [Program.Related, List.forall₂_same]
  exact forall₂_congr fun _ _ => Statement.related_self_iff

end SumScript
