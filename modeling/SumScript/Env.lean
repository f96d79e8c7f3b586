/-!
# Environments

An environment holds the variables that exist and their values.  It is a list
of entries in the order of declaration, with at most one entry to a name as long
as it is changed by `put` alone.  All that programs can see of it is `get?`.
-/

namespace SumScript

/-- The values of the variables that exist. -/
structure Env (ν : Type) where
  /-- The variables in the order of their declaration. -/
  entries : List (String × ν)

namespace Env

variable {ν : Type}

/-- The environment without variables. -/
def empty : Env ν := ⟨[]⟩

/-- The value of a variable; none if it does not exist. -/
def get? (env : Env ν) (name : String) : Option ν :=
  (env.entries.find? (·.1 = name)).map (·.2)

/-- The entries with a value put in for a name: in its old place, or at the end if
the name is new. -/
def putEntry (name : String) (value : ν) : List (String × ν) → List (String × ν)
  | [] => [(name, value)]
  | entry :: entries =>
      if entry.1 = name then (name, value) :: entries
      else entry :: putEntry name value entries

/-- The environment in which a variable has a value, whether it existed or not. -/
def put (env : Env ν) (name : String) (value : ν) : Env ν :=
  ⟨putEntry name value env.entries⟩

/-- A variable that was put in has the value given, and the others are unchanged. -/
theorem get?_put (env : Env ν) (name : String) (value : ν) (other : String) :
    (env.put name value).get? other = if other = name then some value else env.get? other := by
  obtain ⟨entries⟩ := env
  induction entries with
  | nil =>
      by_cases h : other = name
      · simp [put, putEntry, get?, h]
      · simp [put, putEntry, get?, h, Ne.symm h]
  | cons entry entries ih =>
      simp only [put, putEntry, get?] at ih ⊢
      by_cases hentry : entry.1 = name
      · by_cases h : other = name
        · simp [hentry, h]
        · simp [hentry, h, Ne.symm h]
      · by_cases h : entry.1 = other
        · have hne : other ≠ name := h ▸ hentry
          simp [h, hne]
        · simp only [hentry, if_false, List.find?_cons, h, decide_false]
          exact ih

end Env

end SumScript
