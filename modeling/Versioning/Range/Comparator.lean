import Versioning.Version.Precedence

set_option autoImplicit false

/-! # Comparators

A comparator is an operator with a bound, such as `>=1.2.3`. It looks at precedence only: two
versions that differ in their build are admitted alike, and so are the bounds. -/

namespace Versioning.Range

/-! ## Operators -/

/-- The relation between a version and a bound. -/
inductive Operator
  | equal
  | less
  | lessOrEqual
  | greater
  | greaterOrEqual
deriving DecidableEq

namespace Operator

/-- All operators. -/
def all : List Operator := [equal, less, lessOrEqual, greater, greaterOrEqual]

/-- The sign of an operator. -/
def sign : Operator → String
  | equal => "="
  | less => "<"
  | lessOrEqual => "<="
  | greater => ">"
  | greaterOrEqual => ">="

/-- The operator with a sign. -/
def ofSign? (sign : String) : Option Operator :=
  all.find? fun o => o.sign == sign

/-- Whether an operator bounds versions from above. -/
def boundsAbove : Operator → Bool
  | less | lessOrEqual => true
  | equal | greater | greaterOrEqual => false

end Operator

/-! ## Comparators -/

/-- A single requirement on versions. -/
structure Comparator where
  /-- How versions have to relate to the bound. -/
  operator : Operator
  bound : Version
deriving DecidableEq

namespace Comparator

/-- Whether a version relates to the bound as required. -/
def admits (c : Comparator) (v : Version) : Bool :=
  match c.operator with
  | .equal => decide (v.Equivalent c.bound)
  | .less => decide (v < c.bound)
  | .lessOrEqual => decide (v ≤ c.bound)
  | .greater => decide (c.bound < v)
  | .greaterOrEqual => decide (c.bound ≤ v)

/-- The sign of the operator, then the bound. -/
def chars (c : Comparator) : List Char :=
  c.operator.sign.toList ++ c.bound.chars

instance : ToString Comparator := ⟨fun c => String.ofList c.chars⟩

end Comparator

end Versioning.Range
