import Versioning.Range.Conjunction

set_option autoImplicit false

/-! # Branches

A branch is one of the alternatives of a range. It admits all versions, no version, or those of a
conjunction; and it may carry a label, which is how it was written. A branch that cannot be read
admits no version, and `Shape.read` says what is wrong with it. -/

namespace Versioning.Range

/-! ## Shapes -/

/-- Which versions a branch admits. -/
inductive Shape
  | everything
  | nothing
  /-- The versions that satisfy some comparators. -/
  | conjunction (c : Conjunction)
deriving DecidableEq

namespace Shape

/-- Whether a version is admitted. -/
def admits : Shape → Version → Bool
  | everything, _ => true
  | nothing, _ => false
  | conjunction c, v => c.admits v

/-- The lowest version, `0.0.0` where all are admitted. -/
def minimum? : Shape → Option Version
  | everything => some .zero
  | nothing => none
  | conjunction c => c.minimum?

/-- The text of a shape: a star, a pair of brackets, or the comparators. -/
def chars : Shape → List Char
  | everything => ['*']
  | nothing => ['[', ']']
  | conjunction c => c.chars

/-! ## Reading -/

/-- What is wrong with a branch that cannot be read. -/
inductive Defect
  /-- There is no text but blanks. -/
  | blank
  /-- The text is no conjunction. -/
  | unreadable (text : String)
deriving DecidableEq

/-- Whether all words of a text are operands without any component, which means all versions. -/
def allWildcards (cs : List Char) : Bool :=
  (Text.words cs).all fun w => (Operand.ofChars? w).any Operand.isAny

/-- Read a branch without blanks around it. -/
def read (cs : List Char) : Except Defect Shape :=
  if cs.isEmpty then .error .blank
  else if allWildcards cs then .ok everything
  else
    match Conjunction.ofChars? cs with
    | some c => .ok (conjunction c)
    | none => .error (.unreadable (String.ofList cs))

/-- The shape that was read, or that of a branch that cannot be read. -/
def ofReading : Except Defect Shape → Shape
  | .ok s => s
  | .error _ => nothing

end Shape

/-! ## Branches -/

/-- One alternative of a range. -/
structure Branch where
  shape : Shape
  /-- How the branch was written, where it is known. -/
  label : Option String := none
deriving DecidableEq

namespace Branch

/-- Whether a version is admitted. -/
def admits (b : Branch) (v : Version) : Bool := b.shape.admits v

/-- The lowest version of a branch. -/
def minimum? (b : Branch) : Option Version := b.shape.minimum?

instance : ToString Branch := ⟨fun b => String.ofList b.shape.chars⟩

/-- How a branch was written, or else its text. -/
def pretty (b : Branch) : String := b.label.getD (toString b)

end Branch

end Versioning.Range
