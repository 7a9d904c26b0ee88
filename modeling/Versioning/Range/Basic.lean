import Versioning.Range.Branch

set_option autoImplicit false

/-! # Ranges

A range is a list of branches, written with `||` between them, and admits what any of them admits.
Only a blank text is no range: a branch that cannot be read admits nothing and leaves the others as
they are. `Range.defects` lists what is wrong with the branches of a text. -/

namespace Versioning

/-- A range expression. -/
structure Range where
  /-- The alternatives, as they were written. -/
  branches : List Range.Branch
  /-- The text that was read. -/
  source : String
deriving DecidableEq

namespace Range

/-! ## Reading -/

/-- Why a text is no range. -/
inductive Fault
  /-- There is no text but blanks. -/
  | empty
deriving DecidableEq

/-- The wording of a fault. -/
def Fault.message : Fault → String
  | empty => "Range expression is empty"

/-- A text with a character in front of its first piece. -/
def pushFront (c : Char) : List (List Char) → List (List Char)
  | [] => [[c]]
  | piece :: pieces => (c :: piece) :: pieces

/-- The pieces of a text between the marks `||`, found from the left. -/
def alternatives : List Char → List (List Char)
  | [] => [[]]
  | '|' :: '|' :: cs => [] :: alternatives cs
  | c :: cs => pushFront c (alternatives cs)

/-- The branches of a text without the blanks around them, each with how it reads. -/
def readings (text : String) : Except Fault (List (String × Except Shape.Defect Shape)) :=
  let cs := Text.trim Text.isBlank text.toList
  if cs.isEmpty then .error .empty
  else .ok <| (alternatives cs).map fun piece =>
    let branch := Text.trim Text.isBlank piece
    (String.ofList branch, Shape.read branch)

/-- Read a range. -/
def parse (text : String) : Except Fault Range := do
  let readings ← readings text
  return ⟨readings.map fun (label, reading) => ⟨Shape.ofReading reading, some label⟩, text⟩

/-- What is wrong with the branches of a text, from left to right. -/
def defects (text : String) : List Shape.Defect :=
  match readings text with
  | .error _ => []
  | .ok readings => readings.filterMap fun (_, reading) =>
      match reading with
      | .error d => some d
      | .ok _ => none

/-! ## Meaning -/

/-- Whether any branch admits a version. -/
def admits (r : Range) (v : Version) : Bool :=
  r.branches.any (·.admits v)

/-- The lowest of the lowest versions of the branches; of equal ones, that of the first branch. -/
def minimum? (r : Range) : Option Version :=
  Version.firstLowest? (r.branches.filterMap Branch.minimum?)

instance : ToString Range := ⟨fun r => " || ".intercalate (r.branches.map toString)⟩

/-! ## How the lowest version comes about -/

/-- A remark on the way to the lowest version of a range. -/
inductive Remark
  /-- The candidate of a conjunction does not satisfy all its comparators. -/
  | outOfBounds (c : Conjunction) (candidate : Version)
  /-- The candidate of a conjunction is its lowest version. -/
  | resolved (c : Conjunction) (candidate : Version)
  /-- A branch has a lowest version. -/
  | branchMinimum (b : Branch) (minimum : Version)

/-- The remark on a conjunction whose lowest version is computed from its bounds. -/
def Shape.remarks : Shape → List Remark
  | conjunction c =>
      match c.fixedMinimum, c.candidate? with
      | none, some v => [if c.admits v then .resolved c v else .outOfBounds c v]
      | _, _ => []
  | _ => []

/-- The remarks on a branch. -/
def Branch.remarks (b : Branch) : List Remark :=
  b.shape.remarks ++ (b.minimum?.map (.branchMinimum b)).toList

/-- The remarks on the lowest version of a range, branch by branch. -/
def remarks (r : Range) : List Remark :=
  r.branches.flatMap Branch.remarks

end Range

end Versioning
