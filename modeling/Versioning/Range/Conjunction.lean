import Versioning.Range.Item
import Versioning.Release.Step
import Versioning.Version.Lenient

set_option autoImplicit false

/-! # Conjunctions

A conjunction is a set of comparators that must all hold, kept as a list of lower and a list of
upper bounds. It admits an interval of versions.

Its lowest version is computed from the lower bounds alone, as the highest of what each of them
starts at, and is then tested against all comparators. A bound `>v` is taken to start at the next
patch of `v`. Where nothing at or above `0.0.0` can do because the interval ends at a pre-release of
`0.0.0`, the lowest version of all is tried. A branch of bare versions and a dash branch fix their
lowest version instead, whatever the bounds say. -/

namespace Versioning.Range

/-- One to three runs of ASCII digits, with dots between them. -/
def IsRuns (cs : List Char) : Prop :=
  (cs.splitOn '.').length ≤ 3
    ∧ ∀ piece ∈ cs.splitOn '.', piece ≠ [] ∧ ∀ c ∈ piece, c.isDigit = true

/-- The test whether a text is one to three runs of digits. -/
def isRuns (cs : List Char) : Bool :=
  let pieces := cs.splitOn '.'
  pieces.length ≤ 3 && pieces.all fun piece => !piece.isEmpty && piece.all Char.isDigit

theorem isRuns_iff {cs : List Char} : isRuns cs = true ↔ IsRuns cs := by
  simp [isRuns, IsRuns]

instance (cs : List Char) : Decidable (IsRuns cs) :=
  decidable_of_iff _ isRuns_iff

/-- Comparators that must all hold. -/
structure Conjunction where
  /-- Comparators that are listed first; the lower bounds, where a branch was read. -/
  lower : List Comparator
  /-- Comparators that are listed last; the upper bounds, where a branch was read. -/
  upper : List Comparator
  /-- The lowest version, where it is not computed from the bounds. -/
  fixedMinimum : Option Version := none
deriving DecidableEq

namespace Conjunction

/-! ## Admission -/

/-- All comparators, as they are listed. -/
def comparators (c : Conjunction) : List Comparator := c.lower ++ c.upper

/-- Whether a version satisfies all comparators. -/
def admits (c : Conjunction) (v : Version) : Bool :=
  c.comparators.all (·.admits v)

/-- The comparators, separated by a space; without any, the sign for all versions. -/
def chars (c : Conjunction) : List Char :=
  if c.comparators.isEmpty then ['*'] else [' '].intercalate (c.comparators.map Comparator.chars)

instance : ToString Conjunction := ⟨fun c => String.ofList c.chars⟩

/-! ## The lowest version -/

/-- The version a bound starts at: the next patch behind a strict bound, else the bound. -/
def startOf (c : Comparator) : Except Fault Version :=
  match c.operator with
  | .greater => c.bound.advance .patch
  | _ => .ok c.bound

/-- The highest of what the lower bounds start at; none where a next patch does not fit. -/
def start? (c : Conjunction) : Option Version :=
  (c.lower.mapM fun b => (startOf b).toOption).map fun vs => (Version.firstHighest? vs).getD .zero

/-- Whether a version is `0.0.0` but for its pre-release and its build. -/
def isZero (v : Version) : Bool :=
  decide (v.release = .zero)

/-- Whether the versions have to lie below a pre-release of `0.0.0`. -/
def endsBelowZero (c : Conjunction) : Bool :=
  c.upper.any fun b => b.operator == .less && b.bound.isPreRelease && isZero b.bound

/-- The version to be tested as the lowest. -/
def candidate? (c : Conjunction) : Option Version :=
  c.start?.map fun v =>
    if c.endsBelowZero && !v.isPreRelease && isZero v then .lowest else v

/-- The lowest version of a conjunction. -/
def minimum? (c : Conjunction) : Option Version :=
  match c.fixedMinimum with
  | some v => some v
  | none => c.candidate?.filter c.admits

/-! ## Reading -/

/-- The conjunction of some comparators, parted into lower and upper bounds. -/
def ofComparators (cs : List Comparator) (fixedMinimum : Option Version) : Conjunction :=
  ⟨cs.filter (!·.operator.boundsAbove), cs.filter (·.operator.boundsAbove), fixedMinimum⟩

/-- Read a branch as a list of items. Loose text is refused beside a sigil. In a branch without any
    sigil, the first version found in the text is the lowest, and with loose text the only one. -/
def ofItems? (cs : List Char) : Option Conjunction := do
  let items := items cs
  let comparators ← items.mapM Item.comparators?
  if items.any (·.sigil.isSome) then
    if items.any Item.isLoose then none else some (ofComparators comparators.flatten none)
  else
    let found ← Version.findInChars? cs
    if items.any Item.isLoose then some (ofComparators [⟨.equal, found⟩] (some found))
    else some (ofComparators comparators.flatten (some found))

/-- The texts of the two ends of a branch of the form `A - B`. -/
def dashEnds? (cs : List Char) : Option (List Char × List Char) :=
  match Text.words cs with
  | [start, ['-'], stop] => if IsRuns start ∧ IsRuns stop then some (start, stop) else none
  | _ => none

/-- From one operand up to another. What is found in the text of the first is the lowest version,
    even of an interval that is empty. -/
def between? (start stop : List Char) : Option Conjunction := do
  let first ← Operand.ofChars? start
  let last ← Operand.ofChars? stop
  let upper ← last.upToEnd?
  let found ← Version.findInChars? start
  return ofComparators (⟨.greaterOrEqual, first.floor⟩ :: upper) (some found)

/-- Read a branch: in the form `A - B`, or as a list of items. -/
def ofChars? (cs : List Char) : Option Conjunction :=
  match dashEnds? cs with
  | some (start, stop) => between? start stop
  | none => ofItems? cs

end Conjunction

end Versioning.Range
