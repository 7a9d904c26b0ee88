import Versioning.Range.Comparator
import Versioning.Text.Pieces

set_option autoImplicit false

/-! # Operands

An operand is a version in which trailing components may be missing or wildcards: `1`, `1.2.x`,
`v1.2.3-beta`, `*`. The numerals up to the first wildcard are its given components, at most three
(`length_components_le`).

An operand stands for a set of versions that share a beginning with it. `floor` is the lowest of
them, and `ceiling? i` is what lies just above all versions that agree with it on the components up
to `i`: the component `i` is counted up, those behind it are zero, and the pre-release `0` keeps out
the pre-releases of the next such version too. Where counting up fails, there is no ceiling. -/

namespace Versioning.Range

/-- A version whose trailing components may be missing. -/
structure Operand where
  /-- The given components, the most significant first. -/
  components : List Numeral
  /-- The pre-release identifiers; none if there is no pre-release. -/
  preRelease : List Identifier
  build : List Word
deriving DecidableEq

namespace Operand

/-! ## Reading -/

/-- Whether a piece of an operand is a wildcard. -/
def isWildcard (piece : List Char) : Bool :=
  piece == ['x'] || piece == ['X'] || piece == ['*']

/-- A component: `some` numeral, whatever zeros it starts with, or a wildcard, `none`. -/
def component? (piece : List Char) : Option (Option Numeral) :=
  if isWildcard piece then some none else (Numeral.ofDigits? piece).map some

/-- The components before the first wildcard. -/
def given : List (Option Numeral) → List Numeral
  | some n :: rest => n :: given rest
  | _ => []

/-- A dotted list that may be absent, each piece accepted by `read`. -/
def pieces? {α : Type} (read : List Char → Option α) : Option (List Char) → Option (List α)
  | none => some []
  | some cs => (cs.splitOn '.').mapM read

/-- An operand without the mark `v` that may stand in front. -/
def unmarked : List Char → List Char
  | 'v' :: cs => cs
  | cs => cs

/-- Read an operand: a build behind the first `+`, a pre-release behind the first `-` before it, and
    one to three components. -/
def ofChars? (cs : List Char) : Option Operand := do
  let (front, build) := Text.cut '+' (unmarked cs)
  let (core, preRelease) := Text.cut '-' front
  let components ← (core.splitOn '.').mapM component?
  let preRelease ← pieces? Identifier.ofChars? preRelease
  let build ← pieces? Word.ofChars? build
  if components.length ≤ 3 then some ⟨given components, preRelease, build⟩ else none

theorem length_given_le (cs : List (Option Numeral)) : (given cs).length ≤ cs.length := by
  induction cs with
  | nil => exact Nat.le_refl _
  | cons c cs ih =>
      cases c with
      | none => exact Nat.zero_le _
      | some n => exact Nat.succ_le_succ ih

/-- At most three components are given. -/
theorem length_components_le {cs : List Char} {p : Operand} (h : ofChars? cs = some p) :
    p.components.length ≤ 3 := by
  simp only [ofChars?, Option.bind_eq_bind, Option.bind_eq_some_iff] at h
  obtain ⟨components, _, preRelease, _, build, _, h⟩ := h
  split at h
  · next hlen =>
      cases h
      exact Nat.le_trans (length_given_le components) hlen
  · cases h

/-! ## The versions an operand stands for -/

/-- Whether no component is given. -/
def isAny (p : Operand) : Bool := p.components.isEmpty

/-- Whether all three components are given. -/
def isFull (p : Operand) : Bool := p.components.length == 3

/-- A version of given components, filled up with zeros. -/
def fill (components : List Numeral) (preRelease : List Identifier) (build : List Word) : Version :=
  ⟨components[0]?.getD .zero, components[1]?.getD .zero, components[2]?.getD .zero,
    preRelease, build⟩

/-- The operand with its missing components zero. -/
def floor (p : Operand) : Version :=
  fill p.components p.preRelease p.build

/-- What lies just above the versions that agree with the operand on the components up to `i`. -/
def ceiling? (p : Operand) (i : Nat) : Option Version := do
  let next ← (p.components[i]?.getD .zero).next?
  return fill (p.components.take i ++ [next]) [.zero] []

/-- The place of the last given component. -/
def lastPlace (p : Operand) : Nat := p.components.length - 1

/-- The place of the first given component that is not zero, or of the last if all are zero. -/
def leadingPlace (p : Operand) : Nat :=
  (p.components.findIdx? (· != .zero)).getD p.lastPlace

/-- The place of the minor component if it is given, else of the major component. -/
def minorPlace (p : Operand) : Nat := min p.lastPlace 1

/-! ## Comparators of an operand -/

/-- From the floor up to the ceiling at a place; without an end if no component is given. -/
def upTo? (p : Operand) (i : Nat) : Option (List Comparator) :=
  if p.isAny then some [⟨.greaterOrEqual, p.floor⟩]
  else (p.ceiling? i).map fun top => [⟨.greaterOrEqual, p.floor⟩, ⟨.less, top⟩]

/-- The versions that an operand alone stands for: a full operand stands for itself, a shorter one
    for all that begin with it, and one without components asks for nothing. -/
def span? (p : Operand) : Option (List Comparator) :=
  if p.isFull then some [⟨.equal, p.floor⟩]
  else if p.isAny then some []
  else p.upTo? p.lastPlace

/-- Up to an operand as the end of an interval: a full operand is the last version itself, and a
    shorter one lets in all that begin with it. -/
def upToEnd? (p : Operand) : Option (List Comparator) :=
  if p.isFull then some [⟨.lessOrEqual, p.floor⟩]
  else if p.isAny then some []
  else (p.ceiling? p.lastPlace).map fun top => [⟨.less, top⟩]

end Operand

end Versioning.Range
