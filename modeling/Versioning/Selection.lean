import Versioning.Range.Basic

set_option autoImplicit false

/-! # Selecting and sorting texts

The functions here take versions as texts, read them as tags with `Version.parseTagged`, and give
back the texts as they were written. A text that is no version satisfies no range, and is left out
of a sorted list. Sorting is stable both ways: texts of equal precedence keep their order. -/

namespace Versioning

/-! ## Satisfaction -/

/-- Whether a text is a version that a range admits. -/
def Range.admitsText (r : Range) (text : String) : Bool :=
  match Version.parseTagged text with
  | .ok v => r.admits v
  | .error _ => false

/-- Whether a version satisfies a range expression, both given as texts. -/
def satisfies (version range : String) : Bool :=
  match Range.parse range with
  | .ok r => r.admitsText version
  | .error _ => false

/-- The lowest version of a range expression. -/
def minimumOf? (range : String) : Option Version :=
  match Range.parse range with
  | .ok r => r.minimum?
  | .error _ => none

/-- The texts that satisfy a range expression, in their order. -/
def satisfying (versions : List String) (range : String) : List String :=
  match Range.parse range with
  | .ok r => versions.filter r.admitsText
  | .error _ => []

/-! ## Sorting -/

/-- The texts that are versions, each with its version, in their order. -/
def readable (versions : List String) : List (Version × String) :=
  versions.filterMap fun text => (Version.parseTagged text).toOption.map fun v => (v, text)

/-- The texts that are versions, in ascending order of precedence. -/
def ascending (versions : List String) : List String :=
  ((readable versions).mergeSort fun a b => decide (a.1 ≤ b.1)).map Prod.snd

/-- The texts that are versions, in descending order of precedence. -/
def descending (versions : List String) : List String :=
  ((readable versions).mergeSort fun a b => decide (b.1 ≤ a.1)).map Prod.snd

/-! ## Extremes -/

/-- The highest text that satisfies a range expression; of equal ones, the first listed. -/
def highestSatisfying? (versions : List String) (range : String) : Option String :=
  (descending (satisfying versions range)).head?

/-- The lowest text that satisfies a range expression; of equal ones, the first listed. -/
def lowestSatisfying? (versions : List String) (range : String) : Option String :=
  (ascending (satisfying versions range)).head?

end Versioning
