import Versioning.Identifier
import Versioning.Text.Pieces

set_option autoImplicit false

/-! # Versions

A version is three numerals with an optional pre-release and an optional build. Both options are
lists, and a list that is empty is one that is not there: `1.2.3` has no pre-release identifier,
`1.2.3-0` has one. Every component carries its form, so every version can be written, and what is
written is in the grammar of versions. -/

namespace Versioning

/-- A version `major.minor.patch`, with a pre-release after `-` and a build after `+`. -/
structure Version where
  major : Numeral
  minor : Numeral
  patch : Numeral
  /-- The pre-release identifiers; none for a release. -/
  preRelease : List Identifier := []
  /-- The words of the build, which never matter for precedence. -/
  build : List Word := []
deriving DecidableEq

namespace Version

/-! ## Parts -/

/-- The version `0.0.0`. -/
def zero : Version := ⟨.zero, .zero, .zero, [], []⟩

/-- The version `0.0.0-0`, below every other. -/
def lowest : Version := ⟨.zero, .zero, .zero, [.zero], []⟩

/-- Whether a version has a pre-release. -/
def isPreRelease (v : Version) : Bool := !v.preRelease.isEmpty

/-- The version without its pre-release and its build. -/
def release (v : Version) : Version := ⟨v.major, v.minor, v.patch, [], []⟩

/-- The three numerals, from the most significant. -/
def components (v : Version) : List Numeral := [v.major, v.minor, v.patch]

/-! ## Writing -/

/-- The three numerals, joined by dots. -/
def coreChars (v : Version) : List Char :=
  Text.dotted (v.components.map Numeral.digits)

/-- The text of a version: numerals, then the pre-release behind `-`, then the build behind `+`. -/
def chars (v : Version) : List Char :=
  v.coreChars ++ Text.marked '-' (v.preRelease.map Identifier.chars)
    ++ Text.marked '+' (v.build.map Word.chars)

instance : ToString Version := ⟨fun v => String.ofList v.chars⟩

/-- The text of the pre-release, if there is one. -/
def preReleaseText? (v : Version) : Option String :=
  if v.preRelease.isEmpty then none
  else some (String.ofList (Text.dotted (v.preRelease.map Identifier.chars)))

/-- The text of the build, if there is one. -/
def buildText? (v : Version) : Option String :=
  if v.build.isEmpty then none
  else some (String.ofList (Text.dotted (v.build.map Word.chars)))

end Version

end Versioning
