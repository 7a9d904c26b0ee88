set_option autoImplicit false

/-! # What can be wrong with a version

One cause per constructor; `Fault.message` holds the wording. -/

namespace Versioning

/-- Why a text is no version, or why a version cannot be stepped. -/
inductive Fault
  /-- The text has more bytes than a version may have. -/
  | tooLong
  /-- The text is not in the grammar, or there is nothing to release. -/
  | malformed
  /-- The major number has no neighbour in reach. -/
  | major
  /-- The minor number has no neighbour in reach. -/
  | minor
  /-- The patch number has no neighbour in reach. -/
  | patch
  /-- The release kind is unknown, or does not apply. -/
  | releaseKind
  /-- The pre-release number has no neighbour in reach. -/
  | preRelease
deriving DecidableEq

/-- The most bytes, in UTF-8, that the text of a version may have. -/
def maxVersionBytes : Nat := 256

/-- The wording of a fault. -/
def Fault.message : Fault → String
  | tooLong => "Version string is longer than " ++ toString maxVersionBytes ++ " characters"
  | malformed => "Invalid version string"
  | major => "Invalid major version"
  | minor => "Invalid minor version"
  | patch => "Invalid patch version"
  | releaseKind => "Invalid release type"
  | preRelease => "Invalid pre-release version"

end Versioning
