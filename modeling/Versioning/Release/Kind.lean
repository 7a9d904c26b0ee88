import Versioning.Text.Blank
import Versioning.Version.Fault

set_option autoImplicit false

/-! # Release kinds

The eight ways to step a version, each with its name and its place in the list of all. A kind is
read from its name in any case and with blanks around, or from its place. -/

namespace Versioning

/-- A way to step from one version to another. -/
inductive ReleaseKind
  | major
  | minor
  | patch
  | preMajor
  | preMinor
  | prePatch
  | preRelease
  | release
deriving DecidableEq

namespace ReleaseKind

/-- All kinds, in their order. -/
def all : List ReleaseKind :=
  [major, minor, patch, preMajor, preMinor, prePatch, preRelease, release]

/-- The name of a kind. -/
def name : ReleaseKind → String
  | major => "major"
  | minor => "minor"
  | patch => "patch"
  | preMajor => "premajor"
  | preMinor => "preminor"
  | prePatch => "prepatch"
  | preRelease => "prerelease"
  | release => "release"

/-- The place of a kind in the list of all. -/
def index (k : ReleaseKind) : Nat := all.idxOf k

/-- The kind of a name, read without regard to blanks around it and to the case of ASCII letters. -/
def ofName (text : String) : Except Fault ReleaseKind :=
  let plain := (Text.trim Text.isBlank text.toList).map Char.toLower
  match all.find? fun k => k.name.toList == plain with
  | some k => .ok k
  | none => .error .releaseKind

/-- The kind at a place of the list of all. -/
def ofIndex : Int → Except Fault ReleaseKind
  | .ofNat i =>
      match all[i]? with
      | some k => .ok k
      | none => .error .releaseKind
  | .negSucc _ => .error .releaseKind

end ReleaseKind

end Versioning
