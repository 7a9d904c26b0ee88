import Versioning.Release.Kind
import Versioning.Version.Basic
import Versioning.Version.Reader

set_option autoImplicit false

/-! # Stepping versions up and down

`Version.advance` gives the next version of a kind, `Version.retreat` the release before. The
numeral that is stepped has to stay within a 64-bit word, and the fault names it; numerals above it
are kept whatever their length, numerals below it become zero, and the build is dropped.

A version with a pre-release lies below its release, so the next patch of `1.2.3-a` is `1.2.3`. -/

namespace Versioning.Version

/-! ## Stepping one numeral -/

/-- The numeral one above, or `fault` where it does not fit. -/
def raise (n : Numeral) (fault : Fault) : Except Fault Numeral :=
  match n.next? with
  | some m => .ok m
  | none => .error fault

/-- The numeral one below, or `fault` where there is none. -/
def drop (n : Numeral) (fault : Fault) : Except Fault Numeral :=
  match n.previous? with
  | some m => .ok m
  | none => .error fault

/-! ## Up -/

/-- The release with the next major number. -/
def nextMajor (v : Version) : Except Fault Version := do
  return ⟨← raise v.major .major, .zero, .zero, [], []⟩

/-- The release with the next minor number. -/
def nextMinor (v : Version) : Except Fault Version := do
  return ⟨v.major, ← raise v.minor .minor, .zero, [], []⟩

/-- The release with the next patch number. -/
def nextPatch (v : Version) : Except Fault Version := do
  return ⟨v.major, v.minor, ← raise v.patch .patch, [], []⟩

/-- The lowest pre-release of the release that `v` is. -/
def openPreRelease (v : Version) : Version := { v with preRelease := [.zero] }

/-- The next pre-release: a lone number is counted up, any other pre-release is brought to its
    release, and a release opens the pre-releases of the next patch. -/
def nextPreRelease (v : Version) : Except Fault Version :=
  match v.preRelease with
  | [] => openPreRelease <$> v.nextPatch
  | [.numeric n] => do
      return ⟨v.major, v.minor, v.patch, [.numeric (← raise n .preRelease)], []⟩
  | _ => .ok v.release

/-- The next version of a kind. -/
def advance (v : Version) : ReleaseKind → Except Fault Version
  | .major => v.nextMajor
  | .minor => v.nextMinor
  | .patch => if v.isPreRelease then .ok v.release else v.nextPatch
  | .preMajor => openPreRelease <$> v.nextMajor
  | .preMinor => openPreRelease <$> v.nextMinor
  | .prePatch => openPreRelease <$> v.nextPatch
  | .preRelease => v.nextPreRelease
  | .release => if v.isPreRelease then .ok v.release else .error .malformed

/-! ## Down -/

/-- The release with the number before, for a major, minor or patch number. -/
def retreat (v : Version) : ReleaseKind → Except Fault Version
  | .major => do return ⟨← drop v.major .major, .zero, .zero, [], []⟩
  | .minor => do return ⟨v.major, ← drop v.minor .minor, .zero, [], []⟩
  | .patch => do return ⟨v.major, v.minor, ← drop v.patch .patch, [], []⟩
  | _ => .error .releaseKind

/-! ## From texts -/

/-- Read a version and advance it. -/
def advanceText (text : String) (kind : ReleaseKind) : Except Fault Version := do
  (← parse text).advance kind

/-- Read a version and retreat it. -/
def retreatText (text : String) (kind : ReleaseKind) : Except Fault Version := do
  (← parse text).retreat kind

end Versioning.Version
