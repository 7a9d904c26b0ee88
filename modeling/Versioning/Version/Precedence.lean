import Versioning.Version.Basic

set_option autoImplicit false

/-! # Precedence

Versions compare by their numerals, the most significant first. Of two versions with the same
numerals, the one without a pre-release is the higher; otherwise the identifiers decide from the
left, and a list that runs out first is the lower. The build plays no part, so `compare` may say
`.eq` of two different versions: they have the same `key`, which is all that precedence and hashing
look at.

`firstHighest?`, `lastHighest?` and `firstLowest?` say which of several equal versions of a list
they give. -/

namespace Versioning

/-! ## Order -/

/-- No pre-release ranks above every pre-release; two of them compare identifier by identifier. -/
def comparePreRelease : List Identifier → List Identifier → Ordering
  | [], [] => .eq
  | [], _ :: _ => .gt
  | _ :: _, [] => .lt
  | i :: is, j :: js => compare (i :: is) (j :: js)

namespace Version

instance : Ord Version where
  compare a b :=
    (compare a.major b.major).then <| (compare a.minor b.minor).then <|
      (compare a.patch b.patch).then <| comparePreRelease a.preRelease b.preRelease

instance : LT Version := ltOfOrd

instance : LE Version := leOfOrd

/-- Equal in precedence: neither version is the higher. -/
def Equivalent (a b : Version) : Prop := compare a b = .eq

instance (a b : Version) : Decidable (a.Equivalent b) :=
  inferInstanceAs (Decidable (compare a b = .eq))

/-! ## What precedence looks at -/

/-- The texts of a version that count: those of all its parts but the build. -/
def key (v : Version) : String × String × String × Option String :=
  (toString v.major, toString v.minor, toString v.patch, v.preReleaseText?)

instance : Hashable Version := ⟨fun v => hash v.key⟩

/-! ## Extremes of a list -/

/-- The version of a list that `better` prefers to all before it and that none after it beats. -/
def champion? (better : Version → Version → Bool) (vs : List Version) : Option Version :=
  vs.foldl (fun best v =>
    match best with
    | none => some v
    | some b => if better v b then some v else some b) none

/-- The first among the highest versions of a list. -/
def firstHighest? (vs : List Version) : Option Version :=
  champion? (fun v b => decide (b < v)) vs

/-- The last among the highest versions of a list. -/
def lastHighest? (vs : List Version) : Option Version :=
  champion? (fun v b => decide (b ≤ v)) vs

/-- The first among the lowest versions of a list. -/
def firstLowest? (vs : List Version) : Option Version :=
  champion? (fun v b => decide (v < b)) vs

/-! ## Ordered lists -/

/-- A list in ascending order; equal versions keep their order. -/
def sortAscending (vs : List Version) : List Version :=
  vs.mergeSort fun a b => decide (a ≤ b)

/-- A list without each version that is equal to the one kept before it. -/
def dropRepeats : List Version → List Version
  | [] => []
  | v :: vs => v :: go v vs
where
  /-- Skip what is equal to `last`, the version kept before. -/
  go (last : Version) : List Version → List Version
    | [] => []
    | v :: vs => if v.Equivalent last then go last vs else v :: go v vs

/-- Add a version to a collection that holds no two equal ones; an equal one stays in its place. -/
def insertNew (v : Version) (vs : List Version) : List Version :=
  if vs.any (fun w => decide (w.Equivalent v)) then vs else vs ++ [v]

end Version

end Versioning
