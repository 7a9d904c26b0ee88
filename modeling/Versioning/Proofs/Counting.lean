import Versioning.Proofs.Ceiling
import Versioning.Proofs.Operand
import Versioning.Release.Step

set_option autoImplicit false

/-! # A step counts one number

Of all the parts of a version, a step counts at most one, and the kind of the step says which
(`Version.counted?`, `ReleaseKind.lowered?`). Only this number has to be within reach of 64 bits.
What is more significant is kept as it is written, and what is less significant becomes zero.

The numbers are told here by the texts of a version: whether a pre-release is a number, and how
great a number is, can be seen from the digits (`Version.textAt`, `Version.numberAt`). The numerals
behind the texts are counted by `raise` and `drop`, which are exact within their limits, so every
step is the same equation at another place (`advance_of_counted`, `retreat_of_lowered`). -/

namespace Versioning

/-! ## Places -/

/-- A part of a version that may be counted. -/
inductive Place
  | major
  | minor
  | patch
  | preRelease
deriving DecidableEq

namespace Place

/-- How many places are more significant. -/
def index : Place → ℕ
  | major => 0
  | minor => 1
  | patch => 2
  | preRelease => 3

/-- What is wrong where the number at a place cannot be counted. -/
def fault : Place → Fault
  | major => .major
  | minor => .minor
  | patch => .patch
  | preRelease => .preRelease

end Place

namespace Version

/-- The text at a place; empty where there is no pre-release. -/
def textAt (v : Version) : Place → String
  | .major => toString v.major
  | .minor => toString v.minor
  | .patch => toString v.patch
  | .preRelease => v.preReleaseText?.getD ""

/-- The number that the text at a place writes. -/
def numberAt (v : Version) (place : Place) : ℕ :=
  Nat.ofDigitChars 10 (v.textAt place).toList 0

/-- The place that a step up counts, if it counts any: a version with a pre-release has its release
    as the next patch, and as the next pre-release unless the pre-release is a number. -/
def counted? (v : Version) : ReleaseKind → Option Place
  | .major | .preMajor => some .major
  | .minor | .preMinor => some .minor
  | .prePatch => some .patch
  | .patch => if v.preReleaseText? = none then some .patch else none
  | .preRelease =>
      match v.preReleaseText? with
      | none => some .patch
      | some text => if text.toList.all Char.isDigit then some .preRelease else none
  | .release => none

end Version

namespace ReleaseKind

/-- The place that a step down counts, if it counts any. -/
def lowered? : ReleaseKind → Option Place
  | major => some .major
  | minor => some .minor
  | patch => some .patch
  | _ => none

/-- The pre-release that a step up opens when it counts one of the three numbers. -/
def opened : ReleaseKind → List Identifier
  | preMajor | preMinor | prePatch | preRelease => [.zero]
  | major | minor | patch | release => []

end ReleaseKind

namespace Version

/-- A version `w` is `v` with the number at a place changed to `k`, which is written without
    superfluous zeros. The more significant places keep their texts, the less significant numbers
    are zero, and `preRelease` is what follows the three numbers. -/
structure Counts (v : Version) (place : Place) (k : ℕ) (preRelease : List Identifier)
    (w : Version) : Prop where
  counted : w.textAt place = toString k
  kept : ∀ q, q.index < place.index → w.textAt q = v.textAt q
  zero : ∀ q, place.index < q.index → q ≠ .preRelease → w.textAt q = "0"
  opened : place ≠ .preRelease → w.preRelease = preRelease
  build : w.build = []

/-! ## Counting a numeral -/

section Numerals

variable {n m : Numeral} {fault f : Fault}

theorem raise_eq_ok_iff :
    raise n fault = .ok m ↔ n.value + 1 < Numeral.wordSize ∧ m = .ofNat (n.value + 1) := by
  unfold raise Numeral.next?
  by_cases h : n.value + 1 < Numeral.wordSize <;> simp [h, eq_comm]

theorem raise_eq_error_iff :
    raise n fault = .error f ↔ Numeral.wordSize ≤ n.value + 1 ∧ f = fault := by
  unfold raise Numeral.next?
  rw [← not_lt]
  by_cases h : n.value + 1 < Numeral.wordSize <;> simp [h, eq_comm]

theorem drop_eq_ok_iff : drop n fault = .ok m ↔
    (0 < n.value ∧ n.value < Numeral.wordSize) ∧ m = .ofNat (n.value - 1) := by
  unfold drop Numeral.previous?
  by_cases h : 0 < n.value ∧ n.value < Numeral.wordSize <;> simp [h, eq_comm]

theorem drop_eq_error_iff : drop n fault = .error f ↔
    (n.value = 0 ∨ Numeral.wordSize ≤ n.value) ∧ f = fault := by
  have hlimits : (n.value = 0 ∨ Numeral.wordSize ≤ n.value)
      ↔ ¬ (0 < n.value ∧ n.value < Numeral.wordSize) := by omega
  unfold drop Numeral.previous?
  rw [hlimits]
  by_cases h : 0 < n.value ∧ n.value < Numeral.wordSize <;> simp [h, eq_comm]

end Numerals

section Results

variable {α β ε : Type} {g : α → β} {x : Except ε α}

theorem map_eq_ok_iff {b : β} : x.map g = .ok b ↔ ∃ a, x = .ok a ∧ g a = b := by
  cases x <;> simp [Except.map]

theorem map_eq_error_iff {e : ε} : x.map g = .error e ↔ x = .error e := by
  cases x <;> simp [Except.map]

end Results

/-! ## Pre-releases that are numbers -/

variable {v w : Version} {place : Place} {kind : ReleaseKind}

/-- The text of a pre-release has digits only exactly if the pre-release is a number. -/
theorem all_isDigit_iff {is : List Identifier} (hne : is ≠ []) :
    (Text.dotted (is.map Identifier.chars)).all Char.isDigit = true ↔ ∃ n, is = [.numeric n] := by
  match is, hne with
  | [.numeric n], _ =>
      have hdigits : n.digits.all Char.isDigit = true := List.all_eq_true.2 n.canonical.2.1
      simpa [Text.dotted, Identifier.chars] using hdigits
  | [.alphanumeric word h], _ => simpa [Text.dotted, Identifier.chars] using h
  | i :: j :: is, _ =>
      -- There is a dot between two identifiers.
      refine iff_of_false (fun hall => ?_) (by simp)
      rw [List.map_cons, List.map_cons, Text.dotted, List.intercalate_cons_cons] at hall
      have hdot := List.all_eq_true.1 hall '.' (by simp)
      cases hdot

theorem preReleaseText?_eq_none_iff : v.preReleaseText? = none ↔ v.preRelease = [] := by
  simp [preReleaseText?]

theorem counted?_patch : v.counted? .patch = if v.isPreRelease then none else some .patch := by
  by_cases h : v.preRelease = [] <;> simp [counted?, preReleaseText?_eq_none_iff, isPreRelease, h]

theorem counted?_preRelease :
    v.counted? .preRelease = match v.preRelease with
      | [] => some .patch
      | [.numeric _] => some .preRelease
      | _ => none := by
  by_cases hnil : v.preRelease = []
  · simp [counted?, preReleaseText?, hnil]
  · have hdigits := all_isDigit_iff hnil
    have htext : v.preReleaseText?
        = some (String.ofList (Text.dotted (v.preRelease.map Identifier.chars))) :=
      if_neg (by simpa using hnil)
    simp only [counted?, htext, String.toList_ofList]
    by_cases hnumber : ∃ n, v.preRelease = [.numeric n]
    · rw [if_pos (hdigits.2 hnumber)]
      obtain ⟨n, hn⟩ := hnumber
      rw [hn]
    · rw [if_neg (hdigits.not.2 hnumber)]
      split
      · next h => exact absurd h hnil
      · next n h => exact absurd ⟨n, h⟩ hnumber
      · rfl

/-! ## Steps as one equation -/

/-- The numeral at a place. -/
def numeralAt (v : Version) : Place → Numeral
  | .major => v.major
  | .minor => v.minor
  | .patch => v.patch
  | .preRelease =>
      match v.preRelease with
      | [.numeric n] => n
      | _ => .zero

/-- A version with another numeral at a place, zeros behind it, and then a pre-release. -/
def withNumeral (v : Version) (preRelease : List Identifier) (n : Numeral) : Place → Version
  | .major => ⟨n, .zero, .zero, preRelease, []⟩
  | .minor => ⟨v.major, n, .zero, preRelease, []⟩
  | .patch => ⟨v.major, v.minor, n, preRelease, []⟩
  | .preRelease => ⟨v.major, v.minor, v.patch, [.numeric n], []⟩

/-- **A step up counts the numeral at its place.** -/
theorem advance_of_counted (h : v.counted? kind = some place) :
    v.advance kind
      = (raise (v.numeralAt place) place.fault).map (v.withNumeral kind.opened · place) := by
  cases kind with
  | major | minor | preMajor | preMinor | prePatch =>
      cases h
      simp only [advance, nextMajor, nextMinor, nextPatch, numeralAt, Place.fault]
      cases raise _ _ <;> rfl
  | patch =>
      rw [counted?_patch] at h
      split at h
      · cases h
      · next hpre =>
          cases h
          simp only [advance, if_neg hpre, nextPatch, numeralAt, Place.fault]
          cases raise _ _ <;> rfl
  | preRelease =>
      rw [counted?_preRelease] at h
      split at h
      · next hpre =>
          cases h
          simp only [advance, nextPreRelease, hpre, nextPatch, numeralAt, Place.fault]
          cases raise _ _ <;> rfl
      · next n hpre =>
          cases h
          simp only [advance, nextPreRelease, hpre, numeralAt, Place.fault]
          cases raise _ _ <;> rfl
      · cases h
  | release => cases h

/-- A step up that counts nothing gives the release, if there is a pre-release to be dropped. -/
theorem advance_of_not_counted (h : v.counted? kind = none) :
    v.advance kind = if kind = .release ∧ v.preReleaseText? = none then .error .malformed
      else .ok v.release := by
  cases kind with
  | major | minor | preMajor | preMinor | prePatch => cases h
  | patch =>
      rw [counted?_patch] at h
      split at h
      · next hpre => simp [advance, hpre]
      · cases h
  | preRelease =>
      rw [counted?_preRelease] at h
      split at h
      · cases h
      · cases h
      · next hnil hnumber =>
          rw [if_neg (by simp), advance, nextPreRelease]
          split
          · next hpre => exact absurd hpre hnil
          · next n hpre => exact absurd hpre (hnumber n)
          · rfl
  | release =>
      by_cases hpre : v.preRelease = [] <;>
        simp [advance, preReleaseText?_eq_none_iff, isPreRelease, hpre]

/-- **A step down counts the numeral at its place.** -/
theorem retreat_of_lowered (h : kind.lowered? = some place) :
    v.retreat kind = (drop (v.numeralAt place) place.fault).map (v.withNumeral [] · place) := by
  cases kind with
  | major | minor | patch =>
      cases h
      simp only [retreat, numeralAt, Place.fault]
      cases drop _ _ <;> rfl
  | _ => cases h

theorem retreat_of_not_lowered (h : kind.lowered? = none) :
    v.retreat kind = .error .releaseKind := by
  cases kind with
  | major | minor | patch => cases h
  | _ => rfl

/-! ## Texts at places -/

/-- Only a pre-release that is a number is counted. -/
theorem exists_number_of_counted (h : v.counted? kind = some place) (hplace : place = .preRelease) :
    ∃ n, v.preRelease = [.numeric n] := by
  subst hplace
  cases kind with
  | major | minor | preMajor | preMinor | prePatch | release => cases h
  | patch =>
      rw [counted?_patch] at h
      split at h <;> cases h
  | preRelease =>
      rw [counted?_preRelease] at h
      split at h
      · cases h
      · next n hpre => exact ⟨n, hpre⟩
      · cases h

theorem textAt_preRelease {n : Numeral} (h : v.preRelease = [.numeric n]) :
    v.textAt .preRelease = toString n := by
  simp [textAt, preReleaseText?, h, Text.dotted, Identifier.chars]
  rfl

theorem textAt_eq (h : place = .preRelease → ∃ n, v.preRelease = [.numeric n]) :
    v.textAt place = toString (v.numeralAt place) := by
  cases place with
  | major | minor | patch => rfl
  | preRelease =>
      obtain ⟨n, hn⟩ := h rfl
      rw [textAt_preRelease hn, numeralAt, hn]

theorem numberAt_eq (h : place = .preRelease → ∃ n, v.preRelease = [.numeric n]) :
    v.numberAt place = (v.numeralAt place).value := by
  rw [numberAt, textAt_eq h]
  exact congrArg (Nat.ofDigitChars 10 · 0) String.toList_ofList

theorem numberAt_of_counted (h : v.counted? kind = some place) :
    v.numberAt place = (v.numeralAt place).value := numberAt_eq (exists_number_of_counted h)

/-- Only one of the three numbers is counted down. -/
theorem numberAt_of_lowered (h : kind.lowered? = some place) :
    v.numberAt place = (v.numeralAt place).value := by
  refine numberAt_eq ?_
  rintro rfl
  cases kind <;> cases h

/-- The numeral of a number is its decimal. -/
theorem toString_ofNat (k : ℕ) : toString (Numeral.ofNat k) = toString k :=
  Nat.toString_eq_ofList_toDigits.symm

theorem counts_withNumeral (v : Version) (preRelease : List Identifier) (k : ℕ) (place : Place) :
    v.Counts place k preRelease (v.withNumeral preRelease (.ofNat k) place) where
  counted := by
    rw [← toString_ofNat]
    cases place with
    | major | minor | patch => rfl
    | preRelease => exact textAt_preRelease rfl
  -- For each pair of places, the text can be read off or the pair is out of order.
  kept := by
    intro q hq
    cases place <;> cases q <;> first | rfl | exact absurd hq (by decide)
  zero := by
    intro q hq hpre
    cases place <;> cases q <;> first | rfl | exact absurd hq (by decide) | exact absurd rfl hpre
  opened := by
    intro hplace
    cases place with
    | major | minor | patch => rfl
    | preRelease => exact absurd rfl hplace
  build := by cases place <;> rfl

/-! ## Limits and results -/

theorem advance_eq_error_iff {f : Fault} : v.advance kind = .error f ↔
    (∃ place, v.counted? kind = some place ∧ Numeral.wordSize ≤ v.numberAt place + 1
      ∧ f = place.fault)
      ∨ kind = .release ∧ v.preReleaseText? = none ∧ f = .malformed := by
  cases hplace : v.counted? kind with
  | none =>
      rw [advance_of_not_counted hplace]
      by_cases hrelease : kind = .release ∧ v.preReleaseText? = none
      · rw [if_pos hrelease]
        simp [hrelease, eq_comm]
      · rw [if_neg hrelease]
        simp only [reduceCtorEq, false_and, exists_false, false_or, false_iff]
        exact fun ⟨hkind, hpre, _⟩ => hrelease ⟨hkind, hpre⟩
  | some place =>
      have hkind : kind ≠ .release := by
        rintro rfl
        cases hplace
      rw [advance_of_counted hplace, map_eq_error_iff, raise_eq_error_iff,
        ← numberAt_of_counted hplace]
      simp [hkind]

theorem eq_withNumeral_of_advance (hplace : v.counted? kind = some place)
    (h : v.advance kind = .ok w) :
    w = v.withNumeral kind.opened (.ofNat ((v.numeralAt place).value + 1)) place := by
  rw [advance_of_counted hplace, map_eq_ok_iff] at h
  obtain ⟨n, hn, rfl⟩ := h
  obtain ⟨-, rfl⟩ := raise_eq_ok_iff.1 hn
  rfl

theorem counts_of_advance (hplace : v.counted? kind = some place) (h : v.advance kind = .ok w) :
    v.Counts place (v.numberAt place + 1) kind.opened w := by
  rw [eq_withNumeral_of_advance hplace h, numberAt_of_counted hplace]
  exact counts_withNumeral v kind.opened _ place

theorem eq_release_of_advance (hplace : v.counted? kind = none) (h : v.advance kind = .ok w) :
    w = v.release := by
  rw [advance_of_not_counted hplace] at h
  split at h <;> cases h
  rfl

theorem retreat_eq_error_iff {f : Fault} (hplace : kind.lowered? = some place) :
    v.retreat kind = .error f
      ↔ (v.numberAt place = 0 ∨ Numeral.wordSize ≤ v.numberAt place) ∧ f = place.fault := by
  rw [retreat_of_lowered hplace, map_eq_error_iff, drop_eq_error_iff, numberAt_of_lowered hplace]

theorem counts_of_retreat (hplace : kind.lowered? = some place) (h : v.retreat kind = .ok w) :
    ∃ k, v.numberAt place = k + 1 ∧ v.Counts place k [] w := by
  rw [retreat_of_lowered hplace, map_eq_ok_iff] at h
  obtain ⟨n, hn, rfl⟩ := h
  obtain ⟨⟨hpos, -⟩, rfl⟩ := drop_eq_ok_iff.1 hn
  refine ⟨(v.numeralAt place).value - 1, ?_, counts_withNumeral v [] _ place⟩
  rw [numberAt_of_lowered hplace, Nat.sub_add_cancel hpos]

/-- **A step counts one number, exactly and within the limits of that number alone.** Up, the number
    fails from `2 ^ 64 - 1` on, and down, at zero and from `2 ^ 64` on; the fault is that of its
    place. A step up that counts nothing drops the pre-release and fails only if there is none to be
    released; a step down that counts nothing fails always. -/
theorem advance_retreat_exact (v : Version) (kind : ReleaseKind) :
    (∀ f, v.advance kind = .error f ↔
      (∃ place, v.counted? kind = some place ∧ Numeral.wordSize ≤ v.numberAt place + 1
        ∧ f = place.fault)
        ∨ kind = .release ∧ v.preReleaseText? = none ∧ f = .malformed)
    ∧ (∀ w, v.advance kind = .ok w →
      (∀ place, v.counted? kind = some place →
        v.Counts place (v.numberAt place + 1) kind.opened w)
      ∧ (v.counted? kind = none → w = v.release))
    ∧ (∀ place, kind.lowered? = some place →
      (∀ f, v.retreat kind = .error f ↔
        (v.numberAt place = 0 ∨ Numeral.wordSize ≤ v.numberAt place) ∧ f = place.fault)
      ∧ ∀ w, v.retreat kind = .ok w →
        ∃ k, v.numberAt place = k + 1 ∧ v.Counts place k [] w)
    ∧ (kind.lowered? = none → v.retreat kind = .error .releaseKind) := by
  refine ⟨fun f => advance_eq_error_iff, fun w hw => ⟨fun place hplace => ?_, fun hnone => ?_⟩,
    fun place hplace => ⟨fun f => retreat_eq_error_iff hplace, fun w hw => ?_⟩, fun hnone => ?_⟩
  · exact counts_of_advance hplace hw
  · exact eq_release_of_advance hnone hw
  · exact counts_of_retreat hplace hw
  · exact retreat_of_not_lowered hnone

/-- A number that fits no 64-bit word is kept by a step behind it, where the greatest one that can
    be counted up is counted; it can itself be counted neither up nor down. -/
theorem advance_retreat_exact_limits :
    let v : Version := ⟨.ofNat 18446744073709551616, .ofNat 18446744073709551614, .ofNat 3,
      [.numeric (.ofNat 18446744073709551615)], []⟩
    (∃ w, v.advance .minor = .ok w ∧ w.textAt .major = "18446744073709551616"
      ∧ w.textAt .minor = "18446744073709551615" ∧ w.textAt .patch = "0" ∧ w.preRelease = [])
    ∧ v.advance .preRelease = .error .preRelease
    ∧ v.retreat .major = .error .major
    ∧ ∃ w, v.retreat .minor = .ok w ∧ w.textAt .major = "18446744073709551616"
      ∧ w.textAt .minor = "18446744073709551613" ∧ w.textAt .patch = "0" := by
  intro v
  have hgreat : v.textAt .major = "18446744073709551616" := by decide
  refine ⟨?_, ?_, ?_, ?_⟩
  · obtain ⟨w, hw⟩ : ∃ w, v.advance .minor = .ok w := ⟨_, rfl⟩
    have hcounts := ((advance_retreat_exact v .minor).2.1 w hw).1 .minor rfl
    have hnumber : v.numberAt .minor = 18446744073709551614 := by decide
    refine ⟨w, hw, (hcounts.kept .major (by decide)).trans hgreat, ?_, ?_, ?_⟩
    · rw [hcounts.counted, hnumber]
      rfl
    · exact hcounts.zero .patch (by decide) (by decide)
    · exact hcounts.opened (by decide)
  · exact ((advance_retreat_exact v .preRelease).1 _).2 (Or.inl ⟨.preRelease, by decide⟩)
  · exact (((advance_retreat_exact v .major).2.2.1 .major rfl).1 _).2 (by decide)
  · obtain ⟨w, hw⟩ : ∃ w, v.retreat .minor = .ok w := ⟨_, rfl⟩
    obtain ⟨k, hk, hcounts⟩ := ((advance_retreat_exact v .minor).2.2.1 .minor rfl).2 w hw
    have hnumber : v.numberAt .minor = 18446744073709551614 := by decide
    have hbelow : k = 18446744073709551613 := Nat.succ.inj (hk.symm.trans hnumber)
    refine ⟨w, hw, (hcounts.kept .major (by decide)).trans hgreat, ?_, ?_⟩
    · rw [hcounts.counted, hbelow]
      rfl
    · exact hcounts.zero .patch (by decide) (by decide)

end Version

end Versioning
