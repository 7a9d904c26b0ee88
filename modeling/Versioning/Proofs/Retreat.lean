import Mathlib.Order.Bounds.Basic
import Versioning.Proofs.Advance

set_option autoImplicit false

/-! # Steps down undo steps up

A step down counts the number that the step up of its kind counts, so each of the two takes back
what the other did to this number. Neither brings back what it has dropped: the less significant
numbers, the pre-release and the build (`Version.truncate`). There is one exception. The next patch
of a pre-release is its release, which counts nothing, and a step down from there goes on below.

A step down of the patch is the greatest release below a version (`Version.retreat_patch_greatest`).
This comes from the step up, which goes from there to the release of the version, as to the least
release above. -/

namespace Versioning.Version

variable {v w u : Version} {kind : ReleaseKind} {place : Place}

/-- A version up to a place: the numbers behind it are zero, and there is neither a pre-release nor
    a build. -/
def truncate (v : Version) : Place → Version
  | .major => ⟨v.major, .zero, .zero, [], []⟩
  | .minor => ⟨v.major, v.minor, .zero, [], []⟩
  | .patch | .preRelease => v.release

/-! ## One numeral -/

section Numerals

variable {n m : Numeral} {fault : Fault}

/-- What was counted down is counted up again: the limits of both meet at the greatest value. -/
theorem raise_of_drop (h : drop n fault = .ok m) : raise m fault = .ok n := by
  obtain ⟨⟨hpos, hsize⟩, rfl⟩ := drop_eq_ok_iff.1 h
  have hback : (Numeral.ofNat (n.value - 1)).value + 1 = n.value := by
    rw [Numeral.value_ofNat]
    omega
  rw [raise_eq_ok_iff, hback]
  refine ⟨hsize, ?_⟩
  rw [← Numeral.value_inj, Numeral.value_ofNat]

theorem drop_of_raise (h : raise n fault = .ok m) : drop m fault = .ok n := by
  obtain ⟨hsize, rfl⟩ := raise_eq_ok_iff.1 h
  refine drop_eq_ok_iff.2 ?_
  rw [Numeral.value_ofNat, ← Numeral.value_inj, Numeral.value_ofNat]
  exact ⟨⟨Nat.succ_pos _, hsize⟩, rfl⟩

end Numerals

/-! ## One place of a version -/

theorem ne_preRelease_of_lowered (h : kind.lowered? = some place) : place ≠ .preRelease := by
  rintro rfl
  cases kind <;> cases h

/-- The steps up and down of a kind count the same place, but for the next patch of a
    pre-release. -/
theorem counted?_eq_some_iff_of_lowered (h : kind.lowered? = some place) :
    v.counted? kind = some place ↔ kind ≠ .patch ∨ v.isPreRelease = false := by
  cases kind with
  | major | minor =>
      cases h
      exact iff_of_true rfl (Or.inl (by decide))
  | patch =>
      cases h
      rw [counted?_patch]
      cases v.isPreRelease <;> simp
  | _ => cases h

theorem opened_of_lowered (h : kind.lowered? = some place) : kind.opened = [] := by
  cases kind with
  | major | minor | patch => rfl
  | _ => cases h

theorem numeralAt_withNumeral (v : Version) (n : Numeral) (hplace : place ≠ .preRelease) :
    (v.withNumeral [] n place).numeralAt place = n := by
  cases place with
  | major | minor | patch => rfl
  | preRelease => exact absurd rfl hplace

/-- To put a numeral back at its place leaves the version up to there. -/
theorem withNumeral_withNumeral (v : Version) (n : Numeral) (hplace : place ≠ .preRelease) :
    (v.withNumeral [] n place).withNumeral [] (v.numeralAt place) place = v.truncate place := by
  cases place with
  | major | minor | patch => rfl
  | preRelease => exact absurd rfl hplace

/-- A smaller number at a place makes a lower version, whatever stood behind. -/
theorem withNumeral_lt {n : Numeral} (hplace : place ≠ .preRelease)
    (h : n.value < (v.numeralAt place).value) : v.withNumeral [] n place < v := by
  refine lt_of_triple_lt ?_
  cases place with
  | major | minor | patch =>
      rw [numeralAt] at h
      simp [triple, withNumeral, Prod.Lex.toLex_lt_toLex, h]
  | preRelease => exact absurd rfl hplace

/-! ## There and back -/

theorem retreat_eq_ok_iff (h : kind.lowered? = some place) : v.retreat kind = .ok w
    ↔ ∃ n, drop (v.numeralAt place) place.fault = .ok n ∧ v.withNumeral [] n place = w := by
  rw [retreat_of_lowered h, map_eq_ok_iff]

theorem advance_eq_ok_iff (h : kind.lowered? = some place)
    (hcounted : v.counted? kind = some place) : v.advance kind = .ok w
      ↔ ∃ n, raise (v.numeralAt place) place.fault = .ok n ∧ v.withNumeral [] n place = w := by
  rw [advance_of_counted hcounted, map_eq_ok_iff, opened_of_lowered h]

/-- A step down gives a lower version, whatever it drops. -/
theorem lt_of_retreat (h : kind.lowered? = some place) (hw : v.retreat kind = .ok w) : w < v := by
  obtain ⟨n, hn, rfl⟩ := (retreat_eq_ok_iff h).1 hw
  obtain ⟨⟨hpos, -⟩, rfl⟩ := drop_eq_ok_iff.1 hn
  refine withNumeral_lt (ne_preRelease_of_lowered h) ?_
  rw [Numeral.value_ofNat]
  omega

theorem isPreRelease_of_retreat (h : kind.lowered? = some place) (hw : v.retreat kind = .ok w) :
    w.isPreRelease = false := by
  obtain ⟨n, -, rfl⟩ := (retreat_eq_ok_iff h).1 hw
  cases place with
  | major | minor | patch => rfl
  | preRelease => exact absurd rfl (ne_preRelease_of_lowered h)

/-- **A step up takes back a step down.** -/
theorem advance_of_retreat (h : kind.lowered? = some place) (hw : v.retreat kind = .ok w) :
    w.advance kind = .ok (v.truncate place) := by
  have hplace := ne_preRelease_of_lowered h
  have hcounted := (counted?_eq_some_iff_of_lowered h).2 (Or.inr (isPreRelease_of_retreat h hw))
  obtain ⟨n, hn, rfl⟩ := (retreat_eq_ok_iff h).1 hw
  rw [advance_eq_ok_iff h hcounted]
  refine ⟨v.numeralAt place, ?_, withNumeral_withNumeral v n hplace⟩
  rw [numeralAt_withNumeral v n hplace]
  exact raise_of_drop hn

/-- **A step down takes back a step up**, if the step up has counted. -/
theorem retreat_of_advance (h : kind.lowered? = some place)
    (hcounted : v.counted? kind = some place) (hw : v.advance kind = .ok w) :
    w.retreat kind = .ok (v.truncate place) := by
  have hplace := ne_preRelease_of_lowered h
  obtain ⟨n, hn, rfl⟩ := (advance_eq_ok_iff h hcounted).1 hw
  rw [retreat_eq_ok_iff h]
  refine ⟨v.numeralAt place, ?_, withNumeral_withNumeral v n hplace⟩
  rw [numeralAt_withNumeral v n hplace]
  exact drop_of_raise hn

/-- From the release of a pre-release, a step down leaves it. -/
theorem retreat_ne_release (v : Version) : v.release.retreat .patch ≠ .ok v.release := by
  intro h
  exact lt_irrefl _ (lt_of_retreat rfl h)

/-! ## The greatest release below -/

/-- **A step down of the patch gives the greatest release below.** -/
theorem retreat_patch_greatest (h : v.retreat .patch = .ok w) :
    IsGreatest {u : Version | u.isPreRelease = false ∧ u < v} w := by
  refine ⟨⟨isPreRelease_of_retreat rfl h, lt_of_retreat rfl h⟩, ?_⟩
  rintro u ⟨hrelease, hlt⟩
  by_contra hle
  -- A release between would be one above `w`, below the least of these.
  obtain ⟨-, hleast⟩ := advance_patch_least (advance_of_retreat rfl h)
  have habove : v.release ≤ u := hleast u hrelease (not_le_iff_lt.1 hle)
  exact not_lt_iff_le.2 ((le_release v).trans habove) hlt

/-- **Steps down and up of one kind take each other back**, and a step down goes down. What comes
    back is the version up to the number that was counted. A step up is not taken back exactly where
    it counts nothing, for the patch of a pre-release. The step down of the patch gives the greatest
    of all releases below. -/
theorem retreat_undoes_advance (v : Version) (h : kind.lowered? = some place) :
    (∀ w, v.retreat kind = .ok w → w < v ∧ w.advance kind = .ok (v.truncate place))
    ∧ (∀ w, v.advance kind = .ok w →
      (w.retreat kind = .ok (v.truncate place) ↔ kind ≠ .patch ∨ v.isPreRelease = false))
    ∧ ∀ w, v.retreat .patch = .ok w →
      IsGreatest {u : Version | u.isPreRelease = false ∧ u < v} w := by
  refine ⟨fun w hw => ⟨lt_of_retreat h hw, advance_of_retreat h hw⟩, fun w hw => ?_,
    fun w hw => retreat_patch_greatest hw⟩
  rw [← counted?_eq_some_iff_of_lowered h]
  refine ⟨fun hback => ?_, fun hcounted => retreat_of_advance h hcounted hw⟩
  rw [counted?_eq_some_iff_of_lowered h]
  by_contra hnot
  rw [not_or, not_not, Bool.not_eq_false] at hnot
  obtain ⟨rfl, hpre⟩ := hnot
  cases h
  rw [advance_patch_of_isPreRelease hpre] at hw
  cases hw
  exact retreat_ne_release v hback

/-- Down from the greatest number that fits and up again, behind one that does not fit; and up from
    a pre-release, from where the way down leads elsewhere. -/
theorem retreat_undoes_advance_limits :
    let great : Numeral := .ofNat 18446744073709551616
    let v : Version :=
      ⟨great, .ofNat 18446744073709551615, .ofNat 3, [.zero], [⟨['b'], by decide⟩]⟩
    let below : Version := ⟨great, .ofNat 18446744073709551614, .zero, [], []⟩
    let back : Version := ⟨great, .ofNat 18446744073709551615, .zero, [], []⟩
    (v.retreat .minor = .ok below ∧ below < v ∧ below.advance .minor = .ok back)
    ∧ (v.advance .patch = .ok v.release ∧ v.release.retreat .patch ≠ .ok (v.truncate .patch))
    ∧ ∃ w, v.retreat .patch = .ok w
      ∧ IsGreatest {u : Version | u.isPreRelease = false ∧ u < v} w := by
  intro great v below back
  have hminor : ReleaseKind.minor.lowered? = some .minor := rfl
  have hpatch : ReleaseKind.patch.lowered? = some .patch := rfl
  have hdown : v.retreat .minor = .ok below := by decide
  obtain ⟨w, hw⟩ : ∃ w, v.retreat .patch = .ok w := ⟨_, rfl⟩
  obtain ⟨hundone, -, -⟩ := retreat_undoes_advance v hminor
  obtain ⟨-, hexact, hgreatest⟩ := retreat_undoes_advance v hpatch
  refine ⟨⟨hdown, hundone below hdown⟩, ⟨rfl, fun hback => ?_⟩, w, hw, hgreatest w hw⟩
  exact absurd ((hexact v.release rfl).1 hback) (by decide)

end Versioning.Version
