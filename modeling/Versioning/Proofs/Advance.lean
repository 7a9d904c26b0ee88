import Versioning.Proofs.Counting
import Versioning.Proofs.Prefix

set_option autoImplicit false

/-! # A step up is as small as its kind allows

Every step up gives a higher version (`Version.lt_of_advance`). A step that counts one of the three
numbers goes to the first triple whose beginning, up to that number, is above that of the version:
what lies below the new triple is what begins with at most the numbers that the version begins with
(`Version.numbers_lt_iff_of_advance`). A version is itself such a one, so it rises, and beginnings
stand in the order of the versions, so that higher versions step to higher ones.

The other steps stay with the three numbers. They count a pre-release that is a number, or leave the
pre-releases for their release. The two smallest steps, to the next patch and to the next
pre-release of a release, leave nothing between that they could have reached instead. -/

namespace Versioning.Version

variable {v v' w w' u : Version} {kind : ReleaseKind} {place : Place}

/-! ## Orders with the same triple or the same pre-release -/

/-- Versions with the same pre-release are told apart by their numbers. -/
theorem numbers_lt_of_lt (hpre : v.preRelease = w.preRelease) (h : v < w) :
    v.numbers < w.numbers := by
  have htext : v.preReleaseText? = w.preReleaseText? := by rw [preReleaseText?, hpre]; rfl
  rw [lt_iff_triple, htext] at h
  rcases h with hlt | ⟨-, hlt⟩
  · exact triple_lt_iff_numbers_lt.1 hlt
  · exact absurd hlt (lt_irrefl _)

/-- Among the pre-releases of a triple, numbers stand by their values. -/
theorem lt_of_number_lt {n m : Numeral} (htriple : v.triple = w.triple)
    (hv : v.preRelease = [.numeric n]) (hw : w.preRelease = [.numeric m])
    (h : n.value < m.value) : v < w := by
  have hne : v.preRelease ≠ [] := hv ▸ List.cons_ne_nil _ _
  have hne' : w.preRelease ≠ [] := hw ▸ List.cons_ne_nil _ _
  have hpiece : pieceRank n.digits < pieceRank m.digits := by
    rw [pieceRank_digits, pieceRank_digits]
    exact Sum.Lex.inl_strictMono h
  rw [lt_iff_triple, preReleaseRank_of_ne_nil hne, preReleaseRank_of_ne_nil hne', hv, hw]
  exact Or.inr ⟨htriple, WithTop.coe_lt_coe.2 (List.cons_lt_cons_iff.2 (Or.inl hpiece))⟩

/-! ## Steps that count one of the three numbers -/

/-- The numbers of a version with another numeral at a place and zeros behind it. -/
theorem numbers_withNumeral (v : Version) (preRelease : List Identifier) (n : Numeral)
    (hplace : place ≠ .preRelease) : (v.withNumeral preRelease n place).numbers
      = v.numbers.take place.index ++ n.value :: List.replicate (2 - place.index) 0 := by
  cases place with
  | major | minor | patch => rfl
  | preRelease => exact absurd rfl hplace

/-- The numbers up to a place end in the number at the place. -/
theorem take_numbers_succ (v : Version) (hplace : place ≠ .preRelease) :
    v.numbers.take (place.index + 1)
      = v.numbers.take place.index ++ [(v.numeralAt place).value] := by
  cases place with
  | major | minor | patch => rfl
  | preRelease => exact absurd rfl hplace

theorem length_take_numbers (v : Version) (place : Place) :
    (v.numbers.take place.index).length = place.index := by
  cases place <;> rfl

/-- **Below the numbers of a step up is what begins with at most the numbers of the version**, up to
    the number that is counted. -/
theorem numbers_lt_iff_of_advance (hcounted : v.counted? kind = some place)
    (hplace : place ≠ .preRelease) (h : v.advance kind = .ok w) : u.numbers < w.numbers
      ↔ u.numbers.take (place.index + 1) ≤ v.numbers.take (place.index + 1) := by
  have hlength : u.numbers.length
      = (v.numbers.take place.index).length + 1 + (2 - place.index) := by
    rw [length_take_numbers]
    cases place with
    | major | minor | patch => rfl
    | preRelease => exact absurd rfl hplace
  rw [eq_withNumeral_of_advance hcounted h, numbers_withNumeral v _ _ hplace, Numeral.value_ofNat,
    lt_counted_up_iff hlength, length_take_numbers, take_numbers_succ v hplace]

/-- Steps that count the same of the three numbers go up in the order of the versions. -/
theorem le_of_counted (hcounted : v.counted? kind = some place)
    (hcounted' : v'.counted? kind = some place) (hplace : place ≠ .preRelease) (hle : v ≤ v')
    (h : v.advance kind = .ok w) (h' : v'.advance kind = .ok w') : w ≤ w' := by
  have hpre : w'.preRelease = w.preRelease :=
    ((counts_of_advance hcounted' h').opened hplace).trans
      ((counts_of_advance hcounted h).opened hplace).symm
  rw [← not_lt_iff_le]
  intro hlt
  have hbegins : w'.numbers.take (place.index + 1) ≤ v.numbers.take (place.index + 1) :=
    (numbers_lt_iff_of_advance hcounted hplace h).1 (numbers_lt_of_lt hpre hlt)
  have hbegins' : v.numbers.take (place.index + 1) ≤ v'.numbers.take (place.index + 1) :=
    take_le_take _ (numbers_le_of_le hle)
  -- The numbers of `w'` would lie below themselves.
  exact lt_irrefl _ ((numbers_lt_iff_of_advance hcounted' hplace h').2 (hbegins.trans hbegins'))

/-! ## Every step goes up -/

/-- A step up that counts nothing leaves a pre-release for its release. -/
theorem isPreRelease_of_advance (hcounted : v.counted? kind = none) (h : v.advance kind = .ok w) :
    v.isPreRelease = true := by
  rw [isPreRelease, ← Bool.not_eq_false, Bool.not_eq_false', List.isEmpty_iff]
  intro hpre
  have hnone : v.preReleaseText? = none := preReleaseText?_eq_none_iff.2 hpre
  cases kind with
  | major | minor | preMajor | preMinor | prePatch => cases hcounted
  | patch | preRelease =>
      rw [counted?, hnone] at hcounted
      cases hcounted
  | release =>
      rw [advance_of_not_counted hcounted, if_pos ⟨rfl, hnone⟩] at h
      cases h

theorem lt_of_advance (h : v.advance kind = .ok w) : v < w := by
  cases hcounted : v.counted? kind with
  | none =>
      rw [eq_release_of_advance hcounted h]
      exact lt_of_triple_eq rfl (isPreRelease_of_advance hcounted h) rfl
  | some place =>
      by_cases hplace : place = .preRelease
      · obtain ⟨n, hn⟩ := exists_number_of_counted hcounted hplace
        subst hplace
        rw [eq_withNumeral_of_advance hcounted h]
        refine lt_of_number_lt rfl hn rfl ?_
        rw [Numeral.value_ofNat, numeralAt, hn]
        exact Nat.lt_succ_self _
      · have hbegins : v.numbers.take (place.index + 1) ≤ v.numbers.take (place.index + 1) := le_rfl
        have hlt := (numbers_lt_iff_of_advance hcounted hplace h).2 hbegins
        exact lt_of_triple_lt (triple_lt_iff_numbers_lt.2 hlt)

theorem build_of_advance (h : v.advance kind = .ok w) : w.build = [] := by
  cases hcounted : v.counted? kind with
  | none =>
      rw [eq_release_of_advance hcounted h]
      rfl
  | some place => exact (counts_of_advance hcounted h).build

/-! ## The smallest steps -/

/-- The next patch is a release, and the least of those above. -/
theorem advance_patch_least (h : v.advance .patch = .ok w) :
    w.isPreRelease = false ∧ ∀ u, u.isPreRelease = false → v < u → w ≤ u := by
  obtain ⟨hrelease, -, -⟩ := of_advance_patch h
  refine ⟨by rw [← hrelease]; rfl, fun u hu hlt => ?_⟩
  rcases le_or_of_advance_patch h hlt with hle | ⟨hpre, -⟩
  · exact hle
  · rw [hu] at hpre
    cases hpre

/-- The next pre-release of a release opens the next patch. -/
theorem advance_preRelease_of_release (hv : v.isPreRelease = false) :
    v.advance .preRelease = (v.advance .patch).map openPreRelease := by
  have hnil : v.preRelease = [] := by simpa [isPreRelease] using hv
  simp only [advance, nextPreRelease, hnil, hv, Bool.false_eq_true, if_false]
  rfl

/-- All that lies above a release lies at or above its next pre-release. -/
theorem advance_preRelease_le (hv : v.isPreRelease = false) (h : v.advance .preRelease = .ok w)
    (hlt : v < u) : w ≤ u := by
  rw [advance_preRelease_of_release hv, map_eq_ok_iff] at h
  obtain ⟨s, hpatch, rfl⟩ := h
  obtain ⟨-, -, htriple⟩ := of_advance_patch hpatch
  exact openPreRelease_le (htriple u hlt)

/-! ## Steps in the order of versions -/

/-- Steps keep the order of versions, but for the next pre-release: a pre-release goes up by one if
    it is a number, and leaves at once for its release if not. -/
theorem advance_le_advance (hkind : kind ≠ .preRelease) (hle : v ≤ v')
    (h : v.advance kind = .ok w) (h' : v'.advance kind = .ok w') : w ≤ w' := by
  cases kind with
  | major | minor | preMajor | preMinor | prePatch =>
      exact le_of_counted rfl rfl (by decide) hle h h'
  | patch =>
      obtain ⟨-, hleast⟩ := advance_patch_least h
      obtain ⟨hrelease, -⟩ := advance_patch_least h'
      exact hleast w' hrelease (hle.trans_lt (lt_of_advance h'))
  | release =>
      rw [eq_release_of_advance rfl h, eq_release_of_advance rfl h']
      exact release_le_of_le (hle.trans (le_release v')) rfl
  | preRelease => exact absurd rfl hkind

/-- The next pre-release does not keep it: `1.0.0-0.0` steps to `1.0.0`, and the higher `1.0.0-1` to
    `1.0.0-2`. -/
example :
    let v : Version := ⟨.ofNat 1, .zero, .zero, [.zero, .zero], []⟩
    let v' : Version := ⟨.ofNat 1, .zero, .zero, [.numeric (.ofNat 1)], []⟩
    let w : Version := ⟨.ofNat 1, .zero, .zero, [], []⟩
    let w' : Version := ⟨.ofNat 1, .zero, .zero, [.numeric (.ofNat 2)], []⟩
    v < v' ∧ v.advance .preRelease = .ok w ∧ v'.advance .preRelease = .ok w' ∧ w' < w := by
  decide

/-- **A step goes up, by the least that its kind asks for.** The result is above the version and has
    no build. The next patch is the least release above, nothing lies between a release and its next
    pre-release, and every kind but this one keeps the order of versions. -/
theorem advance_least (v : Version) (kind : ReleaseKind) :
    (∀ w, v.advance kind = .ok w → v < w ∧ w.build = [])
    ∧ (∀ w, v.advance .patch = .ok w → (w.isPreRelease = false ∧ v < w)
      ∧ ∀ u : Version, u.isPreRelease = false → v < u → w ≤ u)
    ∧ (∀ w, v.isPreRelease = false → v.advance .preRelease = .ok w →
      ∀ u : Version, ¬ (v < u ∧ u < w))
    ∧ ∀ v' w w', kind ≠ .preRelease → v ≤ v' → v.advance kind = .ok w →
      v'.advance kind = .ok w' → w ≤ w' := by
  refine ⟨fun w h => ⟨lt_of_advance h, build_of_advance h⟩, fun w h => ?_, fun w hv h u => ?_,
    fun v' w w' hkind hle h h' => ?_⟩
  · obtain ⟨hrelease, hleast⟩ := advance_patch_least h
    exact ⟨⟨hrelease, lt_of_advance h⟩, hleast⟩
  · rintro ⟨habove, hbelow⟩
    exact not_lt_iff_le.2 (advance_preRelease_le hv h habove) hbelow
  · exact advance_le_advance hkind hle h h'

/-- From `1.2.3` up, and from the higher `2.0.0-0+a`. -/
theorem advance_least_release :
    let v : Version := ⟨.ofNat 1, .ofNat 2, .ofNat 3, [], []⟩
    let v' : Version := ⟨.ofNat 2, .zero, .zero, [.zero], [⟨['a'], by decide⟩]⟩
    let patch : Version := ⟨.ofNat 1, .ofNat 2, .ofNat 4, [], []⟩
    (v < patch ∧ ∀ u : Version, u.isPreRelease = false → v < u → patch ≤ u)
    ∧ (∀ u : Version, ¬ (v < u ∧ u < patch.openPreRelease))
    ∧ (∃ w, v'.advance .preRelease = .ok w ∧ v' < w ∧ w.build = [])
    ∧ ∃ w w', v.advance .minor = .ok w ∧ v'.advance .minor = .ok w' ∧ w ≤ w' := by
  intro v v' patch
  obtain ⟨-, hpatch, hgap, hmono⟩ := advance_least v .minor
  obtain ⟨⟨-, habove⟩, hleast⟩ := hpatch patch rfl
  obtain ⟨w, hw⟩ : ∃ w, v.advance .minor = .ok w := ⟨_, rfl⟩
  obtain ⟨w', hw'⟩ : ∃ w', v'.advance .minor = .ok w' := ⟨_, rfl⟩
  obtain ⟨u, hu⟩ : ∃ u, v'.advance .preRelease = .ok u := ⟨_, rfl⟩
  refine ⟨⟨habove, hleast⟩, hgap _ rfl rfl, ⟨u, hu, (advance_least v' .preRelease).1 u hu⟩, ?_⟩
  have hle : v ≤ v' := by decide
  exact ⟨w, w', hw, hw', hmono v' w w' (by decide) hle hw hw'⟩

end Versioning.Version
