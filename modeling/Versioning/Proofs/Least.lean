import Versioning.Proofs.Absence

set_option autoImplicit false

/-! # The lowest version of a conjunction is its least

The resolver tests one version, its candidate. What is admitted and yet below the candidate is
passed over on the way to it (`candidate_le`), and only pre-releases are passed over. So where the
candidate is admitted, it is the least release that is, or lies below all of them; and where no
bound is strict, nothing is passed over and it is the least version of all. Where the candidate is
not admitted, no release is (`minimum?_isLeast`).

A candidate that is replaced by `0.0.0-0` is never admitted itself, so a start that is admitted is
the lowest version (`minimum?_of_start`). -/

namespace Versioning.Range

open Version

namespace Conjunction

variable {c : Conjunction} {m s v : Version}

/-! ## What is not passed over -/

theorem not_passesOver_of_release (hv : v.isPreRelease = false) : ¬ c.PassesOver v := by
  rintro ⟨hpre, -⟩
  rw [hv] at hpre
  cases hpre

/-- Nothing is passed over behind lower bounds that are not strict. -/
theorem not_passesOver_of_not_greater (hne : c.lower ≠ [])
    (hgreater : ∀ b ∈ c.lower, b.operator ≠ .greater) : ¬ c.PassesOver v := by
  rintro ⟨-, ⟨b, hb, hop, -⟩ | ⟨hnil, -⟩⟩
  · exact hgreater b hb hop
  · exact hne hnil

/-! ## The candidate as the lowest version -/

theorem minimum?_eq_some_iff (hfixed : c.fixedMinimum = none) :
    c.minimum? = some m ↔ c.candidate? = some m ∧ c.admits m = true := by
  rw [minimum?_of_not_fixed hfixed, Option.filter_eq_some_iff]

/-- A start that is admitted is the lowest version. -/
theorem minimum?_of_start (hfixed : c.fixedMinimum = none) (hs : c.start? = some s)
    (hadmits : c.admits s = true) : c.minimum? = some s := by
  have hkept : ¬ (c.endsBelowZero && !s.isPreRelease && isZero s) = true := by
    simp only [Bool.and_eq_true, Bool.not_eq_true', isZero, decide_eq_true_eq]
    rintro ⟨⟨hends, hpre⟩, hzero⟩
    exact lt_irrefl s (lt_of_endsBelowZero hends hadmits hpre hzero)
  refine (minimum?_eq_some_iff hfixed).2 ⟨?_, hadmits⟩
  rw [candidate?, hs, Option.map_some, if_neg hkept]

/-- **The lowest version of a conjunction is admitted, and no release that is admitted lies below
    it.** If there are lower bounds and none of them is strict, no version at all that is admitted
    does. If there is no lowest version, and not for want of a next patch, no release is admitted.
    The bounds have to be parted, as they are in every range that was read. -/
theorem minimum?_isLeast :
    (∀ c : Conjunction, c.IsParted → c.fixedMinimum = none →
      (∀ m, c.minimum? = some m →
        c.admits m = true
        ∧ (∀ v, c.admits v = true → v.isPreRelease = false → m ≤ v)
        ∧ (c.lower ≠ [] → (∀ b ∈ c.lower, b.operator ≠ .greater) →
          ∀ v, c.admits v = true → m ≤ v))
      ∧ (c.minimum? = none →
        (¬ ∃ b ∈ c.lower, b.operator = .greater ∧ b.bound.isPreRelease = false
          ∧ Numeral.wordSize ≤ b.bound.patch.value + 1) →
        ∀ v, c.admits v = true → v.isPreRelease = true))
    ∧ ∀ text r, parse text = .ok r →
      ∀ b ∈ r.branches, ∀ c, b.shape = .conjunction c → c.IsParted := by
  refine ⟨fun c hparted hfixed => ⟨fun m hm => ?_, fun hnone hfits v hv => ?_⟩, ?_⟩
  · obtain ⟨hcandidate, hadmits⟩ := (minimum?_eq_some_iff hfixed).1 hm
    refine ⟨hadmits, fun v hv hrelease => ?_, fun hne hgreater v hv => ?_⟩
    · exact candidate_le hparted hcandidate hv (not_passesOver_of_release hrelease)
    · exact candidate_le hparted hcandidate hv (not_passesOver_of_not_greater hne hgreater)
  · rcases (minimum?_eq_none_iff hparted hfixed).1 hnone with hover | hall
    · exact absurd hover hfits
    · exact (hall v hv).1
  · intro text r hr b hb c hc
    exact (isParted_of_parse hr).2 b hb c hc

/-- Behind a strict bound a pre-release is passed over, behind one that is not strict it is the
    lowest version. Between a pre-release and its release there are pre-releases only. -/
theorem minimum?_isLeast_preRelease :
    let a : Version := ⟨.ofNat 1, .zero, .zero, [.zero], []⟩
    let strict : Conjunction := ⟨[⟨.greater, a⟩], [⟨.lessOrEqual, a.release⟩], none⟩
    let loose : Conjunction := ⟨[⟨.greaterOrEqual, a⟩], [⟨.less, a.release⟩], none⟩
    let hollow : Conjunction := ⟨[⟨.greater, a⟩], [⟨.less, a.release⟩], none⟩
    (strict.IsParted ∧ strict.minimum? = some a.release
      ∧ ∀ v, strict.admits v = true → v.isPreRelease = false → a.release ≤ v)
    ∧ (loose.IsParted ∧ loose.minimum? = some a ∧ ∀ v, loose.admits v = true → a ≤ v)
    ∧ (hollow.IsParted ∧ hollow.minimum? = none
      ∧ ∀ v, hollow.admits v = true → v.isPreRelease = true) := by
  intro a strict loose hollow
  have hstrict : strict.IsParted := ⟨by decide, by decide⟩
  have hloose : loose.IsParted := ⟨by decide, by decide⟩
  have hhollow : hollow.IsParted := ⟨by decide, by decide⟩
  have hmstrict : strict.minimum? = some a.release := by decide
  have hmloose : loose.minimum? = some a := by decide
  have hmhollow : hollow.minimum? = none := by decide
  obtain ⟨-, hreleases, -⟩ := (minimum?_isLeast.1 strict hstrict rfl).1 _ hmstrict
  obtain ⟨-, -, hall⟩ := (minimum?_isLeast.1 loose hloose rfl).1 _ hmloose
  exact ⟨⟨hstrict, hmstrict, hreleases⟩, ⟨hloose, hmloose, hall (by decide) (by decide)⟩,
    hhollow, hmhollow, (minimum?_isLeast.1 hollow hhollow rfl).2 hmhollow (by decide)⟩

end Conjunction

end Versioning.Range
