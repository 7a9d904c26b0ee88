import Versioning.Proofs.Minimum
import Versioning.Proofs.RoundTrip
import Versioning.Proofs.Triple

set_option autoImplicit false

/-! # Ranges without a lowest version

The lowest version of a conjunction is looked for at one place, which is found from its lower
bounds: a strict bound is passed by going to its next patch, and without any lower bound the place
is `0.0.0`. Pre-releases on the way there are passed over, and a next patch that does not fit a
64-bit word is no place at all. But for these two cases there is a lowest version as soon as any
version is admitted, since what is admitted does not lie below the place
(`Conjunction.minimum?_eq_none_iff`). -/

namespace Versioning.Range

open Version

namespace Conjunction

variable {b : Comparator} {c : Conjunction} {m s v : Version}

theorem admits_iff : c.admits v = true
    ↔ (∀ b ∈ c.lower, b.admits v = true) ∧ ∀ b ∈ c.upper, b.admits v = true := by
  rw [admits, comparators, List.all_append, Bool.and_eq_true, List.all_eq_true, List.all_eq_true]

/-! ## Starts -/

/-- A lower bound admits what it starts at. -/
theorem admits_startOf (hb : b.operator.boundsAbove = false) (h : startOf b = .ok s) :
    b.admits s = true := by
  obtain ⟨operator, bound⟩ := b
  cases operator with
  | less | lessOrEqual => cases hb
  | equal =>
      cases h
      exact decide_eq_true (equivalent_iff_le_and_le.2 ⟨le_rfl, le_rfl⟩)
  | greater => exact decide_eq_true (of_advance_patch h).2.1
  | greaterOrEqual =>
      cases h
      exact decide_eq_true le_rfl

/-- What a lower bound admits is not below its start, but for the pre-releases of a next patch. -/
theorem startOf_le (hb : b.operator.boundsAbove = false) (h : startOf b = .ok s)
    (hv : b.admits v = true) :
    s ≤ v ∨ v.isPreRelease = true ∧ b.operator = .greater ∧ b.bound < v
      ∧ b.bound.advance .patch = .ok v.release := by
  obtain ⟨operator, bound⟩ := b
  cases operator with
  | less | lessOrEqual => cases hb
  | equal =>
      cases h
      simp only [Comparator.admits, decide_eq_true_eq, equivalent_iff_le_and_le] at hv
      exact Or.inl hv.2
  | greater =>
      simp only [Comparator.admits, decide_eq_true_eq] at hv
      rcases le_or_of_advance_patch h hv with hle | ⟨hpre, hrelease⟩
      · exact Or.inl hle
      · exact Or.inr ⟨hpre, rfl, hv, hrelease ▸ h⟩
  | greaterOrEqual =>
      cases h
      simp only [Comparator.admits, decide_eq_true_eq] at hv
      exact Or.inl hv

/-- A strict bound is a release whose next patch does not fit. -/
def Overflows (c : Conjunction) : Prop :=
  ∃ b ∈ c.lower, b.operator = .greater ∧ b.bound.isPreRelease = false
    ∧ Numeral.wordSize ≤ b.bound.patch.value + 1

instance (c : Conjunction) : Decidable c.Overflows :=
  inferInstanceAs (Decidable (∃ b ∈ c.lower, _))

theorem toOption_startOf_eq_none_iff : (startOf b).toOption = none
    ↔ b.operator = .greater ∧ b.bound.isPreRelease = false
      ∧ Numeral.wordSize ≤ b.bound.patch.value + 1 := by
  obtain ⟨operator, bound⟩ := b
  cases operator with
  | greater =>
      rw [startOf, toOption_advance_patch_eq_none_iff]
      simp
  | equal | less | lessOrEqual | greaterOrEqual => simp [startOf, Except.toOption]

theorem start?_eq_none_iff : c.start? = none ↔ c.Overflows := by
  rw [start?, Option.map_eq_none_iff, mapM_eq_none_iff]
  simp only [toOption_startOf_eq_none_iff]
  rfl

theorem toOption_startOf_eq_some_iff : (startOf b).toOption = some s ↔ startOf b = .ok s := by
  cases startOf b <;> simp [Except.toOption]

/-- Without lower bounds, the start is `0.0.0`. -/
theorem start?_of_eq_nil (h : c.lower = []) : c.start? = some .zero := by
  rw [start?, h]
  rfl

/-- **The start of a conjunction is the highest of the starts of its lower bounds.** -/
theorem of_start? (h : c.start? = some s) :
    (∀ b ∈ c.lower, ∃ t, startOf b = .ok t ∧ t ≤ s)
    ∧ (c.lower ≠ [] → ∃ b ∈ c.lower, startOf b = .ok s) := by
  obtain ⟨starts, hstarts, hs⟩ := Option.map_eq_some_iff.1 h
  obtain ⟨hall, rfl⟩ := mapM_eq_some_iff.1 hstarts
  cases hhighest : firstHighest? (c.lower.filterMap fun b => (startOf b).toOption) with
  | none =>
      have hnil := champion?_eq_none_iff.1 hhighest
      have hlower : c.lower = [] := by
        refine List.eq_nil_iff_forall_not_mem.2 fun b hb => ?_
        have hsome := hall b hb
        rw [List.filterMap_eq_nil_iff.1 hnil b hb] at hsome
        cases hsome
      refine ⟨fun b hb => ?_, fun hne => absurd hlower hne⟩
      rw [hlower] at hb
      cases hb
  | some t =>
      rw [hhighest] at hs
      cases hs
      obtain ⟨hmem, hle⟩ := firstHighest?_spec hhighest
      refine ⟨fun b hb => ?_, fun _ => ?_⟩
      · obtain ⟨u, hu⟩ := Option.isSome_iff_exists.1 (hall b hb)
        exact ⟨u, toOption_startOf_eq_some_iff.1 hu, hle u (List.mem_filterMap.2 ⟨b, hb, hu⟩)⟩
      · obtain ⟨b, hb, hstart⟩ := List.mem_filterMap.1 hmem
        exact ⟨b, hb, toOption_startOf_eq_some_iff.1 hstart⟩

/-! ## The candidate -/

/-- A pre-release is passed over on the way to the candidate: it is one of the next patch behind a
    strict bound, or one of `0.0.0` where there is no lower bound and no need to end below it. -/
def PassesOver (c : Conjunction) (v : Version) : Prop :=
  v.isPreRelease = true
    ∧ ((∃ b ∈ c.lower, b.operator = .greater ∧ b.bound < v
        ∧ b.bound.advance .patch = .ok v.release)
      ∨ (c.lower = [] ∧ v.release = .zero ∧ c.endsBelowZero = false))

instance (c : Conjunction) (v : Version) : Decidable (c.PassesOver v) :=
  inferInstanceAs (Decidable (_ ∧ (_ ∨ _)))

theorem candidate?_eq_none_iff : c.candidate? = none ↔ c.Overflows := by
  rw [candidate?, Option.map_eq_none_iff, start?_eq_none_iff]

/-- The candidate is the start, unless the start is `0.0.0` and all has to end below it. -/
theorem of_candidate? (h : c.candidate? = some m) : ∃ s, c.start? = some s
    ∧ ((c.endsBelowZero = true ∧ s.isPreRelease = false ∧ s.release = .zero ∧ m = .lowest)
      ∨ (m = s ∧ (c.endsBelowZero = true → s ≠ .zero))) := by
  obtain ⟨s, hs, hm⟩ := Option.map_eq_some_iff.1 h
  refine ⟨s, hs, ?_⟩
  split at hm
  · next hrewrite =>
      simp only [Bool.and_eq_true, Bool.not_eq_true', isZero, decide_eq_true_eq] at hrewrite
      exact Or.inl ⟨hrewrite.1.1, hrewrite.1.2, hrewrite.2, hm.symm⟩
  · next hkept =>
      refine Or.inr ⟨hm.symm, fun hends hzero => hkept ?_⟩
      rw [hends, hzero]
      rfl

/-- What ends below a pre-release of `0.0.0` ends below `0.0.0`. -/
theorem lt_of_endsBelowZero (hends : c.endsBelowZero = true) (hv : c.admits v = true)
    (hpre : s.isPreRelease = false) (hzero : s.release = .zero) : v < s := by
  obtain ⟨b, hb, hbound⟩ := List.any_eq_true.1 hends
  have hadmits := (admits_iff.1 hv).2 b hb
  obtain ⟨operator, bound⟩ := b
  simp only [Bool.and_eq_true, beq_iff_eq, isZero, decide_eq_true_eq] at hbound
  obtain ⟨⟨rfl, hboundPre⟩, hboundZero⟩ := hbound
  simp only [Comparator.admits, decide_eq_true_eq] at hadmits
  exact hadmits.trans (lt_of_triple_eq (triple_eq_iff.2 (hboundZero.trans hzero.symm)) hboundPre
    hpre)

/-- What is admitted and not passed over is not below the start, unless this is replaced. -/
theorem start_le (hparted : c.IsParted) (hs : c.start? = some s) (hv : c.admits v = true)
    (hnot : ¬ c.PassesOver v) : s ≤ v ∨ c.lower = [] ∧ c.endsBelowZero = true := by
  by_cases hlower : c.lower = []
  · cases (start?_of_eq_nil hlower).symm.trans hs
    rcases zero_le_or v with hle | ⟨hpre, hzero⟩
    · exact Or.inl hle
    · refine Or.inr ⟨hlower, ?_⟩
      by_contra hends
      exact hnot ⟨hpre, Or.inr ⟨hlower, hzero, Bool.eq_false_iff.2 hends⟩⟩
  · obtain ⟨b, hb, hstart⟩ := (of_start? hs).2 hlower
    rcases startOf_le (hparted.1 b hb) hstart ((admits_iff.1 hv).1 b hb) with hle | ⟨hpre, hnext⟩
    · exact Or.inl hle
    · exact absurd ⟨hpre, Or.inl ⟨b, hb, hnext⟩⟩ hnot

/-- Between the starts and a version that is admitted, all are. -/
theorem admits_of_starts_le (hparted : c.IsParted)
    (hstarts : ∀ b ∈ c.lower, ∃ t, startOf b = .ok t ∧ t ≤ m) (hmv : m ≤ v)
    (hv : c.admits v = true) : c.admits m = true := by
  obtain ⟨hlower, hupper⟩ := admits_iff.1 hv
  refine admits_iff.2 ⟨fun b hb => ?_, fun b hb => ?_⟩
  · obtain ⟨t, hstart, htm⟩ := hstarts b hb
    have ht : b.admits t = true := admits_startOf (hparted.1 b hb) hstart
    exact Comparator.admits_of_between htm hmv ht (hlower b hb)
  · exact Comparator.admits_of_le (hparted.2 b hb) hmv (hupper b hb)

/-- **What is admitted is not below the candidate, unless it is passed over.** -/
theorem candidate_le (hparted : c.IsParted) (hm : c.candidate? = some m) (hv : c.admits v = true)
    (hnot : ¬ c.PassesOver v) : m ≤ v := by
  obtain ⟨s, hs, ⟨-, -, -, rfl⟩ | ⟨rfl, hkept⟩⟩ := of_candidate? hm
  · exact lowest_le v
  · rcases start_le hparted hs hv hnot with hle | ⟨hnil, hends⟩
    · exact hle
    · cases (start?_of_eq_nil hnil).symm.trans hs
      exact absurd rfl (hkept hends)

/-- **The candidate is admitted as soon as a version is that is not passed over.** -/
theorem admits_candidate (hparted : c.IsParted) (hm : c.candidate? = some m)
    (hv : c.admits v = true) (hnot : ¬ c.PassesOver v) : c.admits m = true := by
  refine admits_of_starts_le hparted (fun b hb => ?_) (candidate_le hparted hm hv hnot) hv
  obtain ⟨s, hs, ⟨hends, hpre, hzero, rfl⟩ | ⟨rfl, -⟩⟩ := of_candidate? hm
  · -- The start is replaced only if nothing above it is admitted, so there is no lower bound.
    rcases start_le hparted hs hv hnot with hle | ⟨hnil, -⟩
    · exact absurd (lt_of_endsBelowZero hends hv hpre hzero) (not_lt_iff_le.2 hle)
    · rw [hnil] at hb
      cases hb
  · exact (of_start? hs).1 b hb

/-- The candidate itself is not passed over. -/
theorem not_passesOver_candidate (hm : c.candidate? = some m) : ¬ c.PassesOver m := by
  obtain ⟨s, hs, hcandidate⟩ := of_candidate? hm
  rintro ⟨hpre, ⟨b, hb, hop, hlt, hnext⟩ | ⟨hnil, -, hends⟩⟩
  · rcases hcandidate with ⟨-, -, -, rfl⟩ | ⟨rfl, -⟩
    · exact not_lt_iff_le.2 (lowest_le b.bound) hlt
    · -- The bound starts at the release of the candidate, which lies above the candidate.
      obtain ⟨t, hstart, ht⟩ := (of_start? hs).1 b hb
      rw [startOf, hop] at hstart
      cases hstart.symm.trans hnext
      exact not_lt_iff_le.2 ht (lt_of_triple_eq rfl hpre rfl)
  · rcases hcandidate with ⟨hends', -⟩ | ⟨rfl, -⟩
    · rw [hends] at hends'
      cases hends'
    · cases (start?_of_eq_nil hnil).symm.trans hs
      cases hpre

/-- **A conjunction has no lowest version exactly if a next patch does not fit or all that it admits
    is passed over.** -/
theorem minimum?_eq_none_iff (hparted : c.IsParted) (hfixed : c.fixedMinimum = none) :
    c.minimum? = none ↔ c.Overflows ∨ ∀ v, c.admits v = true → c.PassesOver v := by
  rw [minimum?_of_not_fixed hfixed]
  cases hm : c.candidate? with
  | none => exact iff_of_true rfl (Or.inl (candidate?_eq_none_iff.1 hm))
  | some m =>
      have hfits : ¬ c.Overflows := by
        rw [← candidate?_eq_none_iff, hm]
        exact Option.some_ne_none m
      rw [Option.filter_eq_none_iff, or_iff_right hfits]
      constructor
      · intro hrefused v hv
        by_contra hnot
        exact hrefused m rfl (admits_candidate hparted hm hv hnot)
      · intro hall n hn hadmits
        cases hn
        exact not_passesOver_candidate hm (hall m hadmits)

end Conjunction

/-! ## Ranges -/

theorem minimum?_eq_none_iff {r : Range} :
    r.minimum? = none ↔ ∀ b ∈ r.branches, b.minimum? = none := by
  rw [minimum?, firstLowest?, champion?_eq_none_iff, List.filterMap_eq_nil_iff]

/-- Ranges may admit versions and have no lowest one: below `0.0.0` are its pre-releases, between a
    pre-release and its release there are others, and behind a patch number that is too great to be
    counted up is the next minor version. -/
theorem no_minimum_of_admitted :
    let v : Version := ⟨.ofNat 1, .zero, .zero, [.numeric (.ofNat 1)], []⟩
    (∃ r, parse "<0.0.0" = .ok r ∧ r.admits .lowest = true ∧ r.minimum? = none)
      ∧ (∃ r, parse ">1.0.0-0 <1.0.0" = .ok r ∧ r.admits v = true ∧ r.minimum? = none)
      ∧ ∃ r, parse ">0.0.18446744073709551615" = .ok r ∧ r.admits v.release = true
        ∧ r.minimum? = none :=
  ⟨⟨_, parse_eq_ok_iff.2 ⟨by decide, rfl⟩, by decide, by decide⟩,
    ⟨_, parse_eq_ok_iff.2 ⟨by decide, rfl⟩, by decide, by decide⟩,
    ⟨_, parse_eq_ok_iff.2 ⟨by decide, rfl⟩, by decide, by decide⟩⟩

variable {text : String} {r : Range} {b : Branch} {v : Version}

/-- **A range that admits a version has a lowest version, unless a next patch does not fit or the
    version is passed over.** -/
theorem exists_minimum_of_admits (h : parse text = .ok r) (hb : b ∈ r.branches)
    (hv : b.admits v = true)
    (hfound : ∀ c, b.shape = .conjunction c → c.fixedMinimum = none →
      ¬ c.Overflows ∧ ¬ c.PassesOver v) :
    ∃ m, r.minimum? = some m := by
  have hparted := (isParted_of_parse h).2 b hb
  rw [← Option.isSome_iff_exists, Option.isSome_iff_ne_none, Ne, minimum?_eq_none_iff]
  intro hnone
  have hbranch := hnone b hb
  obtain ⟨shape, label⟩ := b
  cases shape with
  | everything => cases hbranch
  | nothing => cases hv
  | conjunction c =>
      cases hfixed : c.fixedMinimum with
      | some fixed => cases (Conjunction.minimum?_of_fixed hfixed).symm.trans hbranch
      | none =>
          obtain ⟨hfits, hnot⟩ := hfound c rfl hfixed
          have hwhy := (Conjunction.minimum?_eq_none_iff (hparted c rfl) hfixed).1 hbranch
          rcases hwhy with hover | hall
          · exact hfits hover
          · exact hnot (hall v hv)

/-- A pre-release that is not passed over, as the bound below it is not strict. -/
theorem exists_minimum_of_admits_preRelease :
    let a : Version := ⟨.ofNat 1, .zero, .zero, [.zero], []⟩
    let v : Version := ⟨.ofNat 1, .zero, .zero, [.numeric (.ofNat 1)], []⟩
    let c : Conjunction := ⟨[⟨.greaterOrEqual, a⟩], [⟨.less, v.release⟩], none⟩
    let below : Conjunction := ⟨[], [⟨.less, .zero⟩], none⟩
    let text := "<0.0.0 || >=1.0.0-0 <1.0.0"
    let b : Branch := ⟨.conjunction c, some ">=1.0.0-0 <1.0.0"⟩
    let r : Range := ⟨[⟨.conjunction below, some "<0.0.0"⟩, b], text⟩
    parse text = .ok r ∧ b ∈ r.branches ∧ b.admits v = true ∧ ¬ c.Overflows ∧ ¬ c.PassesOver v
      ∧ ∃ m, r.minimum? = some m := by
  intro a v c below text b r
  have hparse : parse text = .ok r := by decide
  have hb : b ∈ r.branches := List.mem_cons_of_mem _ List.mem_cons_self
  have hv : b.admits v = true := by decide
  have hfits : ¬ c.Overflows := by decide
  have hnot : ¬ c.PassesOver v := by decide
  refine ⟨hparse, hb, hv, hfits, hnot, exists_minimum_of_admits hparse hb hv ?_⟩
  intro d hd _
  cases hd
  exact ⟨hfits, hnot⟩

end Versioning.Range
