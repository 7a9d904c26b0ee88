import Versioning.Proofs.Operand
import Versioning.Proofs.Order
import Versioning.Range.Conjunction

set_option autoImplicit false

/-! # The lowest version and the order of comparators

What a comparator admits is an interval of the order of versions (`Comparator.admits_of_between`),
so all that counts of a version is its precedence. The lowest version of a conjunction depends on
the order of its comparators only in its build: each step of the computation gives versions of equal
precedence for lists that are permutations of each other (`minimum?_perm`). The build may differ,
since the highest of the starts is the first of equal ones. -/

namespace Versioning.Range

open Version

/-- Related optional values are mapped to related optional values. -/
theorem rel_map {α β : Type} {R : α → α → Prop} {S : β → β → Prop} {f g : α → β}
    {x y : Option α} (h : Option.Rel R x y) (hfg : ∀ a b, R a b → S (f a) (g b)) :
    Option.Rel S (x.map f) (y.map g) := by
  cases h with
  | none => exact .none
  | some h => exact .some (hfg _ _ h)

/-! ## Comparators and the order -/

namespace Comparator

variable {b : Comparator} {u v w : Version}

/-- An upper bound admits all below what it admits. -/
theorem admits_of_le (hb : b.operator.boundsAbove = true) (hvw : v ≤ w)
    (hw : b.admits w = true) : b.admits v = true := by
  obtain ⟨operator, bound⟩ := b
  cases operator with
  | equal | greater | greaterOrEqual => cases hb
  | less =>
      simp only [admits, decide_eq_true_eq] at hw ⊢
      exact hvw.trans_lt hw
  | lessOrEqual =>
      simp only [admits, decide_eq_true_eq] at hw ⊢
      exact hvw.trans hw

/-- **Between two versions that a comparator admits, it admits all.** -/
theorem admits_of_between (huv : u ≤ v) (hvw : v ≤ w) (hu : b.admits u = true)
    (hw : b.admits w = true) : b.admits v = true := by
  obtain ⟨operator, bound⟩ := b
  cases operator with
  | less | lessOrEqual => exact admits_of_le rfl hvw hw
  | equal =>
      simp only [admits, decide_eq_true_eq, equivalent_iff_le_and_le] at hu hw ⊢
      exact ⟨hvw.trans hw.1, hu.2.trans huv⟩
  | greater =>
      simp only [admits, decide_eq_true_eq] at hu ⊢
      exact hu.trans_le huv
  | greaterOrEqual =>
      simp only [admits, decide_eq_true_eq] at hu ⊢
      exact hu.trans huv

theorem admits_congr (h : v.Equivalent w) (b : Comparator) : b.admits v = b.admits w := by
  obtain ⟨hvw, hwv⟩ := equivalent_iff_le_and_le.1 h
  rw [Bool.eq_iff_iff]
  exact ⟨fun hv => admits_of_between hvw hwv hv hv, fun hw => admits_of_between hwv hvw hw hw⟩

end Comparator

namespace Conjunction

theorem admits_congr {v w : Version} (h : v.Equivalent w) (c : Conjunction) :
    c.admits v = c.admits w := by
  simp only [admits, Comparator.admits_congr h]

theorem isZero_congr {v w : Version} (h : v.Equivalent w) : isZero v = isZero w := by
  rw [isZero, isZero, release_eq_of_equivalent h]

variable {c d : Conjunction}

theorem minimum?_of_fixed {v : Version} (h : c.fixedMinimum = some v) : c.minimum? = some v := by
  rw [minimum?, h]

/-- Where it is not fixed, the lowest version is the candidate if this is admitted. -/
theorem minimum?_of_not_fixed (h : c.fixedMinimum = none) :
    c.minimum? = c.candidate?.filter c.admits := by
  rw [minimum?, h]

/-! ## The order of the bounds -/

theorem start?_perm (h : c.lower.Perm d.lower) :
    Option.Rel Equivalent c.start? d.start? := by
  refine rel_map (mapM_perm h) fun vs ws hperm => ?_
  have hhighest := firstHighest?_perm hperm
  -- The lists are permutations, so both have a highest version or both default to `0.0.0`.
  cases hv : firstHighest? vs <;> cases hw : firstHighest? ws <;> rw [hv, hw] at hhighest
  · exact equivalent_iff_rank_eq.2 rfl
  · cases hhighest
  · cases hhighest
  · cases hhighest with
    | some hvw => exact hvw

theorem candidate?_perm (hlower : c.lower.Perm d.lower) (hupper : c.upper.Perm d.upper) :
    Option.Rel Equivalent c.candidate? d.candidate? := by
  have hends : c.endsBelowZero = d.endsBelowZero := hupper.any_eq
  refine rel_map (start?_perm hlower) fun v w hvw => ?_
  rw [hends, isZero_congr hvw, isPreRelease_eq_of_equivalent hvw]
  split
  · exact equivalent_iff_rank_eq.2 rfl
  · exact hvw

theorem admits_perm (hlower : c.lower.Perm d.lower) (hupper : c.upper.Perm d.upper)
    (v : Version) : c.admits v = d.admits v :=
  (hlower.append hupper).all_eq

/-- **The order of the comparators matters for the build of the lowest version alone.** -/
theorem minimum?_perm (hlower : c.lower.Perm d.lower) (hupper : c.upper.Perm d.upper)
    (hc : c.fixedMinimum = none) (hd : d.fixedMinimum = none) :
    Option.Rel Equivalent c.minimum? d.minimum? := by
  have hcandidate := candidate?_perm hlower hupper
  rw [minimum?_of_not_fixed hc, minimum?_of_not_fixed hd]
  generalize c.candidate? = x, d.candidate? = y at hcandidate
  cases hcandidate with
  | none => exact .none
  | @some v w hvw =>
      rw [Option.filter_some, Option.filter_some, admits_perm hlower hupper v, admits_congr hvw d]
      split
      · exact .some hvw
      · exact .none

theorem minimum?_ofComparators_perm {cs ds : List Comparator} (h : cs.Perm ds) :
    Option.Rel Equivalent (ofComparators cs none).minimum? (ofComparators ds none).minimum? :=
  minimum?_perm (h.filter _) (h.filter _) rfl rfl

end Conjunction

end Versioning.Range
