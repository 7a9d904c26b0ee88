import Versioning.Proofs.Alternatives
import Versioning.Proofs.Order

set_option autoImplicit false

/-! # Joining ranges

Two range expressions that are joined by bars make a range that admits what either of them admits.
Its lowest version is the lower of the two, and that of the first expression where they are equal:
the lowest version of a list is found by a fold of `lower`, which is associative although it prefers
the left of two equal versions, so it may be found part by part. -/

namespace Versioning.Range

open Text

/-! ## Ranges with the branches of two others -/

variable {p q r : Range}

theorem admits_of_branches (h : r.branches = p.branches ++ q.branches) (v : Version) :
    r.admits v = (p.admits v || q.admits v) := by
  rw [admits, h, List.any_append]
  rfl

theorem minimum?_of_branches (h : r.branches = p.branches ++ q.branches) :
    r.minimum? = p.minimum?.merge Version.lower q.minimum? := by
  rw [minimum?, h, List.filterMap_append, Version.firstLowest?_append]
  rfl

/-- **Range expressions are joined by bars.** The first part is about any two expressions that are
    not blank, however they are written, and the second says that blank ones alone are refused. -/
theorem parse_bars :
    (∀ a b : String, ¬ IsGap a.toList → ¬ IsGap b.toList →
      ∃ p q r, parse a = .ok p ∧ parse b = .ok q ∧ parse (a ++ " || " ++ b) = .ok r
        ∧ r.branches = p.branches ++ q.branches
        ∧ (∀ v, r.admits v = (p.admits v || q.admits v))
        ∧ r.minimum? = p.minimum?.merge Version.lower q.minimum?
        ∧ (r.minimum? = none ↔ p.minimum? = none ∧ q.minimum? = none))
    ∧ ∀ text f, parse text = .error f ↔ IsGap text.toList ∧ f = .empty := by
  refine ⟨fun a b ha hb => ?_, fun text f => parse_eq_error_iff⟩
  let p : Range := ⟨branchesOf a.toList, a⟩
  let q : Range := ⟨branchesOf b.toList, b⟩
  let r : Range := ⟨branchesOf (a ++ " || " ++ b).toList, a ++ " || " ++ b⟩
  have htext : (a ++ " || " ++ b).toList = a.toList ++ (bars ++ b.toList) := by
    rw [String.toList_append, String.toList_append, List.append_assoc]
    rfl
  have hgap : ¬ IsGap (a ++ " || " ++ b).toList := by
    intro hall
    rw [htext] at hall
    exact ha fun c hc => hall c (List.mem_append_left _ hc)
  have hbranches : r.branches = p.branches ++ q.branches := by
    show branchesOf (a ++ " || " ++ b).toList = _
    rw [htext]
    exact branchesOf_append ha hb
  have hminimum := minimum?_of_branches hbranches
  refine ⟨p, q, r, parse_eq_ok_iff.2 ⟨ha, rfl⟩, parse_eq_ok_iff.2 ⟨hb, rfl⟩,
    parse_eq_ok_iff.2 ⟨hgap, rfl⟩, hbranches, admits_of_branches hbranches, hminimum, ?_⟩
  rw [hminimum, Option.merge_eq_none_iff]

/-- Bars at the seam, a branch that cannot be read, and lowest versions that differ in their build
    alone. -/
theorem parse_bars_stray :
    ∃ p q r, parse ">=1.0.0+a || ?|" = .ok p ∧ parse "|| =1.0.0+b" = .ok q
      ∧ parse ">=1.0.0+a || ?| || || =1.0.0+b" = .ok r
      ∧ r.branches.length = 4 ∧ r.minimum? = p.minimum? ∧ r.minimum? ≠ q.minimum? := by
  have ha : ((parse ">=1.0.0+a || ?|").toOption.map fun p => (p.branches.length, p.minimum?))
      = some (2, some ⟨.ofNat 1, .zero, .zero, [], [⟨['a'], by decide⟩]⟩) := by decide
  have hb : ((parse "|| =1.0.0+b").toOption.map fun q => (q.branches.length, q.minimum?))
      = some (2, some ⟨.ofNat 1, .zero, .zero, [], [⟨['b'], by decide⟩]⟩) := by decide
  obtain ⟨p, q, r, hp, hq, hr, hbranches, -, hminimum, -⟩ :=
    parse_bars.1 ">=1.0.0+a || ?|" "|| =1.0.0+b" (by decide) (by decide)
  rw [hp] at ha
  rw [hq] at hb
  obtain ⟨hplength, hpminimum⟩ := Prod.mk.inj (Option.some.inj ha)
  obtain ⟨hqlength, hqminimum⟩ := Prod.mk.inj (Option.some.inj hb)
  refine ⟨p, q, r, hp, hq, hr, ?_, ?_, ?_⟩
  · rw [hbranches, List.length_append, hplength, hqlength]
  · rw [hminimum, hpminimum, hqminimum]
    decide
  · rw [hminimum, hpminimum, hqminimum]
    decide

end Versioning.Range
