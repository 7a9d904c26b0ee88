import Versioning.Proofs.Sorting

set_option autoImplicit false

/-! # Selecting texts

A range expression selects from a list the texts that satisfy it, in their order. As sorting and
filtering commute, it makes no difference whether a list is sorted before or after the selection.
The highest and the lowest text that are selected stand at the head of the sorted selection, so of
several with the same precedence it is the one listed first, in whatever way it is written. -/

namespace Versioning

/-! ## Satisfaction -/

/-- **What is selected is what satisfies the range expression.** -/
theorem satisfying_eq_filter (texts : List String) (range : String) :
    satisfying texts range = texts.filter (satisfies · range) := by
  unfold satisfying satisfies
  cases Range.parse range with
  | error f => exact (List.filter_eq_nil_iff.2 fun _ _ => Bool.false_ne_true).symm
  | ok r => rfl

/-- What satisfies a range expression is a version. -/
theorem exists_version_of_satisfies {text range : String} (h : satisfies text range = true) :
    ∃ v, Version.parseTagged text = .ok v := by
  unfold satisfies at h
  cases hr : Range.parse range with
  | error f => simp [hr] at h
  | ok r =>
      cases hv : Version.parseTagged text with
      | error f => simp [hr, Range.admitsText, hv] at h
      | ok v => exact ⟨v, rfl⟩

/-! ## Sorted selections -/

section Ordered

variable {le : Version → Version → Bool}

theorem orderedBy_satisfying (h : IsRanking le) (texts : List String) (range : String) :
    orderedBy le (satisfying texts range) = satisfying (orderedBy le texts) range := by
  rw [satisfying_eq_filter, satisfying_eq_filter, orderedBy_filter h]

/-- The sorted selection is empty only if nothing is selected. -/
theorem head?_orderedBy_satisfying_eq_none_iff {texts : List String} {range : String} :
    (orderedBy le (satisfying texts range)).head? = none
      ↔ ∀ t ∈ texts, satisfies t range = false := by
  rw [List.head?_eq_none_iff, orderedBy, List.map_eq_nil_iff, ← List.length_eq_zero_iff,
    List.length_mergeSort, List.length_eq_zero_iff, satisfying_eq_filter]
  constructor
  · intro hnil t ht
    by_contra hsat
    rw [Bool.not_eq_false] at hsat
    obtain ⟨v, hv⟩ := exists_version_of_satisfies hsat
    have hselected : t ∈ texts.filter (satisfies · range) := List.mem_filter.2 ⟨ht, hsat⟩
    have hmem := mem_readable_iff.2 ⟨hselected, hv⟩
    rw [hnil] at hmem
    cases hmem
  · intro hall
    rw [List.filter_eq_nil_iff.2 fun t ht => by simp [hall t ht]]
    rfl

end Ordered

theorem highestSatisfying?_eq (texts : List String) (range : String) :
    highestSatisfying? texts range
      = (orderedBy (fun v w => decide (w ≤ v)) (satisfying texts range)).head? := rfl

theorem lowestSatisfying?_eq (texts : List String) (range : String) :
    lowestSatisfying? texts range
      = (orderedBy (fun v w => decide (v ≤ w)) (satisfying texts range)).head? := rfl

/-! ## The laws of selection -/

/-- **Selecting, sorting and looking for an extreme agree.** The first part says what is selected,
    and the second that a list may be sorted before or after. The last two are about the highest and
    the lowest text: there is none only if no text satisfies the range expression, and otherwise it
    is the first listed of the selected texts whose precedence no other one exceeds. -/
theorem satisfying_laws (texts : List String) (range : String) :
    satisfying texts range = texts.filter (satisfies · range)
    ∧ (ascending (satisfying texts range) = satisfying (ascending texts) range
      ∧ descending (satisfying texts range) = satisfying (descending texts) range)
    ∧ ((highestSatisfying? texts range = none ↔ ∀ t ∈ texts, satisfies t range = false)
      ∧ ∀ t, highestSatisfying? texts range = some t ↔ ∃ before behind v,
        texts.filter (satisfies · range) = before ++ t :: behind
          ∧ Version.parseTagged t = .ok v
          ∧ (∀ u ∈ before, ∀ w, Version.parseTagged u = .ok w → w < v)
          ∧ ∀ u ∈ behind, ∀ w, Version.parseTagged u = .ok w → w ≤ v)
    ∧ ((lowestSatisfying? texts range = none ↔ ∀ t ∈ texts, satisfies t range = false)
      ∧ ∀ t, lowestSatisfying? texts range = some t ↔ ∃ before behind v,
        texts.filter (satisfies · range) = before ++ t :: behind
          ∧ Version.parseTagged t = .ok v
          ∧ (∀ u ∈ before, ∀ w, Version.parseTagged u = .ok w → v < w)
          ∧ ∀ u ∈ behind, ∀ w, Version.parseTagged u = .ok w → v ≤ w) := by
  have hup := isRanking_le
  have hdown := isRanking_le.swap
  refine ⟨satisfying_eq_filter texts range,
    ⟨orderedBy_satisfying hup texts range, orderedBy_satisfying hdown texts range⟩,
    ⟨?_, fun t => ?_⟩, ⟨?_, fun t => ?_⟩⟩
  · rw [highestSatisfying?_eq, head?_orderedBy_satisfying_eq_none_iff]
  · rw [highestSatisfying?_eq, head?_orderedBy_eq_some_iff hdown, satisfying_eq_filter]
    simp only [decide_eq_false_iff_not, decide_eq_true_eq, Version.not_le_iff_lt]
  · rw [lowestSatisfying?_eq, head?_orderedBy_satisfying_eq_none_iff]
  · rw [lowestSatisfying?_eq, head?_orderedBy_eq_some_iff hup, satisfying_eq_filter]
    simp only [decide_eq_false_iff_not, decide_eq_true_eq, Version.not_le_iff_lt]

/-- Of equal versions the first that is listed is given, in its own spelling. -/
example : highestSatisfying? ["v2.0.0+b", "2.0.0", "?"] "2" = some "v2.0.0+b" := by
  cbv

end Versioning
