import Versioning.Proofs.Stability

set_option autoImplicit false

/-! # Collections of versions

A list of versions is sorted as a list of texts is, and equal versions keep their order. The sorted
list therefore ends with the extremes: it starts with the first of the lowest versions, and the last
of the highest comes last (`head?_sortAscending`, `getLast?_sortAscending`).

In a sorted list equal versions stand together. So a repeat is always next to what it repeats, and
what is left without the repeats is strictly ascending, with the first of all versions that are
equal to one another as they were listed (`dropRepeats_sortAscending`). -/

namespace Versioning.Version

/-! ## Sorted lists -/

theorem pairwise_sortAscending (vs : List Version) :
    (sortAscending vs).Pairwise (· ≤ ·) := by
  have hsorted := List.pairwise_mergeSort isRanking_le.trans isRanking_le.total vs
  exact hsorted.imp of_decide_eq_true

/-- **Sorting does not move the versions of one precedence against each other.** -/
theorem filter_sortAscending (v : Version) (vs : List Version) :
    (sortAscending vs).filter (fun w => decide (v.Equivalent w))
      = vs.filter fun w => decide (v.Equivalent w) := by
  have hties := isRanking_le.filter_tied_mergeSort v vs
  have htied : tied (fun v w : Version => decide (v ≤ w)) v = fun w => decide (v.Equivalent w) :=
    funext fun w => Bool.eq_iff_iff.2 (tied_le_iff.trans (decide_eq_true_iff).symm)
  rwa [htied] at hties

theorem find?_sortAscending (v : Version) (vs : List Version) :
    (sortAscending vs).find? (fun w => decide (v.Equivalent w))
      = vs.find? fun w => decide (v.Equivalent w) := by
  rw [← List.head?_filter, filter_sortAscending, List.head?_filter]

/-! ## Extremes -/

/-- All versions behind the last highest one are below it. -/
theorem exists_eq_append_of_lastHighest? {vs : List Version} {m : Version}
    (h : lastHighest? vs = some m) :
    ∃ front back, vs = front ++ m :: back ∧ (∀ u ∈ front, u ≤ m) ∧ ∀ u ∈ back, u < m := by
  refine exists_eq_append_of_champion? (P := fun u m => u ≤ m) (Q := fun m u => u < m)
    (fun v b hv => ?_) (fun v b hv => ?_) h
  · have hle : b ≤ v := of_decide_eq_true hv
    exact ⟨hle, fun u hu => hu.elim hle.trans' fun hub => hub.le.trans hle⟩
  · exact not_le_iff_lt.1 (of_decide_eq_false hv)

/-- All versions in front of the first lowest one are above it. -/
theorem exists_eq_append_of_firstLowest? {vs : List Version} {m : Version}
    (h : firstLowest? vs = some m) :
    ∃ front back, vs = front ++ m :: back ∧ (∀ u ∈ front, m < u) ∧ ∀ u ∈ back, m ≤ u := by
  refine exists_eq_append_of_champion? (P := fun u m => m < u) (Q := fun m u => m ≤ u)
    (fun v b hv => ?_) (fun v b hv => ?_) h
  · have hlt : v < b := of_decide_eq_true hv
    exact ⟨hlt, fun u hu => hu.elim hlt.trans fun hbu => hlt.trans_le hbu⟩
  · exact not_lt_iff_le.1 (of_decide_eq_false hv)

/-- **A sorted list starts with the first of the lowest versions.** -/
theorem head?_sortAscending (vs : List Version) :
    (sortAscending vs).head? = firstLowest? vs := by
  cases h : firstLowest? vs with
  | none =>
      rw [champion?_eq_none_iff.1 h, sortAscending, List.mergeSort_nil, List.head?_nil]
  | some m =>
      obtain ⟨front, back, hvs, hfront, hback⟩ := exists_eq_append_of_firstLowest? h
      refine isRanking_le.head?_mergeSort_eq_some_iff.2 ⟨front, back, hvs, fun u hu => ?_, ?_⟩
      · exact decide_eq_false (not_le_iff_lt.2 (hfront u hu))
      · exact fun u hu => decide_eq_true (hback u hu)

/-- **A sorted list ends with the last of the highest versions.** -/
theorem getLast?_sortAscending (vs : List Version) :
    (sortAscending vs).getLast? = lastHighest? vs := by
  -- Seen from its end, the list is sorted the other way.
  rw [sortAscending, isRanking_le.swap.mergeSort_reverse, List.getLast?_reverse]
  cases h : lastHighest? vs with
  | none =>
      rw [champion?_eq_none_iff.1 h, List.reverse_nil, List.mergeSort_nil, List.head?_nil]
  | some m =>
      obtain ⟨front, back, rfl, hfront, hback⟩ := exists_eq_append_of_lastHighest? h
      refine isRanking_le.swap.head?_mergeSort_eq_some_iff.2
        ⟨back.reverse, front.reverse, by simp, fun u hu => ?_, fun u hu => ?_⟩
      · exact decide_eq_false (not_le_iff_lt.2 (hback u (List.mem_reverse.1 hu)))
      · exact decide_eq_true (hfront u (List.mem_reverse.1 hu))

/-! ## Lists without repeats -/

section Repeats

variable {last : Version} {vs : List Version}

theorem lt_of_le_of_not_equivalent {a b : Version} (hle : a ≤ b) (h : ¬ b.Equivalent a) : a < b :=
  not_le_iff_lt.1 fun hge => h (equivalent_iff_le_and_le.2 ⟨hge, hle⟩)

/-- What is not repeated is above what is kept before it. -/
theorem pairwise_dropRepeats_go (h : (last :: vs).Pairwise (· ≤ ·)) :
    (last :: dropRepeats.go last vs).Pairwise (· < ·) := by
  induction vs generalizing last with
  | nil => exact List.pairwise_singleton _ _
  | cons w vs ih =>
      obtain ⟨hlast, hvs⟩ := List.pairwise_cons.1 h
      rw [dropRepeats.go]
      split
      · exact ih (h.sublist (.cons_cons _ (.cons _ (List.Sublist.refl vs))))
      · next hw =>
          have hlt := lt_of_le_of_not_equivalent (hlast w List.mem_cons_self) hw
          have hrest := ih hvs
          refine List.pairwise_cons.2 ⟨fun u hu => ?_, hrest⟩
          rcases List.mem_cons.1 hu with rfl | hu
          · exact hlt
          · exact hlt.trans ((List.pairwise_cons.1 hrest).1 u hu)

theorem find?_eq_none_of_lt {v w : Version} (hlt : v < w) (h : (w :: vs).Pairwise (· ≤ ·)) :
    (w :: vs).find? (fun u => decide (v.Equivalent u)) = none := by
  refine List.find?_eq_none.2 fun u hu hvu => ?_
  have huv : u ≤ v := (equivalent_iff_le_and_le.1 (of_decide_eq_true hvu)).2
  have hwu : w ≤ u := by
    rcases List.mem_cons.1 hu with rfl | hu
    · exact le_rfl
    · exact (List.pairwise_cons.1 h).1 u hu
  exact not_le_iff_lt.2 hlt (hwu.trans huv)

/-- Of versions that are equal to one another the first is kept, and no other. -/
theorem filter_dropRepeats_go (v : Version) (h : (last :: vs).Pairwise (· ≤ ·)) :
    (last :: dropRepeats.go last vs).filter (fun w => decide (v.Equivalent w))
      = ((last :: vs).find? fun w => decide (v.Equivalent w)).toList := by
  induction vs generalizing last with
  | nil =>
      rw [dropRepeats.go, List.filter_cons, List.find?_cons]
      cases decide (v.Equivalent last) <;> rfl
  | cons w vs ih =>
      obtain ⟨hlast, hvs⟩ := List.pairwise_cons.1 h
      rw [dropRepeats.go]
      split
      · next hw =>
          rw [ih (h.sublist (.cons_cons _ (.cons _ (List.Sublist.refl vs))))]
          have hsame : decide (v.Equivalent w) = decide (v.Equivalent last) :=
            decide_eq_decide.2 (by rw [equivalent_iff_rank_eq, equivalent_iff_rank_eq,
              equivalent_iff_rank_eq.1 hw])
          rw [List.find?_cons, List.find?_cons, List.find?_cons, hsame]
          cases decide (v.Equivalent last) <;> rfl
      · next hw =>
          rw [List.filter_cons, List.find?_cons, ih hvs]
          cases hv : decide (v.Equivalent last) with
          | false => rfl
          | true =>
              have hle := (equivalent_iff_le_and_le.1 (of_decide_eq_true hv)).1
              have hlt := lt_of_le_of_not_equivalent (hlast w List.mem_cons_self) hw
              rw [find?_eq_none_of_lt (hle.trans_lt hlt) hvs]
              rfl

/-- What is left of a sorted list is strictly ascending, with the first version of each
    precedence. -/
theorem dropRepeats_of_pairwise (h : vs.Pairwise (· ≤ ·)) :
    (dropRepeats vs).Pairwise (· < ·)
      ∧ ∀ v : Version, (dropRepeats vs).filter (fun w => decide (v.Equivalent w))
        = (vs.find? fun w => decide (v.Equivalent w)).toList := by
  cases vs with
  | nil => exact ⟨.nil, fun _ => rfl⟩
  | cons last vs => exact ⟨pairwise_dropRepeats_go h, fun v => filter_dropRepeats_go v h⟩

end Repeats

/-- **A sorted list without repeats is strictly ascending, and of the versions of one precedence it
    has the first that was listed.** -/
theorem dropRepeats_sortAscending (vs : List Version) :
    (dropRepeats (sortAscending vs)).Pairwise (· < ·)
      ∧ ∀ v : Version, (dropRepeats (sortAscending vs)).filter (fun w => decide (v.Equivalent w))
        = (vs.find? fun w => decide (v.Equivalent w)).toList := by
  obtain ⟨hascending, hfirst⟩ := dropRepeats_of_pairwise (pairwise_sortAscending vs)
  refine ⟨hascending, fun v => ?_⟩
  rw [hfirst, find?_sortAscending]

end Versioning.Version
