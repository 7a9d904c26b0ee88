import Mathlib.Data.List.Basic
import Versioning.Proofs.Order
import Versioning.Selection

set_option autoImplicit false

/-! # Stable sorting

Sorting is stable: elements of which neither has to stand before the other keep their order. This is
said here by one law, that sorting and filtering commute (`mergeSort_filter`). It follows that the
sorted list starts with the first of the least elements as they were listed (`head?_mergeSort`).

Texts are sorted by the versions that they are read as, and texts that are no versions are left out.
Both laws carry over to texts, whatever the order of the versions is (`orderedBy_filter`,
`head?_orderedBy_eq_some_iff`). -/

namespace Versioning

/-! ## Lists -/

/-- A test by which a list can be sorted: of any two elements one may stand before the other, and
    perhaps either of them before the other. -/
structure IsRanking {α : Type} (le : α → α → Bool) : Prop where
  trans : ∀ a b c, le a b = true → le b c = true → le a c = true
  total : ∀ a b, (le a b || le b a) = true

/-- Elements are ranked by what they are mapped to. -/
theorem IsRanking.comap {α β : Type} {le : β → β → Bool} (h : IsRanking le) (f : α → β) :
    IsRanking fun a b => le (f a) (f b) :=
  ⟨fun a b c => h.trans (f a) (f b) (f c), fun a b => h.total (f a) (f b)⟩

/-- The opposite order is one, too. -/
theorem IsRanking.swap {α : Type} {le : α → α → Bool} (h : IsRanking le) :
    IsRanking fun a b => le b a :=
  ⟨fun a b c hab hbc => h.trans c b a hbc hab, fun a b => h.total b a⟩

namespace IsRanking

variable {α : Type} {le : α → α → Bool}

theorem refl (h : IsRanking le) (a : α) : le a a = true := by
  simpa using h.total a a

/-- What stands before `a` in a list is what does not come behind it, if all the rest does. -/
theorem filter_not_le_append {a : α} {before behind : List α}
    (hbefore : ∀ b ∈ before, (!le a b) = true) (hbehind : ∀ b ∈ behind, le a b = true) :
    (before ++ behind).filter (!le a ·) = before := by
  have hnil : behind.filter (!le a ·) = [] :=
    List.filter_eq_nil_iff.2 fun b hb => by simp [hbehind b hb]
  rw [List.filter_append, List.filter_eq_self.2 hbefore, hnil, List.append_nil]

variable (h : IsRanking le)

include h

/-- Sorting a list puts its head into the sorted tail, behind all that does not come behind it. -/
theorem mergeSort_cons_eq (a : α) (xs : List α) :
    ∃ before behind, (a :: xs).mergeSort le = before ++ a :: behind
      ∧ xs.mergeSort le = before ++ behind ∧ (∀ b ∈ before, (!le a b) = true)
      ∧ ∀ b ∈ behind, le a b = true := by
  obtain ⟨before, behind, hcons, hxs, hbefore⟩ := List.mergeSort_cons h.trans h.total a xs
  have hsorted := List.pairwise_mergeSort h.trans h.total (a :: xs)
  rw [hcons, List.pairwise_append, List.pairwise_cons] at hsorted
  exact ⟨before, behind, hcons, hxs, hbefore, hsorted.2.1.1⟩

/-- **Sorting and filtering commute.** -/
theorem mergeSort_filter (p : α → Bool) (xs : List α) :
    (xs.filter p).mergeSort le = (xs.mergeSort le).filter p := by
  induction xs with
  | nil => simp
  | cons a xs ih =>
      obtain ⟨before, behind, hcons, hxs, hbefore, hbehind⟩ :=
        mergeSort_cons_eq h a xs
      rw [hxs, List.filter_append] at ih
      cases ha : p a with
      | false =>
          rw [List.filter_cons_of_neg (by simp [ha]), hcons, List.filter_append,
            List.filter_cons_of_neg (by simp [ha]), ih]
      | true =>
          obtain ⟨before', behind', hcons', hxs', hbefore', hbehind'⟩ :=
            mergeSort_cons_eq h a (xs.filter p)
          -- The two places of `a` are found in one list by one test, so they are the same.
          rw [hxs'] at ih
          have hplace : before' = before.filter p := by
            rw [← filter_not_le_append hbefore' hbehind', ih]
            exact filter_not_le_append (fun b hb => hbefore b (List.mem_filter.1 hb).1)
              (fun b hb => hbehind b (List.mem_filter.1 hb).1)
          rw [hplace, List.append_cancel_left_eq] at ih
          rw [List.filter_cons_of_pos ha, hcons, hcons', List.filter_append,
            List.filter_cons_of_pos ha, hplace, ih]

/-- The sorted list starts with the first element that none has to stand before. -/
theorem head?_mergeSort (xs : List α) :
    (xs.mergeSort le).head? = xs.find? fun a => xs.all (le a) := by
  let least : α → Bool := fun a => xs.all (le a)
  -- The least elements are in order as they are listed, so filtered for them nothing is moved.
  have hleast : (xs.filter least).mergeSort le = xs.filter least := by
    refine List.mergeSort_of_pairwise (List.pairwise_of_forall_mem_list fun a ha b hb => ?_)
    exact List.all_eq_true.1 (List.mem_filter.1 ha).2 b (List.mem_filter.1 hb).1
  have hsorted := List.pairwise_mergeSort h.trans h.total xs
  rw [← List.head?_filter, ← hleast, mergeSort_filter h]
  cases hxs : xs.mergeSort le with
  | nil => rfl
  | cons a as =>
      rw [hxs, List.pairwise_cons] at hsorted
      have ha : least a = true := by
        refine List.all_eq_true.2 fun b hb => ?_
        rw [← (List.mergeSort_perm xs le).mem_iff, hxs] at hb
        rcases List.mem_cons.1 hb with rfl | hb
        · exact h.refl b
        · exact hsorted.1 b hb
      rw [List.filter_cons, if_pos ha]
      rfl

/-- **The sorted list starts with the first of the least elements.** -/
theorem head?_mergeSort_eq_some_iff {xs : List α} {a : α} :
    (xs.mergeSort le).head? = some a ↔ ∃ before behind, xs = before ++ a :: behind
      ∧ (∀ b ∈ before, le b a = false) ∧ ∀ b ∈ behind, le a b = true := by
  rw [head?_mergeSort h, List.find?_eq_some_iff_append, List.all_eq_true]
  constructor
  · rintro ⟨ha, before, behind, hxs, hbefore⟩
    refine ⟨before, behind, hxs, fun b hb => ?_, fun b hb => ha b (by simp [hxs, hb])⟩
    -- What is not after `a` would be a least element itself.
    by_contra hba
    refine absurd (hbefore b hb) ?_
    simpa using fun c hc => h.trans b a c (by simpa using hba) (ha c hc)
  · rintro ⟨before, behind, hxs, hbefore, hbehind⟩
    refine ⟨fun b hb => ?_, before, behind, hxs, fun b hb => ?_⟩
    · rw [hxs, List.mem_append, List.mem_cons] at hb
      rcases hb with hb | rfl | hb
      · simpa [hbefore b hb] using h.total a b
      · exact h.refl b
      · exact hbehind b hb
    · have hnot : xs.all (le b) = false :=
        List.all_eq_false.2 ⟨a, by simp [hxs], by simp [hbefore b hb]⟩
      rw [hnot]
      rfl

end IsRanking

/-! ## Texts -/

/-- The texts that are versions, in the order of their versions by `le`. -/
def orderedBy (le : Version → Version → Bool) (texts : List String) : List String :=
  ((readable texts).mergeSort fun a b => le a.1 b.1).map Prod.snd

theorem isRanking_le : IsRanking fun v w : Version => decide (v ≤ w) where
  trans u v w huv hvw := by
    simp only [decide_eq_true_eq] at huv hvw ⊢
    exact huv.trans hvw
  total v w := by
    simp only [Bool.or_eq_true, decide_eq_true_eq]
    exact Version.le_or_le v w

/-- How a text is listed, if it is a version. -/
def listed? (text : String) : Option (Version × String) :=
  (Version.parseTagged text).toOption.map fun v => (v, text)

theorem listed?_eq_some_iff {text t : String} {v : Version} :
    listed? text = some (v, t) ↔ Version.parseTagged text = .ok v ∧ text = t := by
  cases h : Version.parseTagged text <;> simp [listed?, h, Except.toOption]

theorem readable_eq (texts : List String) : readable texts = texts.filterMap listed? := rfl

theorem mem_readable_iff {texts : List String} {v : Version} {t : String} :
    (v, t) ∈ readable texts ↔ t ∈ texts ∧ Version.parseTagged t = .ok v := by
  rw [readable_eq, List.mem_filterMap]
  constructor
  · rintro ⟨u, hu, hentry⟩
    obtain ⟨hv, rfl⟩ := listed?_eq_some_iff.1 hentry
    exact ⟨hu, hv⟩
  · rintro ⟨ht, hv⟩
    exact ⟨t, ht, listed?_eq_some_iff.2 ⟨hv, rfl⟩⟩

/-- The versions of texts that pass a test are listed as those entries whose texts do. -/
theorem readable_filter (s : String → Bool) (texts : List String) :
    readable (texts.filter s) = (readable texts).filter (s ·.2) := by
  rw [readable_eq, readable_eq, List.filterMap_filter, List.filter_filterMap]
  refine List.filterMap_congr fun text _ => ?_
  cases h : listed? text with
  | none => simp
  | some e => simp [Option.filter_some, (listed?_eq_some_iff.1 h).2]

section Ordered

variable {le : Version → Version → Bool} (h : IsRanking le)

include h

/-- **Texts may be filtered before or after they are sorted.** -/
theorem orderedBy_filter (s : String → Bool) (texts : List String) :
    orderedBy le (texts.filter s) = (orderedBy le texts).filter s := by
  rw [orderedBy, readable_filter, (h.comap Prod.fst).mergeSort_filter, orderedBy, List.filter_map]
  rfl

/-- **The first of the sorted texts is the one among the least that is listed first.** -/
theorem head?_orderedBy_eq_some_iff {texts : List String} {t : String} :
    (orderedBy le texts).head? = some t ↔ ∃ before behind v, texts = before ++ t :: behind
      ∧ Version.parseTagged t = .ok v
      ∧ (∀ u ∈ before, ∀ w, Version.parseTagged u = .ok w → le w v = false)
      ∧ ∀ u ∈ behind, ∀ w, Version.parseTagged u = .ok w → le v w = true := by
  have hentries : IsRanking fun a b : Version × String => le a.1 b.1 := h.comap Prod.fst
  rw [orderedBy, List.head?_map, Option.map_eq_some_iff]
  constructor
  · rintro ⟨⟨v, t⟩, hhead, rfl⟩
    obtain ⟨before, behind, hreadable, hbefore, hbehind⟩ :=
      hentries.head?_mergeSort_eq_some_iff.1 hhead
    rw [readable_eq, List.filterMap_eq_append_iff] at hreadable
    obtain ⟨front, back, rfl, rfl, hback⟩ := hreadable
    rw [List.filterMap_eq_cons_iff] at hback
    obtain ⟨others, u, behind, rfl, hothers, hu, rfl⟩ := hback
    obtain ⟨hv, rfl⟩ := listed?_eq_some_iff.1 hu
    refine ⟨front ++ others, behind, v, by simp, hv, fun u hu w hw => ?_, fun u hu w hw => ?_⟩
    · rcases List.mem_append.1 hu with hu | hu
      · exact hbefore (w, u) (mem_readable_iff.2 ⟨hu, hw⟩)
      · have hentry : listed? u = some (w, u) := listed?_eq_some_iff.2 ⟨hw, rfl⟩
        rw [hothers u hu] at hentry
        cases hentry
    · exact hbehind (w, u) (mem_readable_iff.2 ⟨hu, hw⟩)
  · rintro ⟨before, behind, v, rfl, hv, hbefore, hbehind⟩
    have hentry : listed? t = some (v, t) := listed?_eq_some_iff.2 ⟨hv, rfl⟩
    refine ⟨(v, t), hentries.head?_mergeSort_eq_some_iff.2 ⟨readable before, readable behind,
      ?_, ?_, ?_⟩, rfl⟩
    · rw [readable_eq, List.filterMap_append, List.filterMap_cons_some hentry]
      rfl
    · rintro ⟨w, u⟩ hmem
      obtain ⟨hu, hw⟩ := mem_readable_iff.1 hmem
      exact hbefore u hu w hw
    · rintro ⟨w, u⟩ hmem
      obtain ⟨hu, hw⟩ := mem_readable_iff.1 hmem
      exact hbehind u hu w hw

end Ordered

end Versioning
