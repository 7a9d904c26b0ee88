import Versioning.Proofs.Sorting

set_option autoImplicit false

/-! # Sorted lists of texts

What sorting makes of a list of texts is said by places. The sorted texts are read off the list at
certain places: exactly those where there is a version, each of them once. The places are in the
order of the versions, and places with versions of equal precedence in their own order
(`IsSortedBy`). As a place holds a text in its own spelling, nothing is lost or changed, and two
copies of one text are two places.

A sorted list is determined by this. So descending order is not ascending order read backwards: what
is equal stays as it was listed, and has to be turned round before (`mergeSort_reverse`). To sort a
sorted list changes nothing. -/

namespace Versioning

/-! ## Lists -/

/-- Whether either of two elements may stand before the other. -/
def tied {α : Type} (le : α → α → Bool) (a b : α) : Bool := le a b && le b a

namespace IsRanking

variable {α : Type} {le : α → α → Bool}

theorem tied_self (h : IsRanking le) (a : α) : tied le a a = true := by
  simp [tied, h.refl a]

theorem tied_swap (le : α → α → Bool) : tied (fun a b => le b a) = tied le := by
  funext a b
  exact Bool.and_comm _ _

variable (h : IsRanking le)

include h

/-- Elements that are tied with one another are in the order in which they were listed. -/
theorem filter_tied_mergeSort (a : α) (xs : List α) :
    (xs.mergeSort le).filter (tied le a) = xs.filter (tied le a) := by
  rw [← h.mergeSort_filter]
  refine List.mergeSort_of_pairwise (List.pairwise_of_forall_mem_list fun b hb c hc => ?_)
  have hb := (List.mem_filter.1 hb).2
  have hc := (List.mem_filter.1 hc).2
  simp only [tied, Bool.and_eq_true] at hb hc
  exact h.trans b a c hb.2 hc.1

/-- **Sorting orders ties as they are listed.** -/
theorem pairwise_mergeSort_of_pairwise {R : α → α → Prop} {xs : List α} (hxs : xs.Pairwise R) :
    (xs.mergeSort le).Pairwise fun a b => le a b = true ∧ (tied le a b = true → R a b) := by
  have hsorted := List.pairwise_mergeSort h.trans h.total xs
  rw [List.pairwise_iff_forall_sublist] at hsorted hxs ⊢
  intro a b hab
  refine ⟨hsorted hab, fun htied => hxs ?_⟩
  -- Both elements are among those tied with the first, which are not moved.
  have hsub : [a, b].filter (tied le a) = [a, b] := by simp [h.tied_self a, htied]
  have hkept := hab.filter (tied le a)
  rw [hsub, h.filter_tied_mergeSort a xs] at hkept
  exact hkept.trans List.filter_sublist

/-- The head of a sorted list may stand before each of its elements. -/
theorem le_of_mem {a b : α} {xs : List α}
    (hxs : (a :: xs).Pairwise fun a b => le a b = true) (hb : b ∈ a :: xs) : le a b = true := by
  rcases List.mem_cons.1 hb with rfl | hb
  · exact h.refl b
  · exact (List.pairwise_cons.1 hxs).1 b hb

theorem mem_iff_of_filter_tied_eq {xs ys : List α}
    (hties : ∀ a, xs.filter (tied le a) = ys.filter (tied le a)) (a : α) : a ∈ xs ↔ a ∈ ys := by
  have htie := congrArg (a ∈ ·) (hties a)
  simpa [List.mem_filter, h.tied_self a] using htie

/-- **A sorted list is determined by its ties.** -/
theorem eq_of_filter_tied_eq {xs ys : List α} (hxs : xs.Pairwise fun a b => le a b = true)
    (hys : ys.Pairwise fun a b => le a b = true)
    (hties : ∀ a, xs.filter (tied le a) = ys.filter (tied le a)) : xs = ys := by
  have hmem := h.mem_iff_of_filter_tied_eq hties
  induction xs generalizing ys with
  | nil =>
      rw [eq_comm, List.eq_nil_iff_forall_not_mem]
      intro a ha
      simpa using (hmem a).2 ha
  | cons x xs ih =>
      cases ys with
      | nil => simpa using (hmem x).1 List.mem_cons_self
      | cons y ys =>
          have hyx : le y x = true := h.le_of_mem hys ((hmem x).1 List.mem_cons_self)
          have hxy : le x y = true := h.le_of_mem hxs ((hmem y).2 List.mem_cons_self)
          -- The heads are tied, so each of them is the first of the same ties.
          have hhead := hties x
          rw [List.filter_cons_of_pos (h.tied_self x),
            List.filter_cons_of_pos (by simp [tied, hxy, hyx])] at hhead
          obtain ⟨rfl, -⟩ := List.cons.inj hhead
          have htails : ∀ a, xs.filter (tied le a) = ys.filter (tied le a) := by
            intro a
            have hcons := hties a
            rw [List.filter_cons, List.filter_cons] at hcons
            split at hcons
            · exact (List.cons.inj hcons).2
            · exact hcons
          rw [ih hxs.of_cons hys.of_cons htails (h.mem_iff_of_filter_tied_eq htails)]

/-- The opposite order is that of the list turned round, turned round again. -/
theorem mergeSort_reverse (xs : List α) :
    xs.mergeSort (fun a b => le b a) = (xs.reverse.mergeSort le).reverse := by
  have hsorted := List.pairwise_mergeSort h.trans h.total xs.reverse
  have hswapped := List.pairwise_mergeSort h.swap.trans h.swap.total xs
  refine h.swap.eq_of_filter_tied_eq hswapped (List.pairwise_reverse.2 hsorted) fun a => ?_
  rw [h.swap.filter_tied_mergeSort, tied_swap, List.filter_reverse, h.filter_tied_mergeSort,
    List.filter_reverse, List.reverse_reverse]

end IsRanking

/-! ## Places -/

/-- The text at a place of a list is read as a version. -/
def VersionAt (texts : List String) (place : ℕ) (v : Version) : Prop :=
  ∃ text, texts[place]? = some text ∧ Version.parseTagged text = .ok v

/-- Sorted texts stand in a list at certain places, in the order `before` of their versions. -/
structure IsSortedBy (before : Version → Version → Prop) (texts sorted : List String)
    (places : List ℕ) : Prop where
  /-- The sorted texts, in their own spelling. -/
  spelled : sorted.map some = places.map (texts[·]?)
  once : places.Nodup
  /-- A place that is missing is one without a version. -/
  complete : ∀ i, i ∈ places ↔ ∃ v, VersionAt texts i v
  ordered : places.Pairwise fun i j => ∃ v w, VersionAt texts i v ∧ VersionAt texts j w
    ∧ before v w ∧ (v.Equivalent w → i < j)

/-- The texts that are versions, as they are listed and with their places. -/
def placed (texts : List String) : List ((Version × String) × ℕ) :=
  texts.zipIdx.filterMap fun e => (listed? e.1).map fun entry => (entry, e.2)

theorem mem_placed_iff {texts : List String} {v : Version} {t : String} {i : ℕ} :
    ((v, t), i) ∈ placed texts ↔ texts[i]? = some t ∧ Version.parseTagged t = .ok v := by
  simp only [placed, List.mem_filterMap, List.mem_zipIdx_iff_getElem?, Option.map_eq_some_iff,
    Prod.mk.injEq]
  constructor
  · rintro ⟨⟨u, j⟩, hu, entry, hentry, rfl, rfl⟩
    obtain ⟨hv, rfl⟩ := listed?_eq_some_iff.1 hentry
    exact ⟨hu, hv⟩
  · rintro ⟨ht, hv⟩
    exact ⟨(t, i), ht, (v, t), listed?_eq_some_iff.2 ⟨hv, rfl⟩, rfl, rfl⟩

theorem map_fst_placed (texts : List String) : (placed texts).map Prod.fst = readable texts := by
  have hentry : ∀ e : String × ℕ,
      ((listed? e.1).map fun entry => (entry, e.2)).map Prod.fst = (listed? ∘ Prod.fst) e := by
    intro e
    cases h : listed? e.1 <;> simp [h]
  rw [placed, List.map_filterMap, List.filterMap_congr fun e _ => hentry e, ← List.filterMap_map,
    List.zipIdx_map_fst, readable_eq]

theorem pairwise_placed (texts : List String) : (placed texts).Pairwise fun a b => a.2 < b.2 := by
  have hrange : ((texts.zipIdx).map Prod.snd).Pairwise (· < ·) := by
    rw [List.zipIdx_map_snd]
    exact List.pairwise_lt_range'
  rw [List.pairwise_map] at hrange
  refine hrange.filterMap _ ?_
  intro e e' hlt a ha b hb
  obtain ⟨entry, -, rfl⟩ := Option.map_eq_some_iff.1 ha
  obtain ⟨entry', -, rfl⟩ := Option.map_eq_some_iff.1 hb
  exact hlt

/-! ## Sorted texts -/

/-- The texts that are versions, in the order of their versions by `le` and with their places. -/
def arranged (le : Version → Version → Bool) (texts : List String) :
    List ((Version × String) × ℕ) :=
  (placed texts).mergeSort fun a b => le a.1.1 b.1.1

section Ordered

variable {le : Version → Version → Bool}

theorem mem_arranged_iff {texts : List String} {v : Version} {t : String} {i : ℕ} :
    ((v, t), i) ∈ arranged le texts ↔ texts[i]? = some t ∧ Version.parseTagged t = .ok v := by
  rw [arranged, List.mem_mergeSort, mem_placed_iff]

theorem map_fst_arranged (texts : List String) : (arranged le texts).map Prod.fst
    = (readable texts).mergeSort fun a b => le a.1 b.1 := by
  rw [← map_fst_placed]
  exact List.map_mergeSort fun _ _ _ _ => rfl

/-- The sorted texts are those at the places in their new order. -/
theorem map_some_orderedBy (texts : List String) : (orderedBy le texts).map some
    = ((arranged le texts).map Prod.snd).map (texts[·]?) := by
  rw [orderedBy, ← map_fst_arranged, List.map_map, List.map_map, List.map_map]
  refine List.map_congr_left ?_
  rintro ⟨⟨v, t⟩, i⟩ he
  exact (mem_arranged_iff.1 he).1.symm

theorem nodup_map_snd_arranged (texts : List String) :
    ((arranged le texts).map Prod.snd).Nodup := by
  have hperm := (List.mergeSort_perm (placed texts) fun a b => le a.1.1 b.1.1).map Prod.snd
  rw [arranged, hperm.nodup_iff, List.Nodup, List.pairwise_map]
  exact (pairwise_placed texts).imp ne_of_lt

/-- The sorted texts are read as they were before. -/
theorem readable_orderedBy (texts : List String) :
    readable (orderedBy le texts) = (readable texts).mergeSort fun a b => le a.1 b.1 := by
  rw [readable_eq, orderedBy, List.filterMap_map]
  have hread : ∀ e ∈ (readable texts).mergeSort fun a b => le a.1 b.1,
      (listed? ∘ Prod.snd) e = some e := by
    rintro ⟨v, t⟩ he
    rw [List.mem_mergeSort, mem_readable_iff] at he
    exact listed?_eq_some_iff.2 ⟨he.2, rfl⟩
  rw [List.filterMap_congr hread, List.filterMap_some]

variable (h : IsRanking le)

include h

/-- **Sorted texts are read off the places of versions, in order and ties by place.** -/
theorem isSortedBy_orderedBy (hties : ∀ v w, tied le v w = true ↔ v.Equivalent w)
    (texts : List String) : IsSortedBy (fun v w => le v w = true) texts (orderedBy le texts)
      ((arranged le texts).map Prod.snd) where
  spelled := map_some_orderedBy texts
  once := nodup_map_snd_arranged texts
  complete := by
    intro i
    simp only [List.mem_map, Prod.exists, exists_eq_right, mem_arranged_iff, VersionAt]
  ordered := by
    have hplaced : IsRanking fun a b : (Version × String) × ℕ => le a.1.1 b.1.1 :=
      h.comap fun e : (Version × String) × ℕ => e.1.1
    rw [List.pairwise_map]
    refine (hplaced.pairwise_mergeSort_of_pairwise (pairwise_placed texts)).imp_of_mem ?_
    rintro ⟨⟨v, t⟩, i⟩ ⟨⟨w, u⟩, j⟩ hi hj ⟨hle, htie⟩
    exact ⟨v, w, ⟨t, mem_arranged_iff.1 hi⟩, ⟨u, mem_arranged_iff.1 hj⟩, hle,
      fun heq => htie ((hties v w).2 heq)⟩

theorem orderedBy_reverse (texts : List String) :
    orderedBy (fun v w => le w v) texts = (orderedBy le texts.reverse).reverse := by
  have hreverse : readable texts.reverse = (readable texts).reverse := List.filterMap_reverse
  have hsorted := (h.comap Prod.fst).mergeSort_reverse (readable texts)
  rw [orderedBy, orderedBy, ← List.map_reverse, hreverse, ← hsorted]

/-- What is sorted is in order already. -/
theorem orderedBy_orderedBy (texts : List String) :
    orderedBy le (orderedBy le texts) = orderedBy le texts := by
  have hentries : IsRanking fun a b : Version × String => le a.1 b.1 := h.comap Prod.fst
  have hsorted := List.pairwise_mergeSort hentries.trans hentries.total (readable texts)
  rw [orderedBy, readable_orderedBy, List.mergeSort_of_pairwise hsorted]
  rfl

end Ordered

/-! ## Both orders -/

theorem tied_le_iff {v w : Version} :
    tied (fun v w : Version => decide (v ≤ w)) v w = true ↔ v.Equivalent w := by
  rw [Version.equivalent_iff_le_and_le]
  simp [tied]

theorem tied_ge_iff {v w : Version} :
    tied (fun v w : Version => decide (w ≤ v)) v w = true ↔ v.Equivalent w := by
  rw [← tied_le_iff, IsRanking.tied_swap]

/-- **Sorting arranges the texts that are versions, in either direction, and keeps equal ones in
    their order.** So the one direction is the other of the list turned round, and a list that is
    sorted stays as it is. -/
theorem ascending_descending_stable (texts : List String) :
    (∃ places, IsSortedBy (· ≤ ·) texts (ascending texts) places)
    ∧ (∃ places, IsSortedBy (· ≥ ·) texts (descending texts) places)
    ∧ descending texts = (ascending texts.reverse).reverse
    ∧ ascending (ascending texts) = ascending texts
    ∧ descending (descending texts) = descending texts := by
  have hup := isRanking_le
  have hdown := isRanking_le.swap
  have hsortedUp := isSortedBy_orderedBy hup (fun _ _ => tied_le_iff) texts
  have hsortedDown := isSortedBy_orderedBy hdown (fun _ _ => tied_ge_iff) texts
  simp only [decide_eq_true_eq] at hsortedUp hsortedDown
  exact ⟨⟨_, hsortedUp⟩, ⟨_, hsortedDown⟩, orderedBy_reverse hup texts,
    orderedBy_orderedBy hup texts, orderedBy_orderedBy hdown texts⟩

/-- Equal versions in their own order either way, and each in its own spelling. -/
example : ascending ["v1.0.0", "2.0.0", "?", " 1.0.0+a", "v1.0.0"]
      = ["v1.0.0", " 1.0.0+a", "v1.0.0", "2.0.0"]
    ∧ descending ["v1.0.0", "2.0.0", "?", " 1.0.0+a", "v1.0.0"]
      = ["2.0.0", "v1.0.0", " 1.0.0+a", "v1.0.0"] := by
  constructor <;> cbv

end Versioning
