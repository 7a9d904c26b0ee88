import Versioning.Proofs.Ceiling
import Versioning.Proofs.Entry

set_option autoImplicit false

/-! # Reading a written branch

A branch that writes some entries, all of whose ceilings fit, can be read, and it admits a version
exactly if every entry does (`read_of_written`). If an entry has a sign, it is read as the
conjunction of all comparators, in the order of the entries. -/

namespace Versioning.Range

/-! ## Comparators of an entry -/

namespace Entry

/-- The place that is counted up for the upper bound of an entry, if it has such a bound. -/
def ceilingPlace? (e : Entry) : Option Nat :=
  if e.operand.isAny then none
  else
    match e.sigil with
    | some .caret => some e.operand.leadingPlace
    | some .tilde => some e.operand.minorPlace
    | some (.compare _) => none
    | some .same | none => if e.operand.isFull then none else some e.operand.lastPlace

/-- The upper bound of an entry fits, if it has one. -/
def Bounded (e : Entry) : Prop := ∀ i ∈ e.ceilingPlace?, (e.operand.ceiling? i).isSome = true

instance (e : Entry) : Decidable e.Bounded :=
  inferInstanceAs (Decidable (∀ i ∈ e.ceilingPlace?, (e.operand.ceiling? i).isSome = true))

/-- The comparators of an entry; none if its upper bound does not fit. -/
def comparators (e : Entry) : List Comparator := e.item.comparators?.getD []

/-- The component at the place that is counted up is the one that its item counts up. -/
theorem bind_ceilingPlace? (e : Entry) :
    e.ceilingPlace?.bind (e.operand.components[·]?) = e.item.counted? := by
  rw [ceilingPlace?, item]
  split
  · next hany =>
      have hnil : e.operand.components = [] := List.isEmpty_iff.1 hany
      cases e.sigil with
      | none => simp [Item.counted?, hnil]
      | some sigil => cases sigil <;> simp [Item.counted?, hnil]
  · have hspan : (if e.operand.isFull then none else some e.operand.lastPlace).bind
        (e.operand.components[·]?) = if e.operand.isFull then none
          else e.operand.components.getLast? := by
      rw [← Operand.getElem?_lastPlace]
      cases e.operand.isFull <;> rfl
    cases e.sigil with
    | none => exact hspan
    | some sigil =>
        cases sigil with
        | compare o => rfl
        | same => exact hspan
        | caret => exact e.operand.getElem?_leadingPlace
        | tilde => exact e.operand.getElem?_minorPlace

/-- The upper bound of an entry fits exactly if the item that is read from it does not overflow. -/
theorem bounded_iff {e : Entry} : e.Bounded ↔ ¬ e.item.Overflows := by
  rw [Item.Overflows, ← bind_ceilingPlace?, Bounded]
  cases e.ceilingPlace? with
  | none => simp
  | some i =>
      have hfits : (e.operand.ceiling? i).isSome = true ↔
          ¬ ∃ n ∈ e.operand.components[i]?, Numeral.wordSize ≤ n.value + 1 := by
        rw [← Operand.ceiling?_eq_none_iff, Option.isSome_iff_ne_none]
      simpa using hfits

theorem isSome_comparators? {e : Entry} (h : e.Bounded) :
    e.item.comparators?.isSome = true := by
  rw [Option.isSome_iff_ne_none, Ne, Item.comparators?_eq_none_iff]
  rintro (⟨-, hnone⟩ | hoverflow)
  · cases hnone
  · exact bounded_iff.1 h hoverflow

theorem comparators?_eq {e : Entry} (h : e.Bounded) :
    e.item.comparators? = some e.comparators := by
  obtain ⟨cs, hcs⟩ := Option.isSome_iff_exists.1 (isSome_comparators? h)
  rw [comparators, hcs, Option.getD_some]

theorem comparators_of_isWildcard {e : Entry} (h : e.item.isWildcard = true) :
    e.comparators = [] := by
  simp only [Item.isWildcard, item, Bool.and_eq_true, Option.isNone_iff_eq_none,
    Option.any_some] at h
  rw [comparators, item, h.1]
  show e.operand.span?.getD [] = []
  rw [Operand.span?_of_isAny h.2, Option.getD_some]

end Entry

/-! ## Reading the conjunction -/

namespace Conjunction

theorem dashEnds?_eq_none {cs : List Char} (h : ['-'] ∉ Text.words cs) :
    dashEnds? cs = none := by
  rw [dashEnds?]
  split
  · next hwords =>
      rw [hwords] at h
      simp at h
  · rfl

theorem admits_ofComparators (cs : List Comparator) (fixedMinimum : Option Version)
    (v : Version) : (ofComparators cs fixedMinimum).admits v = cs.all (·.admits v) := by
  rw [admits, comparators, ofComparators, Bool.eq_iff_iff]
  simp only [List.all_eq_true, List.mem_append, List.mem_filter]
  constructor
  · intro h c hc
    refine h c ?_
    cases c.operator.boundsAbove <;> simp [hc]
  · intro h c hc
    exact h c (hc.elim And.left And.left)

variable {es : List Entry} {cs : List Char}

theorem mapM_items (hb : ∀ e ∈ es, e.Bounded) :
    (es.map Entry.item).mapM Item.comparators? = some (es.map Entry.comparators) :=
  mapM_map_eq_some fun e he => e.comparators?_eq (hb e he)

theorem any_isLoose (es : List Entry) : (es.map Entry.item).any Item.isLoose = false := by
  simp [Item.isLoose, Entry.item]

theorem any_sigil_iff (es : List Entry) :
    (es.map Entry.item).any (·.sigil.isSome) = true ↔ ∃ e ∈ es, e.sign ≠ [] := by
  simp only [List.any_map, List.any_eq_true, Function.comp_apply, Entry.item,
    Option.isSome_iff_ne_none, Ne, Entry.sigil_isNone_iff]

/-- Entries are read as the conjunction of their comparators if one of them has a sign. -/
theorem ofItems?_of_sign (h : Written es cs) (hb : ∀ e ∈ es, e.Bounded)
    (hs : ∃ e ∈ es, e.sign ≠ []) :
    ofItems? cs = some (ofComparators (es.flatMap Entry.comparators) none) := by
  simp only [ofItems?, items_of_written h, mapM_items hb, Option.bind_eq_bind, Option.bind_some,
    if_pos ((any_sigil_iff es).2 hs), any_isLoose, List.flatMap_def]
  rfl

/-- Without a sign they are, too, but the lowest version is what is found in the text. -/
theorem ofItems?_of_no_sign (h : Written es cs) (hb : ∀ e ∈ es, e.Bounded)
    (hs : ¬ ∃ e ∈ es, e.sign ≠ []) {found : Version}
    (hfound : Version.findInChars? cs = some found) :
    ofItems? cs = some (ofComparators (es.flatMap Entry.comparators) (some found)) := by
  simp only [ofItems?, items_of_written h, mapM_items hb, Option.bind_eq_bind, Option.bind_some,
    if_neg (fun hany => hs ((any_sigil_iff es).1 hany)), any_isLoose, hfound, List.flatMap_def]
  rfl

end Conjunction

/-! ## Reading the branch -/

variable {es : List Entry} {cs : List Char}

/-- A branch that is not made of wildcards alone holds a version or has a sign. -/
theorem isSome_findInChars?_of_written (h : Written es cs) (hs : ¬ ∃ e ∈ es, e.sign ≠ [])
    (hwild : es.all (·.item.isWildcard) = false) :
    (Version.findInChars? cs).isSome = true := by
  obtain ⟨e, he, hwild⟩ := List.all_eq_false.1 hwild
  have hsigil : e.sigil = none := by
    rw [Entry.sigil_isNone_iff]
    by_contra hsign
    exact hs ⟨e, he, hsign⟩
  have hany : e.operand.isAny = false := by
    simpa [Item.isWildcard, Entry.item, hsigil] using hwild
  obtain ⟨c, hc, hdigit⟩ := Operand.exists_isDigit e.reads hany
  exact Version.isSome_findInChars? ⟨c, text_mem_of_written h he hc, hdigit⟩

/-- **A written branch admits what all its entries admit.** -/
theorem read_of_written (h : Written es cs) (hb : ∀ e ∈ es, e.Bounded) :
    ∃ s, Shape.read cs = .ok s
      ∧ (∀ v, s.admits v = es.all fun e => e.comparators.all (·.admits v))
      ∧ ((∃ e ∈ es, e.sign ≠ []) →
        s = .conjunction (.ofComparators (es.flatMap Entry.comparators) none)) := by
  have hne : cs.isEmpty = false := List.isEmpty_eq_false_iff.2 (isFramed_of_written h).ne_nil
  simp only [Shape.read, hne, allWildcards_of_written h, Conjunction.ofChars?,
    Conjunction.dashEnds?_eq_none (dash_notMem_words h)]
  have hadmits : ∀ fixed v,
      (Shape.conjunction (.ofComparators (es.flatMap Entry.comparators) fixed)).admits v
        = es.all fun e => e.comparators.all (·.admits v) := by
    intro fixed v
    rw [Shape.admits, Conjunction.admits_ofComparators, List.all_flatMap]
  cases hwild : es.all (·.item.isWildcard) with
  | true =>
      -- Wildcards are not read as items at all, but as items they would ask for nothing.
      refine ⟨.everything, rfl, fun v => ?_, ?_⟩
      · refine (List.all_eq_true.2 fun e he => ?_).symm
        rw [Entry.comparators_of_isWildcard (List.all_eq_true.1 hwild e he)]
        rfl
      · rintro ⟨e, he, hs⟩
        have hitem := List.all_eq_true.1 hwild e he
        simp only [Item.isWildcard, Entry.item, Bool.and_eq_true, Option.isNone_iff_eq_none,
          Entry.sigil_isNone_iff] at hitem
        exact absurd hitem.1 hs
  | false =>
      by_cases hs : ∃ e ∈ es, e.sign ≠ []
      · rw [Conjunction.ofItems?_of_sign h hb hs]
        exact ⟨_, rfl, hadmits none, fun _ => rfl⟩
      · obtain ⟨found, hfound⟩ :=
          Option.isSome_iff_exists.1 (isSome_findInChars?_of_written h hs hwild)
        rw [Conjunction.ofItems?_of_no_sign h hb hs hfound]
        exact ⟨_, rfl, hadmits (some found), fun hsome => absurd hsome hs⟩

end Versioning.Range
