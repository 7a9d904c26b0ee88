import Versioning.Range.Item

set_option autoImplicit false

/-! # Upper bounds that do not fit

The upper bound of an item is a ceiling of its operand: one component is counted up, and there is
none where the result would not fit a 64-bit word. Which component it is depends on the sigil
(`Item.counted?`). An item that has an operand asks for something unless that component is too
great (`Item.comparators?_eq_none_iff`); all other components may be of any size. -/

namespace Versioning

namespace Numeral

theorem next?_eq_none_iff {n : Numeral} : n.next? = none ↔ wordSize ≤ n.value + 1 := by
  rw [next?, ite_eq_right_iff]
  simp only [reduceCtorEq, imp_false, Nat.not_lt]

end Numeral

namespace Range

/-! ## Ceilings of an operand -/

namespace Operand

/-- There is no ceiling exactly where a given component cannot be counted up. -/
theorem ceiling?_eq_none_iff {p : Operand} {i : Nat} :
    p.ceiling? i = none ↔ ∃ n ∈ p.components[i]?, Numeral.wordSize ≤ n.value + 1 := by
  have hnext : p.ceiling? i = none ↔ (p.components[i]?.getD .zero).next? = none := by
    rw [ceiling?]
    cases (p.components[i]?.getD .zero).next? <;> simp
  rw [hnext]
  cases p.components[i]? with
  | none =>
      have hzero : Numeral.zero.next? ≠ none := by decide
      simpa [Option.ne_none_iff_exists'] using hzero
  | some n => simp [Numeral.next?_eq_none_iff]

theorem upTo?_eq_none_iff {p : Operand} {i : Nat} :
    p.upTo? i = none ↔ ∃ n ∈ p.components[i]?, Numeral.wordSize ≤ n.value + 1 := by
  rw [upTo?]
  split
  · next hany => simp [List.isEmpty_iff.1 hany]
  · rw [Option.map_eq_none_iff, ceiling?_eq_none_iff]

theorem span?_eq_none_iff {p : Operand} :
    p.span? = none ↔ p.isFull = false
      ∧ ∃ n ∈ p.components[p.lastPlace]?, Numeral.wordSize ≤ n.value + 1 := by
  rw [span?]
  split
  · next hfull => simp [hfull]
  · next hfull =>
      split
      · next hany => simp [List.isEmpty_iff.1 hany]
      · rw [upTo?_eq_none_iff, and_iff_right (Bool.eq_false_iff.2 hfull)]

theorem span?_of_isAny {p : Operand} (h : p.isAny = true) : p.span? = some [] := by
  have hfull : ¬ p.isFull = true := by
    rw [isFull, List.isEmpty_iff.1 h]
    decide
  rw [span?, if_neg hfull, if_pos h]

/-! ## Components at the places that are counted up -/

theorem getElem?_lastPlace (p : Operand) :
    p.components[p.lastPlace]? = p.components.getLast? :=
  List.getLast?_eq_getElem?.symm

theorem getElem?_leadingPlace (p : Operand) :
    p.components[p.leadingPlace]? = (p.components.find? (· != .zero)).or p.components.getLast? := by
  rw [leadingPlace, List.find?_eq_bind_findIdx?_getElem?, ← getElem?_lastPlace]
  cases h : p.components.findIdx? (· != .zero) with
  | none => rfl
  | some i =>
      obtain ⟨hlt, -⟩ := List.findIdx?_eq_some_iff_getElem.1 h
      simp [hlt]

theorem getElem?_minorPlace (p : Operand) :
    p.components[p.minorPlace]? = (p.components.take 2).getLast? := by
  rw [minorPlace, lastPlace]
  match p.components with
  | [] => rfl
  | [_] => rfl
  | _ :: _ :: rest => simp

end Operand

/-! ## Items that ask for nothing that can be said -/

namespace Item

/-- The component that an item counts up for its upper bound, if it has such a bound. An operand
    alone or behind `=` counts up its last component unless it is full, one behind `^` the first
    that is not zero or else the last, and one behind `~` the second or else the first. -/
def counted? : Item → Option Numeral
  | ⟨none, some p⟩ | ⟨some .same, some p⟩ => if p.isFull then none else p.components.getLast?
  | ⟨some .caret, some p⟩ => (p.components.find? (· != .zero)).or p.components.getLast?
  | ⟨some .tilde, some p⟩ => (p.components.take 2).getLast?
  | ⟨some (.compare _), some _⟩ | ⟨_, none⟩ => none

/-- The upper bound of an item does not fit: the component to be counted up is the greatest number
    of 64 bits, or greater. -/
def Overflows (i : Item) : Prop := ∃ n ∈ i.counted?, Numeral.wordSize ≤ n.value + 1

/-- An item asks for something unless it has a sigil with no operand, or an upper bound that does
    not fit. -/
theorem comparators?_eq_none_iff {i : Item} :
    i.comparators? = none ↔ (i.sigil ≠ none ∧ i.operand = none) ∨ i.Overflows := by
  have hspan : ∀ p : Operand, p.span? = none ↔
      ∃ n ∈ if p.isFull then none else p.components.getLast?,
        Numeral.wordSize ≤ n.value + 1 := by
    intro p
    rw [Operand.span?_eq_none_iff, Operand.getElem?_lastPlace]
    cases p.isFull <;> simp
  obtain ⟨sigil, operand⟩ := i
  cases operand with
  | none => cases sigil <;> simp [comparators?, Overflows, counted?]
  | some p =>
      simp only [Overflows, reduceCtorEq, and_false, false_or]
      cases sigil with
      | none => exact hspan p
      | some sigil =>
          cases sigil with
          | compare o => simp [comparators?, counted?]
          | same => exact hspan p
          | caret =>
              rw [comparators?, Operand.upTo?_eq_none_iff, Operand.getElem?_leadingPlace]
              rfl
          | tilde =>
              rw [comparators?, Operand.upTo?_eq_none_iff, Operand.getElem?_minorPlace]
              rfl

end Item

end Range

end Versioning
