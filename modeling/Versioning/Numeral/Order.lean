import Versioning.Numeral.Basic

set_option autoImplicit false

/-! # The order of numerals

Numerals compare by their digits, without being evaluated: the longer numeral is the greater, and of
two numerals of one length the digits decide from the left. Because digits are canonical this is the
order of the numbers (`Numeral.compare_eq`), whatever their size, and two numerals of one value are
the same numeral. -/

namespace Versioning.Numeral

/-- The longer numeral is the greater; numerals of one length compare digit by digit. -/
instance : Ord Numeral :=
  ⟨fun m n => (compare m.digits.length n.digits.length).then (compare m.digits n.digits)⟩

/-! ## Values of digit runs -/

theorem compare_char (c d : Char) : compare c d = compare c.toNat d.toNat := by
  have hlt : c < d ↔ c.toNat < d.toNat := Iff.rfl
  have heq : c = d ↔ c.toNat = d.toNat := Char.toNat_inj.symm
  show compareOfLessAndEq c d = compareOfLessAndEq c.toNat d.toNat
  simp only [compareOfLessAndEq, hlt, heq]

/-- The code point of a digit lies from 48 to 57. -/
theorem toNat_bounds {c : Char} (h : c.isDigit = true) : 48 ≤ c.toNat ∧ c.toNat ≤ 57 :=
  Char.isDigit_iff_toNat.1 h

theorem toNat_zero : '0'.toNat = 48 := rfl

/-- Digits only add to the number that stands before them. -/
theorem le_ofDigitChars (ds : List Char) (a : Nat) : a ≤ Nat.ofDigitChars 10 ds a := by
  induction ds generalizing a with
  | nil => exact Nat.le_refl a
  | cons c cs ih =>
      rw [Nat.ofDigitChars_cons]
      exact Nat.le_trans (by omega) (ih _)

/-- A smaller number stays smaller, whatever digits follow it, if as many follow the other. -/
theorem ofDigitChars_lt {ds es : List Char} {a b : Nat} (hlen : ds.length = es.length)
    (hd : ∀ c ∈ ds, c.isDigit = true) (hab : a < b) :
    Nat.ofDigitChars 10 ds a < Nat.ofDigitChars 10 es b := by
  induction ds generalizing es a b with
  | nil =>
      rw [List.eq_nil_of_length_eq_zero hlen.symm]
      exact hab
  | cons d ds ih =>
      cases es with
      | nil => cases hlen
      | cons e es =>
          have hbound := toNat_bounds (hd d List.mem_cons_self)
          rw [Nat.ofDigitChars_cons, Nat.ofDigitChars_cons]
          exact ih (Nat.succ.inj hlen) (fun c hc => hd c (List.mem_cons_of_mem _ hc))
            (by rw [toNat_zero]; omega)

/-- Digit runs of one length that follow the same number compare as what they make of it. -/
theorem compare_digits {ds es : List Char} (a : Nat) (hlen : ds.length = es.length)
    (hd : ∀ c ∈ ds, c.isDigit = true) (he : ∀ c ∈ es, c.isDigit = true) :
    compare ds es = compare (Nat.ofDigitChars 10 ds a) (Nat.ofDigitChars 10 es a) := by
  induction ds generalizing es a with
  | nil =>
      rw [List.eq_nil_of_length_eq_zero hlen.symm, Nat.compare_eq_eq.2 rfl]
      rfl
  | cons d ds ih =>
      cases es with
      | nil => cases hlen
      | cons e es =>
          have hlen : ds.length = es.length := Nat.succ.inj hlen
          have hds : ∀ c ∈ ds, c.isDigit = true := fun c hc => hd c (List.mem_cons_of_mem _ hc)
          have hes : ∀ c ∈ es, c.isDigit = true := fun c hc => he c (List.mem_cons_of_mem _ hc)
          have hd := toNat_bounds (hd d List.mem_cons_self)
          have he := toNat_bounds (he e List.mem_cons_self)
          rw [List.compare_cons_cons, compare_char, Nat.ofDigitChars_cons, Nat.ofDigitChars_cons]
          -- The first digits that differ decide, whatever follows them.
          rcases Nat.lt_trichotomy d.toNat e.toNat with h | h | h
          · rw [Nat.compare_eq_lt.2 h]
            exact (Nat.compare_eq_lt.2 (ofDigitChars_lt hlen hds (by rw [toNat_zero]; omega))).symm
          · rw [Nat.compare_eq_eq.2 h, Char.toNat_inj.1 h]
            exact ih _ hlen hds hes
          · rw [Nat.compare_eq_gt.2 h]
            exact (Nat.compare_eq_gt.2 (ofDigitChars_lt hlen.symm hes
              (by rw [toNat_zero]; omega))).symm

/-! ## Values of numerals -/

/-- A numeral of several digits starts with a digit other than zero. -/
theorem toNat_head {c : Char} {cs : List Char} (h : IsCanonical (c :: cs)) (hcs : cs ≠ []) :
    48 < c.toNat := by
  have hc := toNat_bounds (h.2.1 c List.mem_cons_self)
  have hne : c.toNat ≠ 48 := by
    intro h48
    have hzero : c = '0' := Char.toNat_inj.1 h48
    exact hcs (List.cons.inj (h.2.2 (congrArg some hzero))).2
  omega

/-- The longer of two numerals writes the greater number: the digits that it has in excess stand in
front of a run of the same length, and they do not write zero. -/
theorem value_lt_of_length_lt {m n : Numeral} (h : m.digits.length < n.digits.length) :
    m.value < n.value := by
  obtain ⟨ds, hds⟩ := m
  obtain ⟨es, hes⟩ := n
  have hpos : 0 < ds.length := List.length_pos_iff.2 hds.1
  cases es with
  | nil => exact absurd rfl hes.1
  | cons c cs =>
      have hlen : ds.length ≤ cs.length := Nat.le_of_lt_succ h
      have hc := toNat_head hes (List.length_pos_iff.1 (Nat.lt_of_lt_of_le hpos hlen))
      -- The excess digits are `c` and the front of `cs`; the rest of `cs` is as long as `ds`.
      have hsplit := List.take_append_drop (cs.length - ds.length) cs
      show Nat.ofDigitChars 10 ds 0 < Nat.ofDigitChars 10 (c :: cs) 0
      rw [Nat.ofDigitChars_cons, ← hsplit, Nat.ofDigitChars_append, toNat_zero]
      refine ofDigitChars_lt ?_ hds.2.1 ?_
      · rw [List.length_drop]
        omega
      · exact Nat.lt_of_lt_of_le (by omega) (le_ofDigitChars _ _)

/-- **Numerals compare as the numbers they write.** -/
theorem compare_eq (m n : Numeral) : compare m n = compare m.value n.value := by
  show (compare m.digits.length n.digits.length).then (compare m.digits n.digits) = _
  rcases Nat.lt_trichotomy m.digits.length n.digits.length with h | h | h
  · rw [Nat.compare_eq_lt.2 h, Nat.compare_eq_lt.2 (value_lt_of_length_lt h)]
    rfl
  · rw [Nat.compare_eq_eq.2 h, compare_digits 0 h m.canonical.2.1 n.canonical.2.1]
    rfl
  · rw [Nat.compare_eq_gt.2 h, Nat.compare_eq_gt.2 (value_lt_of_length_lt h)]
    rfl

/-- A number has one numeral. -/
theorem value_inj {m n : Numeral} : m.value = n.value ↔ m = n := by
  constructor
  · intro h
    have hcompare := compare_eq m n
    rw [h, Nat.compare_eq_eq.2 rfl] at hcompare
    exact ext (Std.LawfulEqOrd.eq_of_compare (Ordering.then_eq_eq.1 hcompare).2)
  · exact congrArg value

end Versioning.Numeral
