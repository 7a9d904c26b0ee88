import Versioning.Proofs.Ceiling
import Versioning.Proofs.Triple

set_option autoImplicit false

/-! # Ceilings and prefixes

The ceiling of an operand at a place is a single version, and what lies below it is found by
comparing precedence. It says the same as a comparison of beginnings: a version is below the ceiling
at a place exactly if its numbers up to that place are, from the left, at most those of the operand
(`Operand.lt_ceiling_iff`). This holds because the ceiling is the lowest of all versions with its
numbers, so that nothing but the numbers decides, and its numbers behind the place are zero.

A version that is not below the floor has a beginning that is not below that of the operand either.
From the floor up to a ceiling are therefore the versions that agree with the operand up to the
place (`Operand.floor_le_and_lt_ceiling_iff`). -/

namespace Versioning

/-! ## Lists of numbers -/

section Lists

variable {xs ys : List ℕ}

theorem cons_le_cons_iff {x y : ℕ} : x :: xs ≤ y :: ys ↔ x < y ∨ x = y ∧ xs ≤ ys := by
  rw [← not_lt, List.cons_lt_cons_iff, ← not_lt]
  rcases Nat.lt_trichotomy x y with h | rfl | h
  · simp [h, h.not_gt, h.ne']
  · simp
  · simp [h, h.not_gt, h.ne']

theorem not_lt_zeros {k : ℕ} (h : xs.length = k) : ¬ xs < List.replicate k 0 := by
  induction xs generalizing k with
  | nil =>
      subst h
      exact List.not_lt_nil _
  | cons x xs ih =>
      subst h
      rw [List.length_cons, List.replicate_succ, List.cons_lt_cons_iff]
      rintro (hlt | ⟨-, hlt⟩)
      · exact absurd hlt (Nat.not_lt_zero x)
      · exact ih rfl hlt

/-- What lies below a list that ends in a counted up number and zeros begins with at most the list
    that ends in the number itself. -/
theorem lt_counted_up_iff {front : List ℕ} {n k : ℕ} (h : xs.length = front.length + 1 + k) :
    xs < front ++ (n + 1) :: List.replicate k 0 ↔ xs.take (front.length + 1) ≤ front ++ [n] := by
  induction front generalizing xs with
  | nil =>
      obtain ⟨x, xs, rfl⟩ := List.exists_cons_of_length_pos (l := xs) (by omega)
      have hzeros : ¬ xs < List.replicate k 0 := not_lt_zeros (by simpa [Nat.add_comm] using h)
      simp only [List.nil_append, List.cons_lt_cons_iff, hzeros, and_false, or_false,
        List.length_nil, List.take_succ_cons, List.take_zero, cons_le_cons_iff, le_refl, and_true]
      omega
  | cons y front ih =>
      obtain ⟨x, xs, rfl⟩ := List.exists_cons_of_length_pos (l := xs) (by omega)
      have hlen : xs.length = front.length + 1 + k := by
        simp only [List.length_cons] at h
        omega
      rw [List.cons_append, List.cons_append, List.cons_lt_cons_iff, ih hlen, List.length_cons,
        List.take_succ_cons, cons_le_cons_iff]

/-- Beginnings of lists stand in the order of the lists, or are the same. -/
theorem take_le_take (n : ℕ) (h : xs ≤ ys) : xs.take n ≤ ys.take n := by
  induction n generalizing xs ys with
  | zero => simp
  | succ n ih =>
      cases xs with
      | nil =>
          rw [List.take_nil]
          exact not_lt.1 (List.not_lt_nil _)
      | cons x xs =>
          cases ys with
          | nil => exact absurd (List.nil_lt_cons x xs) (not_lt.2 h)
          | cons y ys =>
              rw [List.take_succ_cons, List.take_succ_cons, cons_le_cons_iff]
              exact (cons_le_cons_iff.1 h).imp_right (And.imp_right ih)

end Lists

/-! ## The numbers of a version -/

namespace Version

variable {v w : Version}

/-- The three numbers of a version, from the most significant. -/
def numbers (v : Version) : List ℕ := v.components.map Numeral.value

theorem triple_lt_iff_numbers_lt : v.triple < w.triple ↔ v.numbers < w.numbers := by
  simp [triple, numbers, components, Prod.Lex.toLex_lt_toLex, List.cons_lt_cons_iff]

theorem numbers_le_of_le (h : v ≤ w) : v.numbers ≤ w.numbers := by
  rw [← not_lt, ← triple_lt_iff_numbers_lt, not_lt]
  exact triple_le_of_le h

/-- Below the pre-release `0` are the versions whose numbers are below. -/
theorem lt_openPreRelease_iff : v < w.openPreRelease ↔ v.numbers < w.numbers := by
  rw [← triple_lt_iff_numbers_lt]
  constructor
  · intro hlt
    by_contra hnot
    exact not_lt_iff_le.2 (openPreRelease_le (not_lt.1 hnot)) hlt
  · exact fun hlt => lt_of_triple_lt (w := w.openPreRelease) hlt

end Version

/-! ## Beginnings of a version -/

namespace Range.Operand

open Version

variable {p : Operand} {i n : ℕ} {top v : Version}

/-- A version has the first `n` components of an operand. -/
def Agrees (p : Operand) (n : ℕ) (v : Version) : Prop :=
  v.components.take n = p.components.take n

instance (p : Operand) (n : ℕ) (v : Version) : Decidable (p.Agrees n v) :=
  inferInstanceAs (Decidable (_ = _))

/-- The numbers that an operand gives, from the most significant. -/
def numbers (p : Operand) : List ℕ := p.components.map Numeral.value

theorem agrees_iff : p.Agrees n v ↔ v.numbers.take n = p.numbers.take n := by
  rw [Agrees, Version.numbers, numbers, ← List.map_take, ← List.map_take]
  exact (List.map_injective_iff.2 fun _ _ => Numeral.value_inj.1).eq_iff.symm

/-- Given components are filled up with zeros to three. -/
theorem components_fill {ns : List Numeral} (h : ns.length ≤ 3) (pre : List Identifier)
    (build : List Word) :
    (fill ns pre build).components = ns ++ List.replicate (3 - ns.length) .zero := by
  match ns, h with
  | [], _ => rfl
  | [_], _ => rfl
  | [_, _], _ => rfl
  | [_, _, _], _ => rfl

/-- The floor of an operand begins as the operand. -/
theorem agrees_floor (hlen : p.components.length ≤ 3) (hn : n ≤ p.components.length) :
    p.Agrees n p.floor := by
  rw [Agrees, floor, components_fill hlen, List.take_append_of_le_length hn]

/-- What is not below the floor begins with at least the components of the operand. -/
theorem numbers_le_of_floor_le (hlen : p.components.length ≤ 3) (hn : n ≤ p.components.length)
    (h : p.floor ≤ v) : p.numbers.take n ≤ v.numbers.take n := by
  have hfloor : p.floor.numbers.take n = p.numbers.take n := agrees_iff.1 (agrees_floor hlen hn)
  rw [← hfloor]
  exact take_le_take n (numbers_le_of_le h)

/-! ## Below a ceiling -/

/-- The numbers of a ceiling are those of the operand up to a place, the number there counted up,
    and zeros behind. -/
theorem numbers_of_ceiling? (hlen : p.components.length ≤ 3) (hi : i < p.components.length)
    (h : p.ceiling? i = some top) :
    ∃ w, top = openPreRelease w ∧ w.numbers
      = p.numbers.take i ++ (p.components[i].value + 1) :: List.replicate (2 - i) 0 := by
  rw [ceiling?, List.getElem?_eq_getElem hi, Option.getD_some, Numeral.next?] at h
  split at h
  · cases h
    refine ⟨fill (p.components.take i ++ [.ofNat (p.components[i].value + 1)]) [] [], rfl, ?_⟩
    have hfilled : (p.components.take i ++ [Numeral.ofNat (p.components[i].value + 1)]).length
        = i + 1 := by
      rw [List.length_append, List.length_take_of_le hi.le, List.length_singleton]
    have hzeros : 3 - (i + 1) = 2 - i := by omega
    have hzero : Numeral.zero.value = 0 := rfl
    rw [Version.numbers, components_fill (by omega), hfilled, hzeros, numbers, ← List.map_take]
    simp only [List.map_append, List.map_cons, List.map_replicate, Numeral.value_ofNat, hzero,
      List.append_assoc, List.cons_append, List.nil_append]
  · cases h

/-- **Below the ceiling at a place is what begins with at most the components up to there.** -/
theorem lt_ceiling_iff (hlen : p.components.length ≤ 3) (hi : i < p.components.length)
    (h : p.ceiling? i = some top) :
    v < top ↔ v.numbers.take (i + 1) ≤ p.numbers.take (i + 1) := by
  obtain ⟨w, rfl, hw⟩ := numbers_of_ceiling? hlen hi h
  have hfront : (p.numbers.take i).length = i := by
    rw [List.length_take_of_le]
    rw [numbers, List.length_map]
    exact hi.le
  have hlength : v.numbers.length = (p.numbers.take i).length + 1 + (2 - i) := by
    rw [hfront]
    show 3 = _
    omega
  have htake : p.numbers.take (i + 1) = p.numbers.take i ++ [p.components[i].value] := by
    rw [numbers, List.take_add_one, List.getElem?_map, List.getElem?_eq_getElem hi]
    rfl
  rw [lt_openPreRelease_iff, hw, lt_counted_up_iff hlength, hfront, htake]

/-- **From the floor up to the ceiling at a place are the versions that agree up to there.** -/
theorem floor_le_and_lt_ceiling_iff (hlen : p.components.length ≤ 3)
    (hi : i < p.components.length) (h : p.ceiling? i = some top) :
    p.floor ≤ v ∧ v < top ↔ p.floor ≤ v ∧ p.Agrees (i + 1) v := by
  refine and_congr_right fun hfloor => ?_
  rw [lt_ceiling_iff hlen hi h, agrees_iff]
  exact ⟨fun hle => hle.antisymm (numbers_le_of_floor_le hlen hi hfloor), le_of_eq⟩

end Range.Operand

end Versioning
