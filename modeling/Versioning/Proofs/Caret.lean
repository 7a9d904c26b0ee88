import Versioning.Proofs.Single

set_option autoImplicit false

/-! # Caret ranges

Behind a caret an operand stands for the versions that are compatible with it: they agree with it up
to its leading place, and are not below its floor. The leading place is that of the first given
component that is not zero, or of the last one if all are zero (`Operand.IsLeading`). There is one
such place unless no component is given (`Operand.isLeading_iff`), and then all versions from the
floor on are compatible.

The bound that the reader computes is one version, the ceiling at the leading place. That it keeps
out the pre-releases of the next version that is not compatible is the reason why it has a
pre-release itself (`parse_caret`). -/

namespace Versioning.Range

namespace Operand

variable {p : Operand} {k : ℕ}

/-! ## The leading place -/

/-- Up to a place the given components are zero, and the one at the place is not, unless it is the
    last. -/
def IsLeading (p : Operand) (k : ℕ) : Prop :=
  k < p.components.length ∧ (∀ n ∈ p.components.take k, n = .zero)
    ∧ (p.components[k]? = some .zero → k + 1 = p.components.length)

instance (p : Operand) (k : ℕ) : Decidable (p.IsLeading k) :=
  inferInstanceAs (Decidable (_ ∧ _ ∧ (_ → _)))

/-- If all components are zero, only the last one has none behind it that is zero. -/
theorem isLeading_iff_of_zeros (hne : p.components ≠ []) (hzero : ∀ n ∈ p.components, n = .zero) :
    p.IsLeading k ↔ k = p.lastPlace := by
  have hpos := List.length_pos_iff.2 hne
  constructor
  · rintro ⟨hk, -, hlast⟩
    have hend := hlast (by
      rw [List.getElem?_eq_getElem hk, hzero _ (List.getElem_mem hk)])
    rw [lastPlace]
    omega
  · rintro rfl
    refine ⟨by rw [lastPlace]; omega, fun n hn => hzero n (List.mem_of_mem_take hn), fun _ => ?_⟩
    rw [lastPlace]
    omega

/-- If some component is not zero, the first of them is at the leading place. -/
theorem isLeading_iff_of_findIdx? {i : ℕ} (h : p.components.findIdx? (· != .zero) = some i) :
    p.IsLeading k ↔ k = i := by
  obtain ⟨hi, hne, hbefore⟩ := List.findIdx?_eq_some_iff_getElem.1 h
  simp only [bne_iff_ne, ne_eq, not_not] at hne hbefore
  constructor
  · rintro ⟨hk, hzeros, hlast⟩
    rcases Nat.lt_trichotomy k i with hlt | heq | hgt
    · have hend := hlast (by rw [List.getElem?_eq_getElem hk, hbefore k hlt])
      omega
    · exact heq
    · exact absurd (hzeros _ (List.mem_take_iff_getElem.2 ⟨i, by omega, rfl⟩)) hne
  · rintro rfl
    refine ⟨hi, fun n hn => ?_, fun hzero => ?_⟩
    · obtain ⟨j, hj, rfl⟩ := List.mem_take_iff_getElem.1 hn
      exact hbefore j (by omega)
    · rw [List.getElem?_eq_getElem hi, Option.some.injEq] at hzero
      exact absurd hzero hne

/-- **The leading place is the one that a caret counts up.** -/
theorem isLeading_iff (hne : p.components ≠ []) : p.IsLeading k ↔ k = p.leadingPlace := by
  rw [leadingPlace]
  cases h : p.components.findIdx? (· != .zero) with
  | none =>
      refine isLeading_iff_of_zeros hne fun n hn => ?_
      simpa using List.findIdx?_eq_none_iff.1 h n hn
  | some i => exact isLeading_iff_of_findIdx? h

/-- What agrees with an operand up to a place has its component there. -/
theorem Agrees.getElem?_eq {v : Version} (h : p.Agrees (k + 1) v) :
    v.components[k]? = p.components[k]? := by
  have hk : k < k + 1 := Nat.lt_succ_self k
  rw [← List.getElem?_take_of_lt hk, h, List.getElem?_take_of_lt hk]

/-- A version in which the component at a place is counted up does not agree up to there. -/
theorem not_agrees_of_counted_up {n : Numeral} {v : Version} (hlen : p.components.length ≤ 3)
    (hn : p.components[k]? = some n)
    (hv : v.release = fill (p.components.take k ++ [.ofNat (n.value + 1)]) [] []) :
    ¬ p.Agrees (k + 1) v := by
  obtain ⟨hk, -⟩ := List.getElem?_eq_some_iff.1 hn
  have hfront : (p.components.take k).length = k := List.length_take_of_le hk.le
  have hcomponents : v.components
      = p.components.take k ++ .ofNat (n.value + 1) :: List.replicate (3 - (k + 1)) .zero := by
    show v.release.components = _
    have hlength : (p.components.take k ++ [Numeral.ofNat (n.value + 1)]).length = k + 1 := by
      rw [List.length_append, hfront, List.length_singleton]
    rw [hv, components_fill (by omega), hlength, List.append_assoc]
    rfl
  intro hagrees
  have hsame := hagrees.getElem?_eq
  rw [hcomponents, List.getElem?_append_right hfront.le, hfront, Nat.sub_self, hn,
    List.getElem?_cons_zero, Option.some.injEq] at hsame
  have hvalue : n.value + 1 = n.value := by rw [← Numeral.value_ofNat (n.value + 1), hsame]
  omega

end Operand

/-! ## Ranges behind a caret -/

/-- **A caret range admits the versions that are compatible with its operand.** They agree with the
    operand up to its leading place, so neither the next version that does not nor any pre-release
    of it is among them; and the floor of the operand is the lowest. If the component at the leading
    place is the greatest 64-bit number or above, the range admits nothing. If no component is
    given, all versions from the floor on are admitted. -/
theorem parse_caret {text : String} {p : Operand}
    (h : Operand.ofChars? text.toList = some p) :
    ∃ r, parse ("^" ++ text) = .ok r
      ∧ (p.components = [] → ∀ v, r.admits v = true ↔ p.floor ≤ v)
      ∧ (p.components ≠ [] → ∃ k, p.IsLeading k)
      ∧ ∀ k, p.IsLeading k →
        (p.FitsAt k →
          (∀ v, r.admits v = true ↔ p.floor ≤ v ∧ p.Agrees (k + 1) v)
          ∧ (∀ n v, p.components[k]? = some n →
            v.release = Operand.fill (p.components.take k ++ [.ofNat (n.value + 1)]) [] [] →
            r.admits v = false)
          ∧ r.minimum? = some p.floor)
        ∧ (¬ p.FitsAt k → (∀ v, r.admits v = false) ∧ r.minimum? = none) := by
  have hsign : "^".toList ∈ signs := by decide
  have hitem : (Item.ofSign "^" p).comparators? = p.upTo? p.leadingPlace := rfl
  by_cases hnil : p.components = []
  · obtain ⟨r, hr, hadmits, -⟩ := parse_sign hsign h
    refine ⟨r, hr, fun _ v => ?_, fun hne => absurd hnil hne, fun k hk => ?_⟩
    · have hany : p.isAny = true := List.isEmpty_iff.2 hnil
      rw [hadmits, Item.admits, hitem, Operand.upTo?, if_pos hany]
      simp [Comparator.admits]
    · exact absurd hk.1 (by simp [hnil])
  · have hleading := (Operand.isLeading_iff hnil).2 rfl
    obtain ⟨r, hr, hfits, hover⟩ := parse_upTo hsign h hleading.1 hitem
    refine ⟨r, hr, fun hnil' => absurd hnil' hnil, fun _ => ⟨_, hleading⟩, fun k hk => ?_⟩
    cases (Operand.isLeading_iff hnil).1 hk
    refine ⟨fun hk => ?_, hover⟩
    obtain ⟨hadmits, hmin⟩ := hfits hk
    refine ⟨hadmits, fun n v hn hv => ?_, hmin (by decide)⟩
    rw [← Bool.not_eq_true, hadmits]
    rintro ⟨-, hagrees⟩
    exact Operand.not_agrees_of_counted_up (Operand.length_components_le h) hn hv hagrees

/-- A component that is counted up to one more digit, before a wildcard and a pre-release, and one
    that is too great. -/
theorem parse_caret_carry :
    let b : Identifier := .alphanumeric ⟨['b'], by decide⟩ (by decide)
    let p : Operand := ⟨[.zero, .ofNat 9], [b], []⟩
    let q : Operand := ⟨[.ofNat 18446744073709551615, .ofNat 1], [], []⟩
    (Operand.ofChars? "v0.09.x-b".toList = some p ∧ p.IsLeading 1 ∧ p.FitsAt 1
      ∧ ∃ r, parse "^v0.09.x-b" = .ok r ∧ r.minimum? = some p.floor
        ∧ ∀ v, r.admits v = true ↔ p.floor ≤ v ∧ p.Agrees 2 v)
    ∧ (Operand.ofChars? "18446744073709551615.1".toList = some q ∧ q.IsLeading 0 ∧ ¬ q.FitsAt 0
      ∧ ∃ r, parse "^18446744073709551615.1" = .ok r ∧ r.minimum? = none
        ∧ ∀ v, r.admits v = false) := by
  intro b p q
  have hp : Operand.ofChars? "v0.09.x-b".toList = some p := by decide
  have hq : Operand.ofChars? "18446744073709551615.1".toList = some q := by decide
  have hleading : p.IsLeading 1 := by decide
  have hfits : p.FitsAt 1 := by decide
  have hleading' : q.IsLeading 0 := by decide
  have hover : ¬ q.FitsAt 0 := by decide
  obtain ⟨r, hr, -, -, hranges⟩ := parse_caret hp
  obtain ⟨r', hr', -, -, hranges'⟩ := parse_caret hq
  obtain ⟨hadmits, -, hmin⟩ := (hranges 1 hleading).1 hfits
  obtain ⟨hnothing, hnone⟩ := (hranges' 0 hleading').2 hover
  exact ⟨⟨hp, hleading, hfits, r, hr, hmin, hadmits⟩,
    ⟨hq, hleading', hover, r', hr', hnone, hnothing⟩⟩

end Versioning.Range
