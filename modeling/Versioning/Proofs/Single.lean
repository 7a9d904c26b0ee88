import Versioning.Proofs.Interval
import Versioning.Proofs.Least
import Versioning.Proofs.Prefix

set_option autoImplicit false

/-! # Ranges of a single item

A sign with an operand behind it is a range of its own (`parse_sign`). It admits what its item
admits, and if there is a sign, its lowest version is that of the conjunction of the item.

Most items ask for what lies from the floor of their operand up to a ceiling. Such an item stands
for all versions that agree with the operand up to the place of the ceiling and are not below the
floor, and for no version if the component at the place cannot be counted up (`parse_upTo`). -/

namespace Versioning.Range

open Text

/-! ## Signs with an operand -/

/-- **An entry alone is read as a branch that admits what its item admits.** -/
theorem parse_entry (e : Entry) :
    ∃ r, parse (String.ofList e.chars) = .ok r
      ∧ (∀ v, r.admits v = e.item.admits v)
      ∧ (e.item.comparators? = none → r.minimum? = none)
      ∧ (e.sign ≠ [] → ∀ cs, e.item.comparators? = some cs →
        r.minimum? = (Conjunction.ofComparators cs none).minimum?) := by
  have hwritten := written_chars e
  have hframed := isFramed_of_written hwritten
  have hbranch := branchesOf_of_isFramed hframed (bar_notMem_of_written hwritten)
  refine ⟨ofBranch (String.ofList e.chars) e.chars (Shape.ofReading (Shape.read e.chars)),
    ?_, fun v => ?_, fun hnone => ?_, fun hsign cs hcs => ?_⟩
  · rw [parse_eq_ok_iff, String.toList_ofList, hbranch]
    exact ⟨hframed.not_isGap, rfl⟩
  · rw [admits_ofBranch, admits_of_written hwritten, List.all_cons, List.all_nil, Bool.and_true]
  · have hb : ¬ ∀ d ∈ [e], d.Bounded := by
      intro hb
      have hsome := Entry.isSome_comparators? (hb e List.mem_cons_self)
      rw [hnone] at hsome
      cases hsome
    rw [minimum?_ofBranch, ofReading_read_of_not_bounded hwritten hb]
    rfl
  · have hb : e.Bounded := by
      rw [Entry.bounded_iff]
      intro hover
      rw [Item.comparators?_eq_none_iff.2 (Or.inr hover)] at hcs
      cases hcs
    obtain ⟨s, hread, -, hs⟩ := read_of_written hwritten (List.forall_mem_singleton.2 hb)
    rw [Entry.comparators?_eq hb, Option.some.injEq] at hcs
    rw [minimum?_ofBranch, hread, hs ⟨e, List.mem_cons_self, hsign⟩, List.flatMap_singleton, hcs]
    rfl

variable {sign text : String} {p : Operand}

/-- The item of a sign with an operand behind it. -/
def Item.ofSign (sign : String) (p : Operand) : Item := ⟨(Sigil.split sign.toList).1, some p⟩

/-- A sign in front of an operand is read as a branch that admits what the item admits. -/
theorem parse_sign (hs : sign.toList ∈ signs) (h : Operand.ofChars? text.toList = some p) :
    ∃ r, parse (sign ++ text) = .ok r
      ∧ (∀ v, r.admits v = (Item.ofSign sign p).admits v)
      ∧ ((Item.ofSign sign p).comparators? = none → r.minimum? = none)
      ∧ (sign ≠ "" → ∀ cs, (Item.ofSign sign p).comparators? = some cs →
        r.minimum? = (Conjunction.ofComparators cs none).minimum?) := by
  let e : Entry := ⟨sign.toList, text.toList, p, hs, h⟩
  have htext : String.ofList e.chars = sign ++ text := by
    rw [← String.toList_inj, String.toList_ofList, String.toList_append]
    rfl
  obtain ⟨r, hr, hadmits, hnone, hmin⟩ := parse_entry e
  refine ⟨r, htext ▸ hr, hadmits, hnone, fun hsign => hmin ?_⟩
  rwa [Ne, ← String.toList_eq_nil_iff] at hsign

/-! ## From a floor up to a ceiling -/

namespace Operand

variable {i : ℕ}

/-- The component at a place is given, and can be counted up within 64 bits. -/
def FitsAt (p : Operand) (i : ℕ) : Prop :=
  ∃ n ∈ p.components[i]?, n.value + 1 < Numeral.wordSize

instance (p : Operand) (i : ℕ) : Decidable (p.FitsAt i) :=
  inferInstanceAs (Decidable (∃ n ∈ p.components[i]?, _))

theorem upTo?_of_not_fitsAt (hi : i < p.components.length) (hfits : ¬ p.FitsAt i) :
    p.upTo? i = none := by
  rw [upTo?_eq_none_iff]
  refine ⟨p.components[i], List.getElem?_eq_getElem hi, ?_⟩
  rw [← not_lt]
  exact fun hlt => hfits ⟨_, List.getElem?_eq_getElem hi, hlt⟩

/-- **From the floor up to a ceiling are the versions that agree up to the place**, and the floor is
    the lowest of them. -/
theorem upTo?_of_fitsAt (hlen : p.components.length ≤ 3) (hfits : p.FitsAt i) :
    ∃ cs, p.upTo? i = some cs
      ∧ (∀ v, cs.all (·.admits v) = true ↔ p.floor ≤ v ∧ p.Agrees (i + 1) v)
      ∧ (Conjunction.ofComparators cs none).minimum? = some p.floor := by
  obtain ⟨n, hn, hlt⟩ := hfits
  obtain ⟨hi, -⟩ := List.getElem?_eq_some_iff.1 hn
  have hany : ¬ p.isAny = true := by
    rw [isAny, List.isEmpty_iff, ← List.length_eq_zero_iff]
    omega
  obtain ⟨top, htop⟩ : ∃ top, p.ceiling? i = some top := by
    rw [← Option.isSome_iff_exists, Option.isSome_iff_ne_none, Ne, ceiling?_eq_none_iff]
    rintro ⟨m, hm, hover⟩
    cases hn.symm.trans hm
    omega
  let cs : List Comparator := [⟨.greaterOrEqual, p.floor⟩, ⟨.less, top⟩]
  have hadmits : ∀ v, cs.all (·.admits v) = true ↔ p.floor ≤ v ∧ p.Agrees (i + 1) v := by
    intro v
    rw [← floor_le_and_lt_ceiling_iff hlen hi htop]
    simp [cs, Comparator.admits]
  refine ⟨cs, by rw [upTo?, if_neg hany, htop, Option.map_some], hadmits, ?_⟩
  refine Conjunction.minimum?_of_start rfl rfl ?_
  rw [Conjunction.admits_ofComparators, hadmits]
  exact ⟨le_rfl, agrees_floor hlen hi⟩

end Operand

/-- **An item that reaches up to a ceiling stands for the versions that agree with its operand.**
    Where the ceiling does not fit, it stands for none. -/
theorem parse_upTo {i : ℕ} (hs : sign.toList ∈ signs)
    (h : Operand.ofChars? text.toList = some p) (hi : i < p.components.length)
    (hitem : (Item.ofSign sign p).comparators? = p.upTo? i) :
    ∃ r, parse (sign ++ text) = .ok r
      ∧ (p.FitsAt i →
        (∀ v, r.admits v = true ↔ p.floor ≤ v ∧ p.Agrees (i + 1) v)
        ∧ (sign ≠ "" → r.minimum? = some p.floor))
      ∧ (¬ p.FitsAt i → (∀ v, r.admits v = false) ∧ r.minimum? = none) := by
  have hlen := Operand.length_components_le h
  obtain ⟨r, hr, hadmits, hnone, hmin⟩ := parse_sign hs h
  refine ⟨r, hr, fun hfits => ?_, fun hfits => ?_⟩
  · obtain ⟨cs, hcs, hall, hfloor⟩ := Operand.upTo?_of_fitsAt hlen hfits
    rw [← hitem] at hcs
    refine ⟨fun v => ?_, fun hsign => (hmin hsign cs hcs).trans hfloor⟩
    rw [hadmits, Item.admits, hcs, Option.any_some, hall]
  · rw [Operand.upTo?_of_not_fitsAt hi hfits] at hitem
    refine ⟨fun v => ?_, hnone hitem⟩
    rw [hadmits, Item.admits, hitem, Option.any_none]

end Versioning.Range
