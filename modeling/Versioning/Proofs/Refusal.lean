import Versioning.Proofs.Dash
import Versioning.Proofs.Spelling

set_option autoImplicit false

/-! # Refused branches

A branch that is not of the form `A - B` is read item by item, and what is wrong with one item is
found before what is wrong with the branch as a whole. `IsRefused` says which branches admit no
version for that reason, without any order: an item asks for nothing that can be said, or loose text
stands beside a sigil, or there is neither a sigil nor a digit. A branch is refused exactly if it is
one of these (`Conjunction.ofItems?_eq_none_iff`), and `parse_branch` tells for every text of one
branch which of the three shapes it is read as. A branch that writes entries is refused as soon as
one upper bound does not fit (`ofReading_read_of_not_bounded`). -/

namespace Versioning

/-- A text without digits, and no other, holds no version. -/
theorem Version.findInChars?_eq_none_iff {cs : List Char} :
    findInChars? cs = none ↔ ∀ c ∈ cs, c.isDigit = false := by
  constructor
  · intro h c hc
    by_contra hdigit
    have hsome := isSome_findInChars? ⟨c, hc, Bool.eq_true_of_not_eq_false hdigit⟩
    rw [h] at hsome
    cases hsome
  · intro h
    have hdrop : cs.dropWhile (!·.isDigit) = [] :=
      List.dropWhile_eq_nil_iff.2 fun c hc => by simp [h c hc]
    rw [findInChars?, hdrop]
    rfl

namespace Range

open Text

/-! ## Branches -/

/-- Why a branch that is not of the form `A - B` is refused. -/
inductive IsRefused (cs : List Char) : Prop
  /-- What stands behind a sigil is no operand. -/
  | unreadable (i : Item) (hi : i ∈ items cs) (hsigil : i.sigil ≠ none)
      (hoperand : i.operand = none)
  /-- Text without a sigil that is no operand stands beside an item with a sigil. -/
  | loose (i j : Item) (hi : i ∈ items cs) (hj : j ∈ items cs) (hsigil : i.sigil ≠ none)
      (hnone : j.sigil = none) (hoperand : j.operand = none)
  /-- The upper bound of an item does not fit. -/
  | overflow (i : Item) (hi : i ∈ items cs) (hoverflow : i.Overflows)
  /-- There is neither a sigil nor a digit. -/
  | digitless (hsigil : ∀ i ∈ items cs, i.sigil = none) (hdigit : ∀ c ∈ cs, c.isDigit = false)

namespace Conjunction

variable {cs : List Char}

/-- All items ask for something unless one of them has a reason not to. -/
theorem mapM_comparators?_eq_none_iff :
    (items cs).mapM Item.comparators? = none ↔
      (∃ i ∈ items cs, i.sigil ≠ none ∧ i.operand = none) ∨ ∃ i ∈ items cs, i.Overflows := by
  simp only [mapM_eq_none_iff, Item.comparators?_eq_none_iff, and_or_left, exists_or]

theorem any_sigil_isSome_iff :
    (items cs).any (·.sigil.isSome) = true ↔ ∃ i ∈ items cs, i.sigil ≠ none := by
  simp only [List.any_eq_true, Option.isSome_iff_ne_none]

theorem any_isLoose_iff :
    (items cs).any Item.isLoose = true ↔ ∃ i ∈ items cs, i.sigil = none ∧ i.operand = none := by
  simp only [List.any_eq_true, Item.isLoose, Bool.and_eq_true, Option.isNone_iff_eq_none]

/-- **A branch that is read item by item is refused for one of the reasons and for no other.** -/
theorem ofItems?_eq_none_iff : ofItems? cs = none ↔ IsRefused cs := by
  rw [ofItems?]
  cases hmap : (items cs).mapM Item.comparators? with
  | none =>
      refine iff_of_true rfl ?_
      rcases mapM_comparators?_eq_none_iff.1 hmap with ⟨i, hi, hsigil, hoperand⟩ | ⟨i, hi, h⟩
      · exact .unreadable i hi hsigil hoperand
      · exact .overflow i hi h
  | some comparators =>
      -- No item has a reason of its own, so the reason is one of the branch as a whole.
      obtain ⟨hreadable, hfits⟩ := not_or.1 fun h =>
        Option.some_ne_none _ (hmap.symm.trans (mapM_comparators?_eq_none_iff.2 h))
      have hrefused : IsRefused cs ↔
          (∃ i ∈ items cs, i.sigil ≠ none) ∧ (∃ j ∈ items cs, j.sigil = none ∧ j.operand = none)
            ∨ (¬ ∃ i ∈ items cs, i.sigil ≠ none) ∧ ∀ c ∈ cs, c.isDigit = false := by
        constructor
        · rintro (⟨i, hi, hs, ho⟩ | ⟨i, j, hi, hj, hs, hn, ho⟩ | ⟨i, hi, h⟩ | ⟨hs, hd⟩)
          · exact absurd ⟨i, hi, hs, ho⟩ hreadable
          · exact Or.inl ⟨⟨i, hi, hs⟩, j, hj, hn, ho⟩
          · exact absurd ⟨i, hi, h⟩ hfits
          · refine Or.inr ⟨?_, hd⟩
            rintro ⟨i, hi, h⟩
            exact h (hs i hi)
        · rintro (⟨⟨i, hi, hs⟩, j, hj, hn, ho⟩ | ⟨hs, hd⟩)
          · exact .loose i j hi hj hs hn ho
          · exact .digitless (fun i hi => by_contra fun h => hs ⟨i, hi, h⟩) hd
      rw [hrefused, ← any_sigil_isSome_iff, ← any_isLoose_iff, ← Version.findInChars?_eq_none_iff]
      cases (items cs).any (·.sigil.isSome) <;> cases (items cs).any Item.isLoose <;>
        cases Version.findInChars? cs <;> simp

/-- Without a sigil, loose text leaves nothing but the version that is found in the branch. -/
theorem ofItems?_of_loose (h : ¬ IsRefused cs) (hsigil : ∀ i ∈ items cs, i.sigil = none)
    (hloose : ∃ i ∈ items cs, i.operand = none) :
    ∃ v, Version.findInChars? cs = some v
      ∧ ofItems? cs = some ⟨[⟨.equal, v⟩], [], some v⟩ := by
  have hnone : (items cs).any (·.sigil.isSome) = false := by
    rw [← Bool.not_eq_true, any_sigil_isSome_iff]
    rintro ⟨i, hi, hs⟩
    exact hs (hsigil i hi)
  have hany : (items cs).any Item.isLoose = true :=
    any_isLoose_iff.2 (hloose.imp fun i hi => ⟨hi.1, hsigil i hi.1, hi.2⟩)
  rw [← ofItems?_eq_none_iff] at h
  rw [ofItems?] at h ⊢
  cases hmap : (items cs).mapM Item.comparators? with
  | none => exact absurd (by simp [hmap]) h
  | some comparators =>
      cases hfound : Version.findInChars? cs with
      | none => exact absurd (by simp [hmap, hnone, hfound]) h
      | some v =>
          refine ⟨v, rfl, ?_⟩
          simp only [Option.bind_eq_bind, Option.bind_some, hnone, hany, Bool.false_eq_true,
            if_false, if_true]
          rfl

end Conjunction

instance (cs : List Char) : Decidable (IsRefused cs) :=
  decidable_of_iff _ Conjunction.ofItems?_eq_none_iff

/-- The greatest 64-bit number cannot be counted up, but there is no need to behind `>=`. -/
example : IsRefused "1.2 18446744073709551615.x".toList
    ∧ ¬ IsRefused "1.2 >= 18446744073709551615.x".toList := by decide

/-! ## Written branches -/

/-- An entry whose upper bound does not fit makes a written branch stand for no version. -/
theorem isRefused_of_written {es : List Entry} {cs : List Char} (h : Written es cs)
    (hb : ¬ ∀ e ∈ es, e.Bounded) : IsRefused cs := by
  simp only [not_forall, Entry.bounded_iff, not_not] at hb
  obtain ⟨e, he, hoverflow⟩ := hb
  refine .overflow e.item ?_ hoverflow
  rw [items_of_written h]
  exact List.mem_map_of_mem he

/-! ## Shapes -/

theorem allWildcards_iff {cs : List Char} : Shape.allWildcards cs = true ↔
    ∀ w ∈ words cs, ∃ p, Operand.ofChars? w = some p ∧ p.components = [] := by
  simp only [Shape.allWildcards, List.all_eq_true, Option.any_eq_true, Operand.isAny,
    List.isEmpty_iff]

/-- A framed text that is not of the form `A - B` is read word by word or item by item. -/
theorem ofReading_read {cs : List Char} (hframed : IsFramed cs) (hdash : ¬ IsDash cs) :
    Shape.ofReading (Shape.read cs) = if Shape.allWildcards cs then .everything
      else (Conjunction.ofItems? cs).elim .nothing .conjunction := by
  have hends : Conjunction.dashEnds? cs = none := by
    rw [← Option.not_isSome_iff_eq_none, Conjunction.isSome_dashEnds?_iff hframed]
    exact hdash
  have hne : ¬ cs.isEmpty = true := fun h => hframed.ne_nil (List.isEmpty_iff.1 h)
  rw [Shape.read, if_neg hne, Conjunction.ofChars?, hends]
  split
  · rfl
  · cases Conjunction.ofItems? cs <;> rfl

/-- A written branch with an upper bound that does not fit stands for no version. -/
theorem ofReading_read_of_not_bounded {es : List Entry} {cs : List Char} (h : Written es cs)
    (hb : ¬ ∀ e ∈ es, e.Bounded) : Shape.ofReading (Shape.read cs) = .nothing := by
  have hframed := isFramed_of_written h
  have hdash : ¬ IsDash cs := by
    rw [← Conjunction.isSome_dashEnds?_iff hframed,
      Conjunction.dashEnds?_eq_none (dash_notMem_words h)]
    exact Bool.false_ne_true
  -- An entry that counts up a component gives one, so it is no wildcard.
  have hwild : ¬ Shape.allWildcards cs = true := by
    rw [allWildcards_of_written h, List.all_eq_true]
    intro hall
    refine hb fun e he i hi => ?_
    have hany : e.operand.isAny = true := by
      simpa [Entry.item] using (Bool.and_eq_true_iff.1 (hall e he)).2
    rw [Entry.ceilingPlace?, if_pos hany] at hi
    cases hi
  rw [ofReading_read hframed hdash, if_neg hwild,
    Conjunction.ofItems?_eq_none_iff.2 (isRefused_of_written h hb)]
  rfl

/-- **What a branch that is not of the form `A - B` is read as.** It stands for all versions exactly
    if its words are operands without components. Of all others, it stands for none exactly if it is
    refused, and else it is a conjunction. Without a sigil, loose text makes it the conjunction of
    the version that is found in it, which is then its lowest version too. -/
theorem parse_branch (text : String) (hgap : ¬ IsGap text.toList)
    (hbars : ¬ ['|', '|'] <:+: text.toList) (hdash : ¬ IsDash (trim isBlank text.toList)) :
    let cs := trim isBlank text.toList
    ∃ s, parse text = .ok (ofBranch text cs s)
      ∧ (s = .everything ↔ ∀ w ∈ words cs, ∃ p, Operand.ofChars? w = some p ∧ p.components = [])
      ∧ (s ≠ .everything →
        (s = .nothing ↔ IsRefused cs) ∧ ((∃ c, s = .conjunction c) ↔ ¬ IsRefused cs)
        ∧ (¬ IsRefused cs → (∀ i ∈ items cs, i.sigil = none) →
          (∃ i ∈ items cs, i.operand = none) →
            ∃ v, Version.findIn? (String.ofList cs) = some v
              ∧ s = .conjunction ⟨[⟨.equal, v⟩], [], some v⟩ ∧ s.minimum? = some v)) := by
  intro cs
  have hshape := ofReading_read (isFramed_trim hgap) hdash
  refine ⟨Shape.ofReading (Shape.read cs), ?_, ?_, ?_⟩
  · rw [parse_eq_ok_iff.2 ⟨hgap, rfl⟩, branchesOf_of_not_isInfix hbars]
    rfl
  · rw [hshape, ← allWildcards_iff]
    split
    · next hwild => exact iff_of_true rfl hwild
    · next hwild =>
        refine iff_of_false ?_ hwild
        cases Conjunction.ofItems? cs <;> exact nofun
  · intro hs
    have hshape : Shape.ofReading (Shape.read cs)
        = (Conjunction.ofItems? cs).elim .nothing .conjunction := by
      rw [hshape, ite_eq_right_iff]
      intro hwild
      exact absurd (hshape.trans (if_pos hwild)) hs
    rw [hshape]
    refine ⟨?_, ?_, fun hread hsigil hloose => ?_⟩
    · rw [← Conjunction.ofItems?_eq_none_iff]
      cases Conjunction.ofItems? cs <;> simp
    · rw [← Conjunction.ofItems?_eq_none_iff]
      cases Conjunction.ofItems? cs <;> simp
    · obtain ⟨v, hfound, hitems⟩ := Conjunction.ofItems?_of_loose hread hsigil hloose
      rw [hitems, Version.findIn?, String.toList_ofList]
      exact ⟨v, hfound, rfl, rfl⟩

/-- Loose text on both sides of two operands, the second as great as its upper bound allows. -/
theorem parse_branch_loose :
    ¬ IsDash (trim isBlank " ?a 1.2\t18446744073709551614 b ".toList)
      ∧ ¬ IsRefused (trim isBlank " ?a 1.2\t18446744073709551614 b ".toList)
      ∧ ∃ r, parse " ?a 1.2\t18446744073709551614 b " = .ok r
        ∧ r.minimum? = some ⟨.ofNat 1, .ofNat 2, .zero, [], []⟩ := by
  have hbars : ¬ ['|', '|'] <:+: " ?a 1.2\t18446744073709551614 b ".toList := fun h =>
    absurd (h.subset List.mem_cons_self) (by decide)
  have hdash : ¬ IsDash (trim isBlank " ?a 1.2\t18446744073709551614 b ".toList) := fun h =>
    absurd (Conjunction.isSome_dashEnds? h) (by decide)
  obtain ⟨s, hparse, hall, hs⟩ :=
    parse_branch " ?a 1.2\t18446744073709551614 b " (by decide) hbars hdash
  have hne : s ≠ .everything := fun h =>
    absurd (allWildcards_iff.2 (hall.1 h)) (by decide)
  have hread : ¬ IsRefused (trim isBlank " ?a 1.2\t18446744073709551614 b ".toList) := by decide
  obtain ⟨v, hfound, -, hmin⟩ := (hs hne).2.2 hread (by decide) (by decide)
  refine ⟨hdash, hread, _, hparse, ?_⟩
  rw [minimum?_ofBranch, hmin, ← hfound]
  decide

end Range

end Versioning
