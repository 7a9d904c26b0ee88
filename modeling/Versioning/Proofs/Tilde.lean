import Versioning.Proofs.Single

set_option autoImplicit false

/-! # Tilde ranges and operands alone

Behind a tilde an operand stands for the versions that agree with it on the major and, if it is
given, the minor component. Alone, or behind `=`, it stands for those that agree with it on all its
components; a full operand asks for its floor itself, which is more, as it fixes the pre-release
too. What is not full is bounded by a ceiling, and none of these ranges reaches below the floor
(`parse_tilde_or_alone`). -/

namespace Versioning.Range

variable {sign text : String} {p : Operand}

/-- The signs of an operand that asks for its own span: none, or the sign of equality. -/
theorem comparators?_ofSign_eq_span? (hs : sign ∈ ["", "="]) :
    (Item.ofSign sign p).comparators? = p.span? := by
  simp only [List.mem_cons, List.not_mem_nil, or_false] at hs
  rcases hs with rfl | rfl <;> rfl

theorem toList_mem_signs (hs : sign ∈ ["", "="]) : sign.toList ∈ signs := by
  simp only [List.mem_cons, List.not_mem_nil, or_false] at hs
  rcases hs with rfl | rfl <;> decide

/-- A full operand alone asks for versions that are equal to its floor in precedence. -/
theorem parse_full (hs : sign ∈ ["", "="]) (h : Operand.ofChars? text.toList = some p)
    (hfull : p.components.length = 3) :
    ∃ r, parse (sign ++ text) = .ok r ∧ ∀ v, r.admits v = true ↔ v.Equivalent p.floor := by
  obtain ⟨r, hr, hadmits, -⟩ := parse_sign (toList_mem_signs hs) h
  refine ⟨r, hr, fun v => ?_⟩
  have hspan : p.span? = some [⟨.equal, p.floor⟩] := if_pos (beq_iff_eq.2 hfull)
  rw [hadmits, Item.admits, comparators?_ofSign_eq_span? hs, hspan]
  simp [Comparator.admits]

/-- **Tilde ranges and operands alone admit what begins as their operand.** The operand gives `n`
    components, at least one. Behind `~` its first two components count, alone or behind `=` all of
    them, and of what agrees on them all versions are admitted that are not below the floor. If the
    last of these components is the greatest 64-bit number or above, nothing is admitted. A full
    operand alone or behind `=` admits the versions that are equal to its floor in precedence,
    however great its components are. -/
theorem parse_tilde_or_alone {n : ℕ} (h : Operand.ofChars? text.toList = some p)
    (hn : p.components.length = n) (hpos : 0 < n) :
    (∃ r, parse ("~" ++ text) = .ok r
      ∧ (p.FitsAt (min n 2 - 1) →
        (∀ v, r.admits v = true ↔ p.floor ≤ v ∧ p.Agrees (min n 2) v)
        ∧ r.minimum? = some p.floor)
      ∧ (¬ p.FitsAt (min n 2 - 1) → (∀ v, r.admits v = false) ∧ r.minimum? = none))
    ∧ ∀ sign ∈ ["", "="], ∃ r, parse (sign ++ text) = .ok r
      ∧ (n < 3 →
        (p.FitsAt (n - 1) → ∀ v, r.admits v = true ↔ p.floor ≤ v ∧ p.Agrees n v)
        ∧ (¬ p.FitsAt (n - 1) → (∀ v, r.admits v = false) ∧ r.minimum? = none))
      ∧ (n = 3 → ∀ v, r.admits v = true ↔ v.Equivalent p.floor) := by
  have hlen := Operand.length_components_le h
  constructor
  · have hplace : p.minorPlace = min n 2 - 1 := by
      rw [Operand.minorPlace, Operand.lastPlace]
      omega
    have hitem : (Item.ofSign "~" p).comparators? = p.upTo? (min n 2 - 1) := hplace ▸ rfl
    have hlength : min n 2 - 1 + 1 = min n 2 := by omega
    obtain ⟨r, hr, hfits, hover⟩ := parse_upTo (by decide) h (by omega) hitem
    rw [hlength] at hfits
    exact ⟨r, hr, fun hk => (hfits hk).imp_right fun hmin => hmin (by decide), hover⟩
  · intro sign hs
    by_cases hfull : n = 3
    · obtain ⟨r, hr, hadmits⟩ := parse_full hs h (hn.trans hfull)
      exact ⟨r, hr, fun hlt => by omega, fun _ => hadmits⟩
    · have hitem : (Item.ofSign sign p).comparators? = p.upTo? (n - 1) := by
        have hnot : ¬ p.isFull = true := by
          rw [Operand.isFull, beq_iff_eq, hn]
          exact hfull
        have hany : ¬ p.isAny = true := by
          rw [Operand.isAny, List.isEmpty_iff, ← List.length_eq_zero_iff]
          omega
        rw [comparators?_ofSign_eq_span? hs, Operand.span?, if_neg hnot, if_neg hany,
          Operand.lastPlace, hn]
      have hlength : n - 1 + 1 = n := by omega
      obtain ⟨r, hr, hfits, hover⟩ := parse_upTo (toList_mem_signs hs) h (by omega) hitem
      rw [hlength] at hfits
      exact ⟨r, hr, fun _ => ⟨fun hk => (hfits hk).1, hover⟩, fun heq => absurd heq hfull⟩

/-- An operand that is cut at a wildcard, one with leading zeros and a pre-release, one whose last
    component is too great for a ceiling, and a full one that needs none. -/
theorem parse_tilde_or_alone_cut :
    let b : Identifier := .alphanumeric ⟨['b'], by decide⟩ (by decide)
    let great : Numeral := .ofNat 18446744073709551615
    let cut : Operand := ⟨[.ofNat 1], [], []⟩
    let short : Operand := ⟨[.ofNat 1, .ofNat 2], [b], []⟩
    let long : Operand := ⟨[.ofNat 1, great], [], []⟩
    let full : Operand := ⟨[.ofNat 1, .ofNat 2, great], [b], []⟩
    (Operand.ofChars? "1.x.3".toList = some cut ∧ cut.FitsAt 0
      ∧ ∃ r, parse "~1.x.3" = .ok r ∧ r.minimum? = some cut.floor
        ∧ ∀ v, r.admits v = true ↔ cut.floor ≤ v ∧ cut.Agrees 1 v)
    ∧ (Operand.ofChars? "v01.2-b".toList = some short ∧ short.FitsAt 1
      ∧ ∃ r, parse "=v01.2-b" = .ok r
        ∧ ∀ v, r.admits v = true ↔ short.floor ≤ v ∧ short.Agrees 2 v)
    ∧ (Operand.ofChars? "1.18446744073709551615".toList = some long ∧ ¬ long.FitsAt 1
      ∧ ∃ r, parse "1.18446744073709551615" = .ok r ∧ ∀ v, r.admits v = false)
    ∧ (Operand.ofChars? "1.2.18446744073709551615-b".toList = some full
      ∧ ∃ r, parse "1.2.18446744073709551615-b" = .ok r
        ∧ ∀ v, r.admits v = true ↔ v.Equivalent full.floor) := by
  intro b great cut short long full
  have hcut : Operand.ofChars? "1.x.3".toList = some cut := by decide
  have hshort : Operand.ofChars? "v01.2-b".toList = some short := by decide
  have hlong : Operand.ofChars? "1.18446744073709551615".toList = some long := by decide
  have hfull : Operand.ofChars? "1.2.18446744073709551615-b".toList = some full := by decide
  have hfits : cut.FitsAt 0 := by decide
  have hfits' : short.FitsAt 1 := by decide
  have hover : ¬ long.FitsAt 1 := by decide
  obtain ⟨⟨r, hr, hcutfits, -⟩, -⟩ := parse_tilde_or_alone hcut rfl (by decide)
  obtain ⟨s, hs, hspan, -⟩ := (parse_tilde_or_alone hshort rfl (by decide)).2 "=" (by decide)
  obtain ⟨t, ht, hnone, -⟩ := (parse_tilde_or_alone hlong rfl (by decide)).2 "" (by decide)
  obtain ⟨u, hu, -, hequal⟩ := (parse_tilde_or_alone hfull rfl (by decide)).2 "" (by decide)
  exact ⟨⟨hcut, hfits, r, hr, (hcutfits hfits).2, (hcutfits hfits).1⟩,
    ⟨hshort, hfits', s, hs, (hspan (by decide)).1 hfits'⟩,
    ⟨hlong, hover, t, ht, ((hnone (by decide)).2 hover).1⟩, ⟨hfull, u, hu, hequal rfl⟩⟩

end Versioning.Range
