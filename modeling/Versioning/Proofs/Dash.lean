import Versioning.Proofs.Entry

set_option autoImplicit false

/-! # Branches of the form `A - B`

A branch of the form `A - B` has an end on either side of a dash that stands between gaps. Ends are
made of digits and dots alone (`IsRuns`), so what is found by taking the words of a branch is this
form and nothing else (`Conjunction.isSome_dashEnds?_iff`). -/

namespace Versioning

theorem Numeral.isSome_ofDigits?_iff {ds : List Char} :
    (ofDigits? ds).isSome = true ↔ ds ≠ [] ∧ ∀ c ∈ ds, c.isDigit = true := by
  constructor
  · intro h
    obtain ⟨n, hn⟩ := Option.isSome_iff_exists.1 h
    exact of_ofDigits?_eq_some hn
  · rintro ⟨hne, hdigits⟩
    rw [ofDigits?, dif_pos (List.all_eq_true.2 hdigits), if_neg (by simpa using hne)]
    rfl

namespace Range

open Text

/-! ## Ends -/

theorem IsRuns.eq_dot_or_isDigit {cs : List Char} (h : IsRuns cs) {c : Char} (hc : c ∈ cs) :
    c = '.' ∨ c.isDigit = true := by
  rcases mem_splitOn (m := '.') hc with rfl | ⟨piece, hpiece, hcp⟩
  · exact Or.inl rfl
  · exact Or.inr ((h.2 piece hpiece).2 c hcp)

theorem IsRuns.notMem {cs : List Char} (h : IsRuns cs) {c : Char} (hdot : c ≠ '.')
    (hdigit : c.isDigit = false) : c ∉ cs := by
  intro hc
  rcases h.eq_dot_or_isDigit hc with hc | hc
  · exact hdot hc
  · rw [hdigit] at hc
    cases hc

theorem IsRuns.isSolid {cs : List Char} (h : IsRuns cs) : IsSolid cs := by
  constructor
  · rintro rfl
    exact (h.2 [] List.mem_cons_self).1 rfl
  · intro c hc
    rcases h.eq_dot_or_isDigit hc with rfl | hdigit
    · rfl
    · exact isBlank_of_isOperandChar
        (isOperandChar_of_isWordChar (by simp [isWordChar, Char.isAlphanum, hdigit]))

/-! ## Branches -/

/-- The text of a branch with a dash between its ends, which gaps keep apart from it. -/
def dashed (start before behind stop : List Char) : List Char :=
  start ++ (before ++ (['-'] ++ (behind ++ stop)))

/-- The form `A - B`. -/
def IsDash (cs : List Char) : Prop :=
  ∃ start before behind stop, IsRuns start ∧ IsRuns stop
    ∧ IsGap before ∧ before ≠ [] ∧ IsGap behind ∧ behind ≠ []
    ∧ cs = dashed start before behind stop

theorem words_dashed {start before behind stop : List Char} (hstart : IsSolid start)
    (hstop : IsSolid stop) (hbefore : IsGap before) (hne : before ≠ []) (hbehind : IsGap behind)
    (hne' : behind ≠ []) :
    words (dashed start before behind stop) = [start, ['-'], stop] := by
  have hdash : IsSolid ['-'] := by decide
  have hlast : words (stop ++ []) = stop :: words [] := words_solid_append hstop (by simp)
  rw [List.append_nil, words_nil] at hlast
  rw [dashed, words_solid_append hstart (head?_gap_append hbefore hne), words_gap_append hbefore,
    words_solid_append hdash (head?_gap_append hbehind hne'), words_gap_append hbehind, hlast]

theorem isFramed_dashed {start before behind stop : List Char} (hstart : IsSolid start)
    (hstop : IsSolid stop) : IsFramed (dashed start before behind stop) := by
  have hframed := hstart.isFramed.append hstop.isFramed (before ++ (['-'] ++ behind))
  rwa [List.append_assoc, List.append_assoc] at hframed

/-- A framed text of three words with a dash as the second is written with a dash between gaps. -/
theorem exists_eq_dashed {cs start stop : List Char} (hframed : IsFramed cs)
    (hwords : words cs = [start, ['-'], stop]) :
    ∃ before behind, IsGap before ∧ before ≠ [] ∧ IsGap behind ∧ behind ≠ []
      ∧ cs = dashed start before behind stop := by
  obtain ⟨lead, _, hlead, hstart, hrest, rfl, hwords'⟩ := words_eq_cons_iff.1 hwords
  obtain ⟨before, _, hbefore, -, hrest', rfl, hwords''⟩ := words_eq_cons_iff.1 hwords'
  obtain ⟨behind, tail, hbehind, hstop, -, rfl, hnil⟩ := words_eq_cons_iff.1 hwords''
  have htail : IsGap tail := words_eq_nil_iff.1 hnil
  -- There are no blanks at the ends, and words are kept apart by blanks.
  have hlead : lead = [] := hframed.eq_nil_of_gap_append hlead
  have htail : tail = [] := by
    simp only [← List.append_assoc] at hframed
    exact hframed.eq_nil_of_append_gap htail
  have hbefore' : before ≠ [] := by
    rintro rfl
    exact absurd (hrest '-' rfl) (by decide)
  have hbehind' : behind ≠ [] := by
    rintro rfl
    obtain ⟨c, ds, rfl⟩ := List.exists_cons_of_ne_nil hstop.1
    cases (hrest' c rfl).symm.trans (hstop.2 c List.mem_cons_self)
  refine ⟨before, behind, hbefore, hbefore', hbehind, hbehind', ?_⟩
  rw [hlead, htail, List.append_nil]
  rfl

namespace Conjunction

theorem dashEnds?_eq_some_iff {cs start stop : List Char} :
    dashEnds? cs = some (start, stop) ↔ words cs = [start, ['-'], stop]
      ∧ IsRuns start ∧ IsRuns stop := by
  rw [dashEnds?]
  split
  · next start' stop' hwords =>
      rw [hwords, Option.ite_none_right_eq_some]
      constructor
      · rintro ⟨hruns, heq⟩
        cases heq
        exact ⟨rfl, hruns⟩
      · rintro ⟨heq, hruns⟩
        cases heq
        exact ⟨hruns, rfl⟩
  · next hwords =>
      simp only [reduceCtorEq, false_iff, not_and]
      exact fun h => absurd h (hwords start stop)

theorem isSome_dashEnds? {cs : List Char} (h : IsDash cs) : (dashEnds? cs).isSome = true := by
  obtain ⟨start, before, behind, stop, hstart, hstop, hbefore, hne, hbehind, hne', rfl⟩ := h
  rw [dashEnds?_eq_some_iff.2 ⟨words_dashed hstart.isSolid hstop.isSolid hbefore hne hbehind hne',
    hstart, hstop⟩]
  rfl

/-- **The two ends of a branch are found exactly if the branch is of the form `A - B`.** -/
theorem isSome_dashEnds?_iff {cs : List Char} (h : IsFramed cs) :
    (dashEnds? cs).isSome = true ↔ IsDash cs := by
  refine ⟨fun hends => ?_, isSome_dashEnds?⟩
  obtain ⟨⟨start, stop⟩, hends⟩ := Option.isSome_iff_exists.1 hends
  obtain ⟨hwords, hstart, hstop⟩ := dashEnds?_eq_some_iff.1 hends
  obtain ⟨before, behind, hbefore, hne, hbehind, hne', rfl⟩ := exists_eq_dashed h hwords
  exact ⟨start, before, behind, stop, hstart, hstop, hbefore, hne, hbehind, hne', rfl⟩

end Conjunction

end Range

end Versioning
