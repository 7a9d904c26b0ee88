import Versioning.Proofs.Bare
import Versioning.Proofs.Dash

set_option autoImplicit false

/-! # Ranges from one end to another

A branch `A - B` admits what lies from the floor of `A` up to its upper side (`parse_dash`). If `B`
has three numbers, the upper side is `B` itself. If it has fewer, everything that begins with at
most these numbers is let in, in lexicographic order: this is what lies below the ceiling of `B`,
which the reader computes by counting up the last number. Where this number is too great for 64
bits the branch stands for nothing.

The floor of `A` is also the lowest version of the branch, even if `B` lies below `A` and nothing is
admitted at all. It is the version that the lenient reader finds in `A`. -/

namespace Versioning

/-! ## Numbers of digit runs -/

theorem Numeral.value_stripZeros (ds : List Char) :
    Nat.ofDigitChars 10 (stripZeros ds) 0 = Nat.ofDigitChars 10 ds 0 := by
  induction ds with
  | nil => rfl
  | cons d ds ih =>
      by_cases hd : d = '0'
      · subst hd
        have hdrop : stripZeros ('0' :: ds) = stripZeros ds := by simp [stripZeros]
        rw [hdrop, ih, Nat.ofDigitChars_cons]
        rfl
      · simp [stripZeros, hd]

/-- The numeral of a digit run has its value, whatever zeros stand in front. -/
theorem Numeral.map_value_ofDigits? {ds : List Char} (h : (ofDigits? ds).isSome = true) :
    (ofDigits? ds).map value = some (Nat.ofDigitChars 10 ds 0) := by
  obtain ⟨hne, hdigits⟩ := isSome_ofDigits?_iff.1 h
  rw [ofDigits?, dif_pos (List.all_eq_true.2 hdigits), if_neg (by simpa using hne), Option.map_some]
  exact congrArg some (value_stripZeros ds)

namespace Range

open Text

/-- The numbers that the digit runs of a text write. -/
def runNumbers (cs : List Char) : List ℕ :=
  (cs.splitOn '.').map fun run => Nat.ofDigitChars 10 run 0

/-- Digit runs are an operand of their numbers, and its floor is what is found in them. -/
structure Operand.IsOfRuns (p : Operand) (cs : List Char) : Prop where
  reads : ofChars? cs = some p
  numbers : p.numbers = runNumbers cs
  found : Version.findInChars? cs = some p.floor

namespace Operand

variable {cs : List Char} {p : Operand}

theorem component?_of_run {piece : List Char} (h : (Numeral.ofDigits? piece).isSome = true) :
    component? piece = (Numeral.ofDigits? piece).map some := by
  obtain ⟨-, hdigits⟩ := Numeral.isSome_ofDigits?_iff.1 h
  have hwild : ¬ isWildcard piece = true := by
    intro hwild
    simp only [isWildcard, Bool.or_eq_true, beq_iff_eq] at hwild
    rcases hwild with (rfl | rfl) | rfl <;>
      exact absurd (hdigits _ List.mem_cons_self) (by decide)
  rw [component?, if_neg hwild]

theorem ne_nil_of_numbers_eq (h : p.numbers = runNumbers cs) : p.components ≠ [] := by
  intro hnil
  rw [numbers, hnil, runNumbers, List.map_nil, eq_comm, List.map_eq_nil_iff] at h
  exact List.splitOn_ne_nil '.' cs h

/-- **Digit runs are read as an operand**, without a pre-release and a build. -/
theorem exists_isOfRuns (h : IsRuns cs) : ∃ p : Operand, p.IsOfRuns cs := by
  have hall : ∀ piece ∈ cs.splitOn '.', (Numeral.ofDigits? piece).isSome = true :=
    fun piece hpiece => Numeral.isSome_ofDigits?_iff.2 (h.2 piece hpiece)
  have hplus : '+' ∉ cs := h.notMem (by decide) (by decide)
  have hdash : '-' ∉ cs := h.notMem (by decide) (by decide)
  have hmark : cs.head? ≠ some 'v' := fun hv =>
    h.notMem (by decide) (by decide) (List.mem_of_head? hv)
  have hcut : cut '+' (unmarked cs) = (cs, none) := by
    rw [unmarked_eq_self hmark, cut_of_notMem hplus]
  let ns := (cs.splitOn '.').filterMap Numeral.ofDigits?
  have hparts : (cs.splitOn '.').mapM component? = some (ns.map some) := by
    refine mapM_eq_some_iff.2 ⟨fun piece hpiece => ?_, ?_⟩
    · rw [component?_of_run (hall piece hpiece), Option.isSome_map]
      exact hall piece hpiece
    · rw [List.filterMap_congr fun piece hpiece => component?_of_run (hall piece hpiece),
        ← List.map_filterMap]
  have hreads : ofChars? cs = some ⟨ns, [], []⟩ := by
    refine ofChars?_eq_some_iff.2 ⟨ns.map some, ?_, ?_, ?_, ?_, given_map_some ns⟩
    · rw [frontOf, hcut, cut_of_notMem hdash]
      exact hparts
    · rw [frontOf, hcut, cut_of_notMem hdash]
      rfl
    · rw [hcut]
      rfl
    · rw [List.length_map, List.filterMap_length_eq_length.2 hall]
      exact h.1
  have hnumbers : (⟨ns, [], []⟩ : Operand).numbers = runNumbers cs := by
    show ns.map Numeral.value = _
    rw [List.map_filterMap, runNumbers,
      List.filterMap_congr fun piece hpiece => Numeral.map_value_ofDigits? (hall piece hpiece),
      List.filterMap_eq_map']
  exact ⟨_, hreads, hnumbers, findInChars?_eq hreads (ne_nil_of_numbers_eq hnumbers)⟩

end Operand

/-! ## Reading the branch -/

variable {start before behind stop : List Char} {p q : Operand}

theorem bar_notMem_dashed (hstart : IsRuns start) (hstop : IsRuns stop) (hbefore : IsGap before)
    (hbehind : IsGap behind) : '|' ∉ dashed start before behind stop := by
  simp only [dashed, List.mem_append, not_or]
  exact ⟨hstart.notMem (by decide) (by decide), bar_notMem_gap hbefore, by decide,
    bar_notMem_gap hbehind, hstop.notMem (by decide) (by decide)⟩

/-- Between digit runs, the lowest version is the floor of the first. -/
theorem between?_eq (hp : p.IsOfRuns start) (hq : q.IsOfRuns stop) :
    Conjunction.between? start stop = q.upToEnd?.map fun upper =>
      .ofComparators (⟨.greaterOrEqual, p.floor⟩ :: upper) (some p.floor) := by
  simp only [Conjunction.between?, hp.reads, hq.reads, hp.found, Option.bind_eq_bind,
    Option.bind_some]
  cases q.upToEnd? <;> rfl

/-- A branch of the form `A - B` is read as what lies between its two ends. -/
theorem ofReading_read_dashed (hstart : IsRuns start) (hstop : IsRuns stop)
    (hbefore : IsGap before) (hne : before ≠ []) (hbehind : IsGap behind) (hne' : behind ≠ []) :
    Shape.ofReading (Shape.read (dashed start before behind stop))
      = (Conjunction.between? start stop).elim .nothing .conjunction := by
  have hwords := words_dashed hstart.isSolid hstop.isSolid hbefore hne hbehind hne'
  have hnil : ¬ (dashed start before behind stop).isEmpty = true := by
    simpa using (isFramed_dashed hstart.isSolid hstop.isSolid).ne_nil
  -- The dash is a word, and no operand.
  have hwild : Shape.allWildcards (dashed start before behind stop) = false := by
    have hdash : Operand.ofChars? ['-'] = none := by decide
    simp [Shape.allWildcards, hwords, hdash]
  have hends := Conjunction.dashEnds?_eq_some_iff.2 ⟨hwords, hstart, hstop⟩
  have hbetween : Conjunction.ofChars? (dashed start before behind stop)
      = Conjunction.between? start stop := by rw [Conjunction.ofChars?, hends]
  rw [Shape.read, if_neg hnil, hwild, hbetween]
  cases Conjunction.between? start stop <;> rfl

/-- A text of the form `A - B`, blanks around it left out, is a range of one branch. -/
theorem parse_dashed {text : String} (hstart : IsRuns start) (hstop : IsRuns stop)
    (hbefore : IsGap before) (hne : before ≠ []) (hbehind : IsGap behind) (hne' : behind ≠ [])
    (htext : trim isBlank text.toList = dashed start before behind stop) :
    parse text = .ok (ofBranch text (dashed start before behind stop)
      ((Conjunction.between? start stop).elim .nothing .conjunction)) := by
  have hframed : IsFramed (dashed start before behind stop) :=
    isFramed_dashed hstart.isSolid hstop.isSolid
  have hgap : ¬ IsGap text.toList := by
    rw [← trim_eq_nil_iff, htext]
    exact hframed.ne_nil
  rw [parse_eq_ok_iff.2 ⟨hgap, rfl⟩, branchesOf, htext,
    alternatives_of_notMem (bar_notMem_dashed hstart hstop hbefore hbehind), List.map_singleton,
    hframed.trim_eq_self, List.map_singleton, branchOf,
    ofReading_read_dashed hstart hstop hbefore hne hbehind hne']
  rfl

/-! ## Between two ends -/

/-- A range reaches from the floor of an operand up to an upper side. The floor is its lowest
    version whether or not the upper side lets it in. -/
structure Reaches (r : Range) (p : Operand) (upper : Version → Prop) : Prop where
  admits_iff (v : Version) : r.admits v = true ↔ p.floor ≤ v ∧ upper v
  minimum? : r.minimum? = some p.floor
  admits_floor_iff : r.admits p.floor = true ↔ upper p.floor

theorem reaches_ofBranch {upper : Version → Prop} {c : Comparator}
    (hupper : ∀ v, c.admits v = true ↔ upper v) (text : String) (label : List Char) :
    (ofBranch text label (.conjunction
      (.ofComparators [⟨.greaterOrEqual, p.floor⟩, c] (some p.floor)))).Reaches p upper := by
  have hadmits : ∀ v, (ofBranch text label (.conjunction
      (.ofComparators [⟨.greaterOrEqual, p.floor⟩, c] (some p.floor)))).admits v = true
        ↔ p.floor ≤ v ∧ upper v := by
    intro v
    rw [admits_ofBranch, Shape.admits, Conjunction.admits_ofComparators, ← hupper]
    simp [Comparator.admits]
  refine ⟨hadmits, minimum?_ofBranch _ _ _, ?_⟩
  rw [hadmits, and_iff_right le_rfl]

namespace Operand

/-- Below the ceiling at the last place is what begins with at most the numbers of an operand. -/
theorem lt_ceiling_lastPlace_iff {top v : Version} (hlen : p.components.length ≤ 3)
    (hne : p.components ≠ []) (h : p.ceiling? p.lastPlace = some top) :
    v < top ↔ v.numbers.take p.numbers.length ≤ p.numbers := by
  have hpos := List.length_pos_iff.2 hne
  have hplace : p.lastPlace + 1 = p.numbers.length := by
    rw [lastPlace, numbers, List.length_map]
    omega
  rw [lt_ceiling_iff hlen (by rw [lastPlace]; omega) h, hplace, List.take_length]

/-- The ceiling at the last place does not fit exactly if the last number is too great. -/
theorem ceiling?_lastPlace_eq_none_iff :
    p.ceiling? p.lastPlace = none ↔ ∃ k ∈ p.numbers.getLast?, Numeral.wordSize ≤ k + 1 := by
  rw [ceiling?_eq_none_iff, getElem?_lastPlace, numbers, List.getLast?_map]
  simp

end Operand

theorem exists_last_runNumber (cs : List Char) : ∃ k, (runNumbers cs).getLast? = some k := by
  have hne : runNumbers cs ≠ [] := by simp [runNumbers, List.splitOn_ne_nil]
  exact ⟨_, List.getLast?_eq_some_getLast hne⟩

/-- **A branch `A - B` admits what lies from the floor of `A` up to `B`.** If `B` has three numbers,
    it is the highest version. If it has fewer, all is let in that begins with at most its numbers,
    unless the last of them, `k`, is too great for 64 bits to be counted up; nothing is admitted
    then. The version that is found in `A` is its floor, and it is the lowest version even where the
    upper side does not let it in. -/
theorem parse_dash {text : String} (hstart : IsRuns start) (hstop : IsRuns stop)
    (hbefore : IsGap before) (hne : before ≠ []) (hbehind : IsGap behind) (hne' : behind ≠ [])
    (htext : trim isBlank text.toList = dashed start before behind stop) :
    ∃ p q k r, Operand.ofChars? start = some p ∧ p.numbers = runNumbers start
      ∧ Operand.ofChars? stop = some q ∧ q.numbers = runNumbers stop
      ∧ (runNumbers stop).getLast? = some k
      ∧ Version.findInChars? start = some p.floor
      ∧ parse text = .ok r ∧ r.branches.length = 1
      ∧ ((runNumbers stop).length = 3 → r.Reaches p fun v => v ≤ q.floor)
      ∧ ((runNumbers stop).length < 3 →
        (k + 1 < Numeral.wordSize →
          r.Reaches p fun v => v.numbers.take (runNumbers stop).length ≤ runNumbers stop)
        ∧ (Numeral.wordSize ≤ k + 1 → (∀ v, r.admits v = false) ∧ r.minimum? = none)) := by
  obtain ⟨p, hp⟩ := Operand.exists_isOfRuns hstart
  obtain ⟨q, hq⟩ := Operand.exists_isOfRuns hstop
  obtain ⟨k, hk⟩ := exists_last_runNumber stop
  have hlength : (runNumbers stop).length = q.components.length := by
    rw [← hq.numbers, Operand.numbers, List.length_map]
  have hqne := Operand.ne_nil_of_numbers_eq hq.numbers
  refine ⟨p, q, k, _, hp.reads, hp.numbers, hq.reads, hq.numbers, hk, hp.found,
    parse_dashed hstart hstop hbefore hne hbehind hne' htext, rfl, fun hthree => ?_,
    fun hshort => ?_⟩
  · have hfull : q.isFull = true := beq_iff_eq.2 (hlength.symm.trans hthree)
    rw [between?_eq hp hq, Operand.upToEnd?, if_pos hfull]
    exact reaches_ofBranch (fun v => by simp [Comparator.admits]) _ _
  · have hfull : ¬ q.isFull = true := by
      rw [Operand.isFull, beq_iff_eq, ← hlength]
      omega
    have hany : ¬ q.isAny = true := by simpa [Operand.isAny] using hqne
    have hnone : q.ceiling? q.lastPlace = none ↔ Numeral.wordSize ≤ k + 1 := by
      rw [Operand.ceiling?_lastPlace_eq_none_iff, hq.numbers, hk]
      simp
    rw [between?_eq hp hq, Operand.upToEnd?, if_neg hfull, if_neg hany]
    refine ⟨fun hfits => ?_, fun hover => ?_⟩
    · obtain ⟨top, htop⟩ := Option.ne_none_iff_exists'.1 (hnone.not.2 (not_le.2 hfits))
      rw [htop]
      refine reaches_ofBranch (fun v => ?_) _ _
      rw [Comparator.admits, decide_eq_true_eq, ← hq.numbers,
        Operand.lt_ceiling_lastPlace_iff (Operand.length_components_le hq.reads) hqne htop]
    · rw [hnone.2 hover]
      exact ⟨fun v => admits_ofBranch _ _ _ _, minimum?_ofBranch _ _ _⟩

/-- A second end that the first begins with, one that lies below the first, and one that is too
    great for an upper bound. -/
theorem parse_dash_reversed :
    let low : Version := ⟨.ofNat 1, .ofNat 2, .zero, [], []⟩
    (∃ r, parse "01.2 -\t001" = .ok r ∧ r.minimum? = some low ∧ r.admits low = true)
    ∧ (∃ r, parse " 1.2 - 1.1.9" = .ok r ∧ r.minimum? = some low ∧ r.admits low = false)
    ∧ (∃ r, parse "1.2 - 1.18446744073709551615" = .ok r ∧ r.minimum? = none
      ∧ r.admits low = false) := by
  intro low
  have hstart : IsRuns "01.2".toList := by decide
  have hstart' : IsRuns "1.2".toList := by decide
  have hstop : IsRuns "001".toList := by decide
  have hstop' : IsRuns "1.1.9".toList := by decide
  have hstop'' : IsRuns "1.18446744073709551615".toList := by decide
  have hgap : IsGap [' '] := by decide
  refine ⟨?_, ?_, ?_⟩
  · obtain ⟨p, q, k, r, -, -, -, -, hk, hfound, hr, -, -, hshort⟩ := parse_dash hstart hstop hgap
      (List.cons_ne_nil _ _) (by decide : IsGap ['\t']) (List.cons_ne_nil _ _)
      (by decide : trim isBlank "01.2 -\t001".toList = _)
    have hlow : p.floor = low := Option.some.inj (hfound.symm.trans (by decide))
    have hone : k = 1 := Option.some.inj (hk.symm.trans (by decide))
    have hreach := (hshort (by decide)).1 (by rw [hone]; decide)
    rw [← hlow]
    exact ⟨r, hr, hreach.minimum?, hreach.admits_floor_iff.2 (by rw [hlow]; decide)⟩
  · obtain ⟨p, q, k, r, -, -, hq, -, -, hfound, hr, -, hfull, -⟩ := parse_dash hstart' hstop' hgap
      (List.cons_ne_nil _ _) hgap (List.cons_ne_nil _ _)
      (by decide : trim isBlank " 1.2 - 1.1.9".toList = _)
    have hlow : p.floor = low := Option.some.inj (hfound.symm.trans (by decide))
    have hq : q = ⟨[.ofNat 1, .ofNat 1, .ofNat 9], [], []⟩ :=
      Option.some.inj (hq.symm.trans (by decide))
    have hreach := hfull (by decide)
    rw [← hlow]
    refine ⟨r, hr, hreach.minimum?, ?_⟩
    rw [← Bool.not_eq_true, hreach.admits_floor_iff, hlow, hq]
    decide
  · obtain ⟨p, q, k, r, -, -, -, -, hk, -, hr, -, -, hshort⟩ := parse_dash hstart' hstop'' hgap
      (List.cons_ne_nil _ _) hgap (List.cons_ne_nil _ _)
      (by decide : trim isBlank "1.2 - 1.18446744073709551615".toList = _)
    have hgreat : k = 18446744073709551615 := Option.some.inj (hk.symm.trans (by decide))
    obtain ⟨hnothing, hnone⟩ := (hshort (by decide)).2 (by rw [hgreat]; decide)
    exact ⟨r, hr, hnone, hnothing low⟩

end Range

end Versioning
