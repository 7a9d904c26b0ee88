import Versioning.Proofs.FullOperand
import Versioning.Proofs.Single
import Versioning.Version.Lenient

set_option autoImplicit false

/-! # Operands alone and the version found in them

An operand that stands alone is read twice. Its bounds come from the operand reader, which cuts at
the marks and at the first wildcard; its lowest version comes from the lenient reader, which looks
for the first digit run of the text and reads on from there. The two readers have no code in common.
That they agree is a fact about texts: up to the first mark an operand is dotted pieces, a piece is
a digit run or a wildcard, and the lenient reader stops at whatever is no digit run behind a dot
(`Operand.findInChars?_eq`).

So the lowest version of an operand alone is the release of its lower bound (`parse_bare`). No
release that is admitted is lower, but a full operand with a pre-release does not admit it. -/

namespace Versioning

/-! ## Digit runs behind dots -/

namespace Text

/-- Pieces with a dot in front of each, and a text behind them. -/
def behindDots (pieces : List (List Char)) (tail : List Char) : List Char :=
  pieces.flatMap ('.' :: ·) ++ tail

theorem dotted_cons_append (piece : List Char) (pieces : List (List Char)) (tail : List Char) :
    dotted (piece :: pieces) ++ tail = piece ++ behindDots pieces tail := by
  induction pieces generalizing piece with
  | nil => simp [dotted, behindDots]
  | cons next pieces ih =>
      simp only [dotted, behindDots] at ih ⊢
      rw [List.intercalate_cons_cons, List.append_assoc, List.append_assoc, ih]
      simp

theorem head?_behindDots {p : Char → Bool} {pieces : List (List Char)} {tail : List Char}
    (hdot : p '.' = false) (h : ∀ c ∈ tail.head?, p c = false) :
    ∀ c ∈ (behindDots pieces tail).head?, p c = false := by
  cases pieces with
  | nil => exact h
  | cons piece pieces =>
      rintro c ⟨⟩
      exact hdot

end Text

namespace Version

theorem takeRun?_append {piece tail : List Char} {n : Numeral}
    (h : Numeral.ofDigits? piece = some n) (htail : ∀ c ∈ tail.head?, c.isDigit = false) :
    takeRun? (piece ++ tail) = some (n, tail) := by
  obtain ⟨-, hdigits⟩ := Numeral.of_ofDigits?_eq_some h
  obtain ⟨hrun, hdrop⟩ := Text.span_eq_iff.2 ⟨rfl, hdigits, htail⟩
  rw [takeRun?, hrun, hdrop, h]
  rfl

theorem takeRun?_eq_none {cs : List Char} (h : ∀ c ∈ cs.head?, c.isDigit = false) :
    takeRun? cs = none := by
  obtain ⟨hrun, -⟩ := Text.span_eq_iff.2 ⟨(List.nil_append cs).symm, by simp, h⟩
  rw [takeRun?, hrun]
  rfl

theorem takeDottedRun?_eq_none {cs : List Char} (h : '.' ∉ cs.head?) :
    takeDottedRun? cs = none := by
  unfold takeDottedRun?
  split
  · exact absurd rfl h
  · rfl

end Version

namespace Range.Operand

open Version

/-! ## Pieces and given components -/

/-- The components that some pieces give, up to the first wildcard. -/
def Give (pieces : List (List Char)) (ns : List Numeral) : Prop :=
  ∃ parts, pieces.mapM component? = some parts ∧ given parts = ns

variable {cs piece tail : List Char} {pieces : List (List Char)} {n : Numeral} {ns : List Numeral}
  {p : Operand}

/-- Pieces that give a component begin with a digit run, which is its numeral. -/
theorem give_cons_cons (h : Give (piece :: pieces) (n :: ns)) :
    Numeral.ofDigits? piece = some n ∧ Give pieces ns := by
  obtain ⟨parts, hparts, hgiven⟩ := h
  simp only [List.mapM_cons, Option.pure_def, Option.bind_eq_bind, Option.bind_eq_some_iff,
    Option.some.injEq] at hparts
  obtain ⟨part, hpart, parts, hparts, rfl⟩ := hparts
  cases part with
  | none => cases hgiven
  | some m =>
      cases hgiven
      unfold component? at hpart
      split at hpart
      · cases hpart
      · obtain ⟨k, hk, hkm⟩ := Option.map_eq_some_iff.1 hpart
        cases hkm
        exact ⟨hk, parts, hparts, rfl⟩

/-- Pieces that give no component begin with a wildcard, and so with no digit. -/
theorem give_cons_nil (tail : List Char) (h : Give (piece :: pieces) []) :
    ∀ c ∈ (piece ++ tail).head?, c.isDigit = false := by
  obtain ⟨parts, hparts, hgiven⟩ := h
  simp only [List.mapM_cons, Option.pure_def, Option.bind_eq_bind, Option.bind_eq_some_iff,
    Option.some.injEq] at hparts
  obtain ⟨part, hpart, parts, -, rfl⟩ := hparts
  unfold component? at hpart
  split at hpart
  · next hwild =>
      simp only [isWildcard, Bool.or_eq_true, beq_iff_eq] at hwild
      rcases hwild with (rfl | rfl) | rfl <;> (rintro c ⟨⟩; rfl)
  · obtain ⟨m, -, rfl⟩ := Option.map_eq_some_iff.1 hpart
    cases hgiven

/-- Behind a dot the next given component is found. -/
theorem takeDottedRun?_of_give (h : Give pieces (n :: ns))
    (htail : ∀ c ∈ tail.head?, c.isDigit = false) :
    ∃ rest, takeDottedRun? (Text.behindDots pieces tail) = some (n, Text.behindDots rest tail)
      ∧ Give rest ns := by
  cases pieces with
  | nil =>
      obtain ⟨parts, hparts, hgiven⟩ := h
      cases hparts
      cases hgiven
  | cons piece pieces =>
      obtain ⟨hpiece, hrest⟩ := give_cons_cons h
      refine ⟨pieces, ?_, hrest⟩
      have hbehind : ∀ c ∈ (Text.behindDots pieces tail).head?, c.isDigit = false :=
        Text.head?_behindDots rfl htail
      rw [← takeRun?_append hpiece hbehind]
      simp [Text.behindDots, takeDottedRun?]

/-- Where no component is given any more, none is found. -/
theorem takeDottedRun?_of_give_nil (h : Give pieces []) (hdot : '.' ∉ tail.head?) :
    takeDottedRun? (Text.behindDots pieces tail) = none := by
  cases pieces with
  | nil => exact takeDottedRun?_eq_none hdot
  | cons piece pieces =>
      rw [← takeRun?_eq_none (give_cons_nil (Text.behindDots pieces tail) h)]
      simp [Text.behindDots, takeDottedRun?]

/-! ## The two readers agree -/

/-- An operand is dotted pieces that give its components, behind a mark that may be absent, and what
    the first hyphen or plus begins. -/
theorem exists_pieces (h : ofChars? cs = some p) :
    ∃ piece pieces tail, unmarked cs = piece ++ Text.behindDots pieces tail
      ∧ (∀ c ∈ tail.head?, c = '-' ∨ c = '+') ∧ Give (piece :: pieces) p.components := by
  obtain ⟨parts, hparts, -, -, -, hgiven⟩ := ofChars?_eq_some_iff.1 h
  rw [frontOf, ← corePieces_eq_splitOn_cut] at hparts
  let inCore : Char → Bool := fun c => c != '-' && c != '+'
  obtain ⟨piece, pieces, hcons⟩ := List.exists_cons_of_ne_nil
    (List.splitOn_ne_nil '.' ((unmarked cs).takeWhile inCore))
  have hcore : Text.dotted (piece :: pieces) = (unmarked cs).takeWhile inCore := by
    rw [← hcons]
    exact List.intercalate_splitOn '.'
  refine ⟨piece, pieces, (unmarked cs).dropWhile inCore, ?_, fun c hc => ?_, parts, ?_, hgiven⟩
  · rw [← Text.dotted_cons_append, hcore, List.takeWhile_append_dropWhile]
  · have hmark := Text.head?_dropWhile c hc
    simpa [inCore, Decidable.imp_iff_not_or] using hmark
  · rwa [← hcons]

theorem eq_unmarked_or (cs : List Char) : cs = unmarked cs ∨ cs = 'v' :: unmarked cs := by
  unfold unmarked
  split
  · exact Or.inr rfl
  · exact Or.inl rfl

/-- **The version that is found in an operand is the release of its floor**, wherever wildcards and
    other digits may stand behind the first component. -/
theorem findInChars?_eq (h : ofChars? cs = some p) (hne : p.components ≠ []) :
    findInChars? cs = some p.floor.release := by
  obtain ⟨piece, pieces, tail, hcs, hmark, hgive⟩ := exists_pieces h
  obtain ⟨major, ns, hns⟩ := List.exists_cons_of_ne_nil hne
  rw [hns] at hgive
  obtain ⟨hpiece, hgive⟩ := give_cons_cons hgive
  have htail : ∀ c ∈ tail.head?, c.isDigit = false := by
    intro c hc
    rcases hmark c hc with rfl | rfl <;> rfl
  have hdot : '.' ∉ tail.head? := by
    intro hc
    rcases hmark '.' hc with h | h <;> exact absurd h (by decide)
  -- The mark is no digit, and behind it the text begins with the digits of the first component.
  have hdrop : cs.dropWhile (!·.isDigit) = piece ++ Text.behindDots pieces tail := by
    obtain ⟨hpne, hdigits⟩ := Numeral.of_ofDigits?_eq_some hpiece
    obtain ⟨d, ds, rfl⟩ := List.exists_cons_of_ne_nil hpne
    have hd : d.isDigit = true := hdigits d List.mem_cons_self
    rcases eq_unmarked_or cs with heq | heq <;> (rw [hcs] at heq; simp [heq, hd])
  have hbehind : ∀ c ∈ (Text.behindDots pieces tail).head?, c.isDigit = false :=
    Text.head?_behindDots rfl htail
  have hfloor : p.floor.release = fill (major :: ns) [] [] := by
    rw [← hns]
    rfl
  rw [findInChars?, hdrop, takeRun?_append hpiece hbehind, hfloor]
  cases ns with
  | nil =>
      simp only [takeDottedRun?_of_give_nil hgive hdot]
      rfl
  | cons minor ns =>
      obtain ⟨rest, hminor, hgive⟩ := takeDottedRun?_of_give hgive htail
      simp only [hminor]
      cases ns with
      | nil =>
          simp only [takeDottedRun?_of_give_nil hgive hdot]
          rfl
      | cons patch ns =>
          obtain ⟨rest, hpatch, -⟩ := takeDottedRun?_of_give hgive htail
          simp only [hpatch]
          rfl

end Range.Operand

namespace Range

open Text

/-! ## The range of an operand alone -/

variable {text : String} {p : Operand} {cs : List Comparator}

/-- An operand alone is read as the conjunction that it asks for, and its lowest version is the one
    that is found in it. -/
theorem parse_alone (h : Operand.ofChars? text.toList = some p) (hne : p.components ≠ [])
    (hspan : p.span? = some cs) :
    parse text = .ok (ofBranch text text.toList
      (.conjunction (.ofComparators cs (some p.floor.release)))) := by
  let e : Entry := ⟨[], text.toList, p, by decide, h⟩
  have hwritten : Written [e] text.toList := written_chars e
  have hframed := isFramed_of_written hwritten
  have hcomparators : e.item.comparators? = some cs := hspan
  have hb : ∀ d ∈ [e], d.Bounded := by
    intro d hd
    rw [List.mem_singleton] at hd
    rw [hd, Entry.bounded_iff]
    intro hover
    rw [Item.comparators?_eq_none_iff.2 (Or.inr hover)] at hcomparators
    cases hcomparators
  have hsign : ¬ ∃ d ∈ [e], d.sign ≠ [] := by simp [e]
  have hany : p.isAny = false := by simpa [Operand.isAny] using hne
  have hwild : Shape.allWildcards text.toList = false := by
    rw [allWildcards_of_written hwritten]
    simp [e, Entry.item, Item.isWildcard, hany]
  have hitems := Conjunction.ofItems?_of_no_sign hwritten hb hsign (Operand.findInChars?_eq h hne)
  have hflat : [e].flatMap Entry.comparators = cs := by
    rw [List.flatMap_singleton, Entry.comparators, hcomparators, Option.getD_some]
  have hread : Shape.read text.toList
      = .ok (.conjunction (.ofComparators cs (some p.floor.release))) := by
    have hnil : ¬ text.toList.isEmpty = true := by simpa using hframed.ne_nil
    rw [Shape.read, if_neg hnil, hwild, Conjunction.ofChars?,
      Conjunction.dashEnds?_eq_none (dash_notMem_words hwritten), hitems, hflat]
    rfl
  rw [parse_eq_ok_iff.2 ⟨hframed.not_isGap, rfl⟩,
    branchesOf_of_isFramed hframed (bar_notMem_of_written hwritten), branchOf, hread]
  rfl

namespace Operand

theorem span?_of_isFull (h : p.components.length = 3) : p.span? = some [⟨.equal, p.floor⟩] :=
  if_pos (beq_iff_eq.2 h)

theorem span?_of_not_isFull (hne : p.components ≠ []) (h : p.components.length ≠ 3) :
    p.span? = p.upTo? p.lastPlace := by
  have hfull : ¬ p.isFull = true := by simpa [isFull] using h
  have hany : ¬ p.isAny = true := by simpa [isAny] using hne
  rw [span?, if_neg hfull, if_neg hany]

theorem upTo?_eq_some {i : ℕ} (hne : p.components ≠ []) (h : p.upTo? i = some cs) :
    ∃ top, cs = [⟨.greaterOrEqual, p.floor⟩, ⟨.less, top⟩] := by
  have hany : ¬ p.isAny = true := by simpa [isAny] using hne
  rw [upTo?, if_neg hany, Option.map_eq_some_iff] at h
  obtain ⟨top, -, rfl⟩ := h
  exact ⟨top, rfl⟩

/-- An operand whose upper bound fits asks for one lower bound, which is its floor. -/
theorem exists_span? (hlen : p.components.length ≤ 3) (hne : p.components ≠ [])
    (hfits : p.components.length = 3 ∨ p.FitsAt p.lastPlace) :
    ∃ cs, p.span? = some cs
      ∧ ((Conjunction.ofComparators cs none).lower.map Comparator.bound = [p.floor])
      ∧ (∀ v, cs.all (·.admits v) = true → p.floor ≤ v)
      ∧ (cs.all (·.admits p.floor.release) = true ↔
        ¬ (p.components.length = 3 ∧ p.floor.isPreRelease = true)) := by
  by_cases hfull : p.components.length = 3
  · refine ⟨_, span?_of_isFull hfull, rfl, fun v hv => ?_, ?_⟩
    · simp only [List.all_cons, List.all_nil, Comparator.admits, Bool.and_true,
        decide_eq_true_eq] at hv
      exact (Version.equivalent_iff_le_and_le.1 hv).2
    · rw [and_iff_right hfull, Bool.not_eq_true, ← Version.release_equivalent_iff]
      simp [Comparator.admits]
  · have hfits := hfits.resolve_left hfull
    obtain ⟨cs, hcs, hall, -⟩ := upTo?_of_fitsAt hlen hfits
    refine ⟨cs, (span?_of_not_isFull hne hfull).trans hcs, ?_, fun v hv => ((hall v).1 hv).1, ?_⟩
    · obtain ⟨top, rfl⟩ := upTo?_eq_some hne hcs
      rfl
    · have hplace : p.lastPlace + 1 ≤ p.components.length := by
        have hpos := List.length_pos_iff.2 hne
        rw [lastPlace]
        omega
      rw [hall]
      refine iff_of_true ⟨Version.le_release p.floor, agrees_floor hlen hplace⟩ ?_
      rintro ⟨hfull', -⟩
      exact hfull hfull'

end Operand

/-- **The lowest version of an operand alone is the release of its lower bound.** -/
theorem parse_bare (h : Operand.ofChars? text.toList = some p) (hne : p.components ≠ []) :
    Version.findIn? text = some p.floor.release
    ∧ (p.components.length = 3 ∨ p.FitsAt p.lastPlace →
      ∃ c label r, parse text = .ok r ∧ r.branches = [⟨.conjunction c, label⟩]
        ∧ c.lower.map Comparator.bound = [p.floor]
        ∧ r.minimum? = some p.floor.release
        ∧ (∀ v, r.admits v = true → v.isPreRelease = false → p.floor.release ≤ v)
        ∧ (r.admits p.floor.release = true ↔
          ¬ (p.components.length = 3 ∧ p.floor.isPreRelease = true))) := by
  refine ⟨Operand.findInChars?_eq h hne, fun hfits => ?_⟩
  obtain ⟨cs, hspan, hlower, habove, hrelease⟩ :=
    Operand.exists_span? (Operand.length_components_le h) hne hfits
  let c := Conjunction.ofComparators cs (some p.floor.release)
  have hadmits : ∀ v, (ofBranch text text.toList (.conjunction c)).admits v
      = cs.all (·.admits v) := by
    intro v
    rw [admits_ofBranch, Shape.admits, Conjunction.admits_ofComparators]
  refine ⟨c, _, _, parse_alone h hne hspan, rfl, hlower, ?_, fun v hv hpre => ?_, ?_⟩
  · rw [minimum?_ofBranch]
    rfl
  · rw [hadmits] at hv
    exact Version.release_le_of_le (habove v hv) hpre
  · rw [hadmits, hrelease]

/-- An operand with digits behind a wildcard, in the pre-release and in the build, and a full one
    with superfluous zeros and a pre-release. -/
theorem parse_bare_stray :
    let b : Identifier := .alphanumeric ⟨['b'], by decide⟩ (by decide)
    let p : Operand := ⟨[.ofNat 1], [b, .numeric (.ofNat 2)], [⟨['5'], by decide⟩]⟩
    let q : Operand := ⟨[.ofNat 1, .ofNat 2, .ofNat 3], [.numeric (.ofNat 4)], []⟩
    let one : Version := ⟨.ofNat 1, .zero, .zero, [], []⟩
    let full : Version := ⟨.ofNat 1, .ofNat 2, .ofNat 3, [], []⟩
    (Operand.ofChars? "v1.x.3-b.2+5".toList = some p ∧ p.components ≠ [] ∧ p.FitsAt p.lastPlace
      ∧ Version.findIn? "v1.x.3-b.2+5" = some one
      ∧ ∃ r, parse "v1.x.3-b.2+5" = .ok r ∧ r.minimum? = some one ∧ r.admits one = true)
    ∧ (Operand.ofChars? "01.2.003-4".toList = some q ∧ q.components.length = 3
      ∧ ∃ r, parse "01.2.003-4" = .ok r ∧ r.minimum? = some full ∧ r.admits full = false) := by
  intro b p q one full
  have hp : Operand.ofChars? "v1.x.3-b.2+5".toList = some p := by decide
  have hq : Operand.ofChars? "01.2.003-4".toList = some q := by decide
  have hfits : p.FitsAt p.lastPlace := by decide
  obtain ⟨hfound, hrange⟩ := parse_bare hp (by decide)
  obtain ⟨-, hrange'⟩ := parse_bare hq (by decide)
  obtain ⟨-, -, r, hr, -, -, hmin, -, hone⟩ := hrange (Or.inr hfits)
  obtain ⟨-, -, s, hs, -, -, hmin', -, hfull⟩ := hrange' (Or.inl rfl)
  refine ⟨⟨hp, by decide, hfits, hfound, r, hr, hmin, hone.2 (by decide)⟩,
    hq, rfl, s, hs, hmin', ?_⟩
  rw [← Bool.not_eq_true]
  exact fun hadmits => hfull.1 hadmits (by decide)

end Range

end Versioning
