import Versioning.Proofs.Between
import Versioning.Proofs.Counting
import Versioning.Proofs.Pattern
import Versioning.Proofs.Refusal
import Versioning.Proofs.Tagged

set_option autoImplicit false

/-! # The version found in a text

The version that is found in a text is that of its first digit run, of the digit run behind a dot
directly behind the first one, and of a third one behind the second in the same way. Where a run is
missing, the number is zero. `FirstRuns` says which runs these are, without searching for them.

Two procedures come to the same result on every text. The lenient reader takes the runs one by one.
A search for a pattern, with groups for the three runs and the last two of them optional, might
leave out the second run and still have the third, or take less than a whole run, but its first way
does neither (`Version.search_versionLike`).

What stands behind the runs is ignored, so the version that is found in the text of a version is its
release, whatever stands in front, as long as there is no digit in it. This holds for the marks of a
tagged version. -/

namespace Versioning

open Text

/-! ## The runs of a text -/

/-- A maximal run of digits at the front of a text, and the text behind. -/
structure IsDigitRun (run rest cs : List Char) : Prop where
  eq_append : cs = run ++ rest
  ne_nil : run ≠ []
  digits : ∀ c ∈ run, c.isDigit = true
  maximal : ∀ c ∈ rest.head?, c.isDigit = false

/-- The digit run behind a dot at the front of a text, if there is one, and the text behind. -/
inductive NextRun : Option (List Char) → List Char → List Char → Prop
  | found {run rest cs : List Char} (h : IsDigitRun run rest cs) :
      NextRun (some run) rest ('.' :: cs)
  | missing {cs : List Char} (h : ∀ back, cs = '.' :: back → ∀ c ∈ back.head?, c.isDigit = false) :
      NextRun none cs cs

/-- The first digit run of a text, and two more that follow, each behind a dot. -/
def FirstRuns (cs major : List Char) (minor patch : Option (List Char)) : Prop :=
  ∃ before start rest rest' rest'', cs = before ++ start ∧ (∀ c ∈ before, c.isDigit = false)
    ∧ IsDigitRun major rest start ∧ NextRun minor rest' rest ∧ NextRun patch rest'' rest'

/-- The number that a digit run writes; zero for a run that is missing. -/
def runNumber (run : Option (List Char)) : ℕ := run.elim 0 (Nat.ofDigitChars 10 · 0)

variable {cs run rest before major : List Char} {minor patch next : Option (List Char)}

theorem isDigitRun_of_head (h : ∃ c ∈ cs.head?, c.isDigit = true) :
    IsDigitRun (cs.takeWhile Char.isDigit) (cs.dropWhile Char.isDigit) cs := by
  obtain ⟨happend, hdigits, hmaximal⟩ :=
    span_eq_iff.1 ⟨rfl, (rfl : cs.dropWhile Char.isDigit = _)⟩
  refine ⟨happend, ?_, hdigits, hmaximal⟩
  intro hnil
  obtain ⟨c, hc, hdigit⟩ := h
  rw [hnil, List.nil_append] at happend
  rw [happend] at hc
  rw [hmaximal c hc] at hdigit
  cases hdigit

theorem exists_nextRun (cs : List Char) : ∃ next rest, NextRun next rest cs := by
  by_cases h : ∀ back, cs = '.' :: back → ∀ c ∈ back.head?, c.isDigit = false
  · exact ⟨none, cs, .missing h⟩
  · simp only [not_forall, Bool.not_eq_false] at h
    obtain ⟨back, rfl, c, hc, hdigit⟩ := h
    exact ⟨_, _, .found (isDigitRun_of_head ⟨c, hc, hdigit⟩)⟩

/-- A text with a digit run at its front starts with a digit. -/
theorem IsDigitRun.exists_eq_cons (h : IsDigitRun run rest cs) :
    ∃ c back, cs = c :: back ∧ c.isDigit = true := by
  obtain ⟨c, ds, rfl⟩ := List.exists_cons_of_ne_nil h.ne_nil
  exact ⟨c, ds ++ rest, h.eq_append, h.digits c List.mem_cons_self⟩

/-- A text with a digit has first runs. -/
theorem exists_firstRuns (h : ∃ c ∈ cs, c.isDigit = true) :
    ∃ major minor patch, FirstRuns cs major minor patch := by
  obtain ⟨c, back, hdrop, hdigit⟩ := Version.exists_dropWhile_eq h
  have hbefore : ∀ d ∈ cs.takeWhile (!·.isDigit), d.isDigit = false := by
    intro d hd
    simpa using List.all_eq_true.1 List.all_takeWhile d hd
  have hrun : IsDigitRun _ _ (c :: back) := isDigitRun_of_head ⟨c, rfl, hdigit⟩
  obtain ⟨minor, rest', hminor⟩ := exists_nextRun ((c :: back).dropWhile Char.isDigit)
  obtain ⟨patch, rest'', hpatch⟩ := exists_nextRun rest'
  refine ⟨_, minor, patch, cs.takeWhile (!·.isDigit), c :: back, _, rest', rest'', ?_, hbefore,
    hrun, hminor, hpatch⟩
  rw [← hdrop, List.takeWhile_append_dropWhile]

/-! ## The lenient reader -/

namespace IsDigitRun

theorem ofDigits?_eq (h : IsDigitRun run rest cs) :
    Numeral.ofDigits? run = some (.ofNat (runNumber (some run))) := by
  have hsome := Numeral.isSome_ofDigits?_iff.2 ⟨h.ne_nil, h.digits⟩
  obtain ⟨n, hn⟩ := Option.isSome_iff_exists.1 hsome
  have hvalue := Numeral.map_value_ofDigits? hsome
  rw [hn, Option.map_some, Option.some.injEq] at hvalue
  rw [hn, ← Numeral.value_inj.1 ((Numeral.value_ofNat _).trans hvalue.symm)]
  rfl

theorem takeRun?_eq (h : IsDigitRun run rest cs) :
    Version.takeRun? cs = some (.ofNat (runNumber (some run)), rest) := by
  rw [h.eq_append]
  exact Version.takeRun?_append h.ofDigits?_eq h.maximal

end IsDigitRun

theorem NextRun.takeDottedRun?_eq (h : NextRun next rest cs) :
    Version.takeDottedRun? cs = next.map fun run => (.ofNat (runNumber (some run)), rest) := by
  cases h with
  | found h => exact h.takeRun?_eq
  | missing h =>
      unfold Version.takeDottedRun?
      split
      · next back => exact Version.takeRun?_eq_none (h back rfl)
      · rfl

/-- Behind a run that is missing there is none either. -/
theorem NextRun.eq_none (h : NextRun none rest cs) (h' : NextRun next run rest) : next = none := by
  cases h with
  | missing h =>
      cases h' with
      | missing _ => rfl
      | found h' =>
          obtain ⟨c, back, rfl, hdigit⟩ := h'.exists_eq_cons
          rw [h (c :: back) rfl c rfl] at hdigit
          cases hdigit

namespace Version

/-- The version of three digit runs. -/
def ofRuns (major : List Char) (minor patch : Option (List Char)) : Version :=
  ⟨.ofNat (runNumber (some major)), .ofNat (runNumber minor), .ofNat (runNumber patch), [], []⟩

/-- **The version that is found is that of the first runs.** -/
theorem findInChars?_of_firstRuns (h : FirstRuns cs major minor patch) :
    findInChars? cs = some (ofRuns major minor patch) := by
  obtain ⟨before, start, rest, rest', rest'', rfl, hbefore, hmajor, hminor, hpatch⟩ := h
  have hdrop : (before ++ start).dropWhile (!·.isDigit) = start := by
    obtain ⟨c, back, rfl, hdigit⟩ := hmajor.exists_eq_cons
    rw [List.dropWhile_append_of_pos fun d hd => by simp [hbefore d hd]]
    simp [hdigit]
  simp only [findInChars?, hdrop, hmajor.takeRun?_eq, hminor.takeDottedRun?_eq]
  cases minor with
  | none =>
      rw [hminor.eq_none hpatch]
      rfl
  | some run =>
      simp only [Option.map_some, hpatch.takeDottedRun?_eq]
      cases patch <;> rfl

/-! ## The search for a pattern -/

/-- A digit run, kept in a group. -/
def runPattern : Pattern := .group (.many Char.isDigit)

/-- A dot with a digit run behind, or nothing. -/
def nextPattern : Pattern := .optional (.seq (.one (· == '.')) runPattern)

/-- The pattern `([0-9]+)(?:\.([0-9]+))?(?:\.([0-9]+))?`. -/
def versionLike : Pattern := .seq runPattern (.seq nextPattern nextPattern)

theorem first_runPattern (h : IsDigitRun run rest cs) :
    runPattern.first cs = some ⟨run, [some run], rest⟩ := by
  obtain ⟨hrun, hrest⟩ := span_eq_iff.2 ⟨h.eq_append, h.digits, h.maximal⟩
  rw [runPattern, Pattern.first_group, Pattern.first_many (by rw [hrun]; exact h.ne_nil), hrun,
    hrest]
  rfl

theorem first_runPattern_eq_none (h : ∀ c ∈ cs.head?, c.isDigit = false) :
    runPattern.first cs = none := by
  obtain ⟨hrun, -⟩ := span_eq_iff.2 ⟨(List.nil_append cs).symm, by simp, h⟩
  rw [runPattern, Pattern.first_group, Pattern.first_many_eq_none hrun]
  rfl

theorem first_nextPattern (h : NextRun next rest cs) :
    ∃ taken, nextPattern.first cs = some ⟨taken, [next], rest⟩ := by
  cases h with
  | found h =>
      have hdot := Pattern.first_one (p := (· == '.')) (c := '.') rfl
      exact ⟨_, Pattern.first_optional (Pattern.first_seq (hdot _) (first_runPattern h))⟩
  | missing h =>
      refine ⟨[], Pattern.first_optional_eq (Pattern.first_one_seq_eq_none ?_)⟩
      intro c back hcs hc
      rw [eq_of_beq hc] at hcs
      exact first_runPattern_eq_none (h back hcs)

/-- There is no match where there is no digit. -/
theorem first_versionLike_eq_none {c : Char} (h : c.isDigit = false) (back : List Char) :
    versionLike.first (c :: back) = none := by
  refine Pattern.first_seq_eq_none (first_runPattern_eq_none ?_)
  intro d hd
  cases hd
  exact h

/-- **The groups of the first match are the first runs.** -/
theorem search_versionLike (h : FirstRuns cs major minor patch) :
    (versionLike.search cs).map Match.groups = some [some major, minor, patch] := by
  obtain ⟨before, start, rest, rest', rest'', rfl, hbefore, hmajor, hminor, hpatch⟩ := h
  obtain ⟨_, hminor⟩ := first_nextPattern hminor
  obtain ⟨_, hpatch⟩ := first_nextPattern hpatch
  have hnone : ∀ c ∈ before, ∀ back, versionLike.first (c :: back) = none :=
    fun c hc => first_versionLike_eq_none (hbefore c hc)
  have hfirst := Pattern.first_seq (first_runPattern hmajor) (Pattern.first_seq hminor hpatch)
  rw [Pattern.search_append hnone, versionLike, Pattern.search_of_first hfirst]
  rfl

theorem search_versionLike_eq_none (h : ∀ c ∈ cs, c.isDigit = false) :
    versionLike.search cs = none := by
  have hnone : ∀ c ∈ cs, ∀ back, versionLike.first (c :: back) = none :=
    fun c hc => first_versionLike_eq_none (h c hc)
  rw [← List.append_nil cs, Pattern.search_append hnone]
  rfl

/-- The numeral of a group: that of its digits, and zero for a group that was left out. -/
def groupNumeral (group : Option (List Char)) : Numeral :=
  (group.bind Numeral.ofDigits?).getD .zero

/-- The version of the groups of a match. -/
def ofGroups (groups : List (Option (List Char))) : Version :=
  ⟨groupNumeral (groups[0]?.getD none), groupNumeral (groups[1]?.getD none),
    groupNumeral (groups[2]?.getD none), [], []⟩

theorem groupNumeral_of_nextRun (h : NextRun next rest cs) :
    groupNumeral next = .ofNat (runNumber next) := by
  cases h with
  | found h => rw [groupNumeral, Option.bind_some, h.ofDigits?_eq, Option.getD_some]
  | missing _ => rfl

theorem ofGroups_of_firstRuns (h : FirstRuns cs major minor patch) :
    ofGroups [some major, minor, patch] = ofRuns major minor patch := by
  obtain ⟨_, _, _, _, _, -, -, hmajor, hminor, hpatch⟩ := h
  have hfirst := groupNumeral_of_nextRun (.found hmajor)
  have hsecond := groupNumeral_of_nextRun hminor
  have hthird := groupNumeral_of_nextRun hpatch
  rw [ofRuns, ← hfirst, ← hsecond, ← hthird]
  rfl

/-- **Taking the runs one by one finds what the search finds.** -/
theorem findInChars?_eq_search (cs : List Char) :
    findInChars? cs = ((versionLike.search cs).map Match.groups).map ofGroups := by
  by_cases h : ∃ c ∈ cs, c.isDigit = true
  · obtain ⟨major, minor, patch, hruns⟩ := exists_firstRuns h
    rw [findInChars?_of_firstRuns hruns, search_versionLike hruns, Option.map_some,
      ofGroups_of_firstRuns hruns]
  · simp only [not_exists, not_and, Bool.not_eq_true] at h
    rw [findInChars?_eq_none_iff.2 h, search_versionLike_eq_none h]
    rfl

/-! ## The text of a version -/

theorem isDigitRun_digits (n : Numeral) (h : ∀ c ∈ rest.head?, c.isDigit = false) :
    IsDigitRun n.digits rest (n.digits ++ rest) :=
  ⟨rfl, n.canonical.1, n.canonical.2.1, h⟩

/-- Behind its three numerals, the text of a version does not go on with a digit. -/
theorem exists_chars_append (v : Version) {tail : List Char}
    (htail : ∀ c ∈ tail.head?, c.isDigit = false) : ∃ behind, v.chars ++ tail
      = v.major.digits ++ '.' :: (v.minor.digits ++ '.' :: (v.patch.digits ++ behind))
        ∧ ∀ c ∈ behind.head?, c.isDigit = false := by
  refine ⟨marked '-' (v.preRelease.map Identifier.chars)
    ++ (marked '+' (v.build.map Word.chars) ++ tail), ?_, ?_⟩
  · rw [chars_eq]
    simp
  · intro c hc
    rcases Reader.head?_marked_append hc with rfl | hc
    · rfl
    · rcases Reader.head?_marked_append hc with rfl | hc
      · rfl
      · exact htail c hc

/-- The numerals of a version are the first runs of a text in which no digit stands in front of it,
    and none directly behind. -/
theorem firstRuns_chars (v : Version) {tail : List Char}
    (hbefore : ∀ c ∈ before, c.isDigit = false) (htail : ∀ c ∈ tail.head?, c.isDigit = false) :
    FirstRuns (before ++ (v.chars ++ tail)) v.major.digits (some v.minor.digits)
      (some v.patch.digits) := by
  have hdot : ∀ back : List Char, ∀ c ∈ ('.' :: back).head?, c.isDigit = false := by
    intro back c hc
    cases hc
    rfl
  obtain ⟨behind, hchars, hbehind⟩ := exists_chars_append v htail
  rw [hchars]
  exact ⟨before, _, _, _, behind, rfl, hbefore, isDigitRun_digits v.major (hdot _),
    .found (isDigitRun_digits v.minor (hdot _)), .found (isDigitRun_digits v.patch hbehind)⟩

theorem ofRuns_digits (v : Version) :
    ofRuns v.major.digits (some v.minor.digits) (some v.patch.digits) = v.release := by
  have hback : ∀ n : Numeral, .ofNat (runNumber (some n.digits)) = n := by
    intro n
    rw [← Numeral.value_inj, Numeral.value_ofNat]
    rfl
  rw [ofRuns, hback, hback, hback]
  rfl

/-- **The version that is found in the text of a version is its release.** -/
theorem findInChars?_chars (v : Version) {tail : List Char}
    (hbefore : ∀ c ∈ before, c.isDigit = false) (htail : ∀ c ∈ tail.head?, c.isDigit = false) :
    findInChars? (before ++ (v.chars ++ tail)) = some v.release := by
  rw [findInChars?_of_firstRuns (firstRuns_chars v hbefore htail), ofRuns_digits]

theorem findIn?_toString (v : Version) : findIn? (toString v) = some v.release := by
  have hfound : findInChars? ([] ++ (v.chars ++ [])) = some v.release :=
    findInChars?_chars v (by simp) (by simp)
  rwa [List.nil_append, List.append_nil, ← toList_toString] at hfound

theorem isDigit_of_isAsciiBlank {c : Char} (h : isAsciiBlank c = true) : c.isDigit = false := by
  rw [Bool.eq_false_iff]
  intro hdigit
  rw [isAsciiBlank_of_isDigit hdigit] at h
  cases h

/-- Neither marks nor blanks have digits, so the version of a tag is found behind them. -/
theorem findIn?_of_isTagged {text : String} {v : Version} (h : IsTagged text (toString v)) :
    findIn? text = some v.release := by
  obtain ⟨marks, hmarks, hcore⟩ := exists_marks_of_isTagged h
  obtain ⟨lead, tail, hlead, htail, hends⟩ := exists_ends isAsciiBlank text.toList
  rw [hcore, List.append_assoc, ← List.append_assoc] at hends
  rw [findIn?, hends]
  refine findInChars?_chars v (fun c hc => ?_) fun c hc => ?_
  · rcases List.mem_append.1 hc with hc | hc
    · exact isDigit_of_isAsciiBlank (hlead c hc)
    · rcases isTagMark_iff.1 (hmarks c hc) with rfl | rfl <;> rfl
  · exact isDigit_of_isAsciiBlank (htail c (List.mem_of_head? hc))

/-! ## The version found -/

theorem findIn?_eq_some_iff {text : String} {v : Version} : findIn? text = some v
    ↔ ∃ major minor patch, FirstRuns text.toList major minor patch
      ∧ v = ofRuns major minor patch := by
  constructor
  · intro h
    have hdigit : ∃ c ∈ text.toList, c.isDigit = true := by
      by_contra hnot
      simp only [not_exists, not_and, Bool.not_eq_true] at hnot
      rw [findIn?, findInChars?_eq_none_iff.2 hnot] at h
      cases h
    obtain ⟨major, minor, patch, hruns⟩ := exists_firstRuns hdigit
    rw [findIn?, findInChars?_of_firstRuns hruns] at h
    exact ⟨major, minor, patch, hruns, (Option.some.inj h).symm⟩
  · rintro ⟨major, minor, patch, hruns, rfl⟩
    exact findInChars?_of_firstRuns hruns

theorem fields_ofRuns (major : List Char) (minor patch : Option (List Char)) :
    (ofRuns major minor patch).fields = ⟨toString (runNumber (some major)),
      toString (runNumber minor), toString (runNumber patch), none, none⟩ := by
  rw [fields, ofRuns]
  simp only [toString_ofNat]
  rfl

/-- What is found has neither a pre-release nor a build. -/
theorem release_eq_self_of_findIn? {text : String} {v : Version} (h : findIn? text = some v) :
    v.release = v := by
  obtain ⟨major, minor, patch, -, rfl⟩ := findIn?_eq_some_iff.1 h
  rfl

/-- **The version found in a text is that of its first digit runs.** There is none only in a text
    without a digit. Otherwise its numbers are those of the runs, in canonical decimal, and it is
    what a search for the pattern finds. It is found again in its own text, and in a tagged version
    the release of the version is found. -/
theorem findIn?_eq_firstRuns (text : String) :
    (findIn? text = none ↔ ∀ c ∈ text.toList, c.isDigit = false)
    ∧ (∀ t : Fields, (∃ v : Version, findIn? text = some v ∧ v.fields = t) ↔
      ∃ major minor patch, FirstRuns text.toList major minor patch
        ∧ t = ⟨toString (runNumber (some major)), toString (runNumber minor),
          toString (runNumber patch), none, none⟩)
    ∧ findIn? text = ((versionLike.search text.toList).map Match.groups).map ofGroups
    ∧ (∀ v : Version, findIn? text = some v → findIn? (toString v) = some v)
    ∧ ∀ v : Version, parseTagged text = .ok v → findIn? text = some v.release := by
  refine ⟨findInChars?_eq_none_iff, fun t => ?_, findInChars?_eq_search text.toList, fun v h => ?_,
    fun v h => ?_⟩
  · constructor
    · rintro ⟨v, hv, rfl⟩
      obtain ⟨major, minor, patch, hruns, rfl⟩ := findIn?_eq_some_iff.1 hv
      exact ⟨major, minor, patch, hruns, fields_ofRuns major minor patch⟩
    · rintro ⟨major, minor, patch, hruns, rfl⟩
      exact ⟨_, findIn?_eq_some_iff.2 ⟨major, minor, patch, hruns, rfl⟩,
        fields_ofRuns major minor patch⟩
  · rw [findIn?_toString, release_eq_self_of_findIn? h]
  · obtain ⟨-, htagged⟩ := parseTagged_eq_ok_iff.1 h
    exact findIn?_of_isTagged htagged

/-- A digit that is not ASCII, superfluous zeros, a dot without a digit behind it; and a tag with a
    pre-release and a build. -/
theorem findIn?_eq_firstRuns_stray :
    let v : Version := ⟨.ofNat 7, .ofNat 80, .zero, [], []⟩
    let w : Version := ⟨.ofNat 1, .zero, .ofNat 3, [.zero], [⟨['9'], by decide⟩]⟩
    findIn? "\u0663.007.080..9" = some v ∧ findIn? (toString v) = some v
    ∧ parseTagged " =v1.0.3-0+9" = .ok w ∧ findIn? " =v1.0.3-0+9" = some w.release := by
  intro v w
  have hfound : findIn? "\u0663.007.080..9" = some v := by decide
  have htagged : parseTagged " =v1.0.3-0+9" = .ok w := by decide
  obtain ⟨-, -, -, hagain, -⟩ := findIn?_eq_firstRuns "\u0663.007.080..9"
  obtain ⟨-, -, -, -, htag⟩ := findIn?_eq_firstRuns " =v1.0.3-0+9"
  exact ⟨hfound, hagain v hfound, htagged, htag w htagged⟩

end Version

end Versioning
