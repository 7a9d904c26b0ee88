import Versioning.Proofs.Refusal
import Versioning.Selection

set_option autoImplicit false

/-! # Branches admit intervals

Every comparator admits an interval of the order of versions, and so does every branch, whatever
comparators it has and in whatever list they stand. Versions of equal precedence lie between each
other, so they are admitted alike: neither the build of a version nor that of a bound ever changes
an answer (`admits_interval`).

For the bounds this is said twice. Two ranges whose branches are the same but for builds admit the
same versions; and so do two range expressions that write the same operands but for their builds,
even where an upper bound does not fit. -/

namespace Versioning

/-- A version without its build. -/
def Version.withoutBuild (v : Version) : Version := { v with build := [] }

namespace Range

open Text

/-! ## Between two admitted versions -/

section Between

variable {u v w : Version}

theorem Conjunction.admits_of_between {c : Conjunction} (huv : u ≤ v) (hvw : v ≤ w)
    (hu : c.admits u = true) (hw : c.admits w = true) : c.admits v = true := by
  rw [Conjunction.admits, List.all_eq_true] at hu hw ⊢
  intro b hb
  exact Comparator.admits_of_between huv hvw (hu b hb) (hw b hb)

theorem Shape.admits_of_between {s : Shape} (huv : u ≤ v) (hvw : v ≤ w)
    (hu : s.admits u = true) (hw : s.admits w = true) : s.admits v = true := by
  cases s with
  | everything => rfl
  | nothing => exact hu
  | conjunction c => exact Conjunction.admits_of_between huv hvw hu hw

theorem Shape.admits_congr (h : v.Equivalent w) (s : Shape) : s.admits v = s.admits w := by
  cases s with
  | everything | nothing => rfl
  | conjunction c => exact Conjunction.admits_congr h c

theorem admits_congr (h : v.Equivalent w) (r : Range) : r.admits v = r.admits w := by
  simp only [admits, Branch.admits, Shape.admits_congr h]

end Between

/-! ## Builds of bounds -/

/-- A comparator without the build of its bound. -/
def Comparator.withoutBuild (c : Comparator) : Comparator := ⟨c.operator, c.bound.withoutBuild⟩

theorem Comparator.admits_withoutBuild (c : Comparator) (v : Version) :
    c.withoutBuild.admits v = c.admits v := by
  obtain ⟨operator, bound⟩ := c
  cases operator <;> rfl

/-- Without the builds of the bounds, a list of comparators admits the same. -/
theorem all_admits_withoutBuild (cs : List Comparator) (v : Version) :
    (cs.map Comparator.withoutBuild).all (·.admits v) = cs.all (·.admits v) := by
  rw [List.all_map]
  exact List.all_congr rfl fun c => c.admits_withoutBuild v

/-- A shape without any builds. -/
def Shape.withoutBuilds : Shape → Shape
  | conjunction c =>
      conjunction ⟨c.lower.map Comparator.withoutBuild, c.upper.map Comparator.withoutBuild,
        c.fixedMinimum.map Version.withoutBuild⟩
  | everything => everything
  | nothing => nothing

theorem Shape.admits_withoutBuilds (s : Shape) (v : Version) :
    s.withoutBuilds.admits v = s.admits v := by
  cases s with
  | everything | nothing => rfl
  | conjunction c =>
      show (c.lower.map Comparator.withoutBuild ++ c.upper.map Comparator.withoutBuild).all
        (·.admits v) = c.comparators.all (·.admits v)
      rw [← List.map_append, all_admits_withoutBuild, Conjunction.comparators]

/-- Ranges whose branches are the same but for builds admit the same versions. -/
theorem admits_eq_of_withoutBuilds {q r : Range}
    (h : q.branches.map (·.shape.withoutBuilds) = r.branches.map (·.shape.withoutBuilds))
    (v : Version) : q.admits v = r.admits v := by
  have hany : ∀ p : Range,
      p.admits v = (p.branches.map (·.shape.withoutBuilds)).any (·.admits v) := by
    intro p
    rw [List.any_map]
    exact List.any_congr rfl fun b => (b.shape.admits_withoutBuilds v).symm
  rw [hany, hany, h]

/-! ## Builds of operands -/

namespace Operand

/-- An operand without its build. -/
def withoutBuild (p : Operand) : Operand := { p with build := [] }

theorem ceiling?_map_withoutBuild (p : Operand) (i : Nat) :
    (p.ceiling? i).map Version.withoutBuild = p.ceiling? i := by
  rw [ceiling?]
  cases (p.components[i]?.getD .zero).next? <;> rfl

theorem upTo?_withoutBuild (p : Operand) (i : Nat) :
    p.withoutBuild.upTo? i = (p.upTo? i).map (List.map Comparator.withoutBuild) := by
  have hany : p.withoutBuild.isAny = p.isAny := rfl
  have hceiling : p.withoutBuild.ceiling? i = (p.ceiling? i).map Version.withoutBuild :=
    (p.ceiling?_map_withoutBuild i).symm
  rw [upTo?, upTo?, hany, hceiling]
  split
  · rfl
  · rw [Option.map_map, Option.map_map]
    rfl

theorem span?_withoutBuild (p : Operand) :
    p.withoutBuild.span? = p.span?.map (List.map Comparator.withoutBuild) := by
  have hfull : p.withoutBuild.isFull = p.isFull := rfl
  have hany : p.withoutBuild.isAny = p.isAny := rfl
  have hlast : p.withoutBuild.lastPlace = p.lastPlace := rfl
  rw [span?, span?, hfull, hany, hlast, upTo?_withoutBuild]
  split
  · rfl
  · split <;> rfl

end Operand

namespace Item

/-- An item without the build of its operand. -/
def withoutBuild (i : Item) : Item := ⟨i.sigil, i.operand.map Operand.withoutBuild⟩

/-- Whether an item admits a version; it admits none if there is nothing that can be said. -/
def admits (i : Item) (v : Version) : Bool := i.comparators?.any fun cs => cs.all (·.admits v)

theorem comparators?_withoutBuild (i : Item) :
    i.withoutBuild.comparators? = i.comparators?.map (List.map Comparator.withoutBuild) := by
  obtain ⟨sigil, operand⟩ := i
  cases operand with
  | none => cases sigil <;> rfl
  | some p =>
      cases sigil with
      | none => exact p.span?_withoutBuild
      | some sigil =>
          cases sigil with
          | compare o => rfl
          | same => exact p.span?_withoutBuild
          | caret => exact p.upTo?_withoutBuild p.leadingPlace
          | tilde => exact p.upTo?_withoutBuild p.minorPlace

theorem admits_withoutBuild (i : Item) (v : Version) : i.withoutBuild.admits v = i.admits v := by
  rw [admits, admits, comparators?_withoutBuild, Option.any_map]
  simp only [all_admits_withoutBuild]

end Item

/-- **A written branch admits what each of its items admits**, also if an upper bound does not
    fit. -/
theorem admits_of_written {es : List Entry} {cs : List Char} (h : Written es cs) (v : Version) :
    (Shape.ofReading (Shape.read cs)).admits v = es.all (·.item.admits v) := by
  by_cases hb : ∀ e ∈ es, e.Bounded
  · obtain ⟨s, hread, hadmits, -⟩ := read_of_written h hb
    rw [hread, Shape.ofReading, hadmits, Bool.eq_iff_iff]
    simp only [List.all_eq_true (l := es)]
    refine forall₂_congr fun e he => ?_
    rw [Item.admits, Entry.comparators?_eq (hb e he), Option.any_some]
  · rw [ofReading_read_of_not_bounded h hb]
    simp only [not_forall, Entry.bounded_iff, not_not] at hb
    obtain ⟨e, he, hoverflow⟩ := hb
    refine (List.all_eq_false.2 ⟨e, he, ?_⟩).symm
    rw [Item.admits, Item.comparators?_eq_none_iff.2 (Or.inr hoverflow)]
    exact Bool.false_ne_true

/-- Two texts of a branch are the same, or they write the same operands but for their builds. -/
def IsBuildVariant (cs ds : List Char) : Prop :=
  cs = ds ∨ ∃ es fs, Written es cs ∧ Written fs ds
    ∧ es.map (·.item.withoutBuild) = fs.map (·.item.withoutBuild)

theorem IsBuildVariant.admits_eq {cs ds : List Char} (h : IsBuildVariant cs ds) (v : Version) :
    (branchOf cs).admits v = (branchOf ds).admits v := by
  rcases h with rfl | ⟨es, fs, hcs, hds, hitems⟩
  · rfl
  · have hall : ∀ es : List Entry,
        es.all (·.item.admits v) = (es.map (·.item.withoutBuild)).all (·.admits v) := by
      intro es
      rw [List.all_map]
      exact List.all_congr rfl fun e => (e.item.admits_withoutBuild v).symm
    show (Shape.ofReading (Shape.read cs)).admits v = (Shape.ofReading (Shape.read ds)).admits v
    rw [admits_of_written hcs, admits_of_written hds, hall, hall, hitems]

/-! ## Range expressions -/

/-- The texts of the branches of a range expression. -/
def branchTexts (text : String) : List (List Char) :=
  (alternatives (trim isBlank text.toList)).map (trim isBlank)

/-- Range expressions that are the same but for the builds of operands admit the same versions. -/
theorem admits_eq_of_isBuildVariant {s t : String} {q r : Range} (hq : parse s = .ok q)
    (hr : parse t = .ok r) (h : List.Forall₂ IsBuildVariant (branchTexts s) (branchTexts t))
    (v : Version) : q.admits v = r.admits v := by
  obtain ⟨-, rfl⟩ := parse_eq_ok_iff.1 hq
  obtain ⟨-, rfl⟩ := parse_eq_ok_iff.1 hr
  show ((branchTexts s).map branchOf).any (·.admits v) = ((branchTexts t).map branchOf).any
    (·.admits v)
  rw [List.any_map, List.any_map]
  generalize branchTexts s = cs, branchTexts t = ds at h
  induction h with
  | nil => rfl
  | cons hhead _ ih =>
      rw [List.any_cons, List.any_cons, ih, Function.comp_apply, Function.comp_apply,
        hhead.admits_eq]

theorem satisfies_eq {text range : String} {v : Version} {r : Range}
    (hv : Version.parseTagged text = .ok v) (hr : parse range = .ok r) :
    satisfies text range = r.admits v := by
  simp only [satisfies, hr, admitsText, hv]

/-- **Branches admit intervals, and builds do not matter.** Of any conjunction and any branch, a
    version between two that are admitted is admitted too. Versions of equal precedence are admitted
    alike, by any branch and any range. The same versions are admitted by ranges that are the same
    but for the builds of their bounds, and the same texts satisfy range expressions that are the
    same but for the builds of their operands. -/
theorem admits_interval :
    (∀ (c : Conjunction) (u v w : Version), u ≤ v → v ≤ w →
      c.admits u = true → c.admits w = true → c.admits v = true)
    ∧ (∀ (b : Branch) (u v w : Version), u ≤ v → v ≤ w →
      b.admits u = true → b.admits w = true → b.admits v = true)
    ∧ (∀ v w : Version, v.Equivalent w →
      (∀ b : Branch, b.admits v = b.admits w) ∧ ∀ r : Range, r.admits v = r.admits w)
    ∧ (∀ q r : Range,
      q.branches.map (·.shape.withoutBuilds) = r.branches.map (·.shape.withoutBuilds) →
      ∀ v w : Version, v.Equivalent w → q.admits v = r.admits w)
    ∧ ∀ (s t : String) (v w : Version), Version.parseTagged s = .ok v →
      Version.parseTagged t = .ok w → v.Equivalent w →
      (∀ range : String, satisfies s range = satisfies t range)
      ∧ ∀ (a b : String) (q r : Range), parse a = .ok q → parse b = .ok r →
        List.Forall₂ IsBuildVariant (branchTexts a) (branchTexts b) →
        satisfies s a = satisfies t b := by
  refine ⟨?_, ?_, ?_, ?_, ?_⟩
  · intro c u v w huv hvw hu hw
    exact Conjunction.admits_of_between huv hvw hu hw
  · intro b u v w huv hvw hu hw
    exact Shape.admits_of_between huv hvw hu hw
  · intro v w h
    exact ⟨fun b => Shape.admits_congr h b.shape, fun r => admits_congr h r⟩
  · intro q r hqr v w h
    rw [admits_eq_of_withoutBuilds hqr, admits_congr h]
  · intro s t v w hs ht h
    constructor
    · intro range
      cases hr : parse range with
      | error f => simp only [satisfies, hr]
      | ok r => rw [satisfies_eq hs hr, satisfies_eq ht hr, admits_congr h]
    · intro a b q r hq hr hab
      rw [satisfies_eq hs hq, satisfies_eq ht hr, admits_eq_of_isBuildVariant hq hr hab,
        admits_congr h]

/-- A version between two others that a caret admits; and builds of a tag, behind a caret and in the
    first of two branches. -/
theorem admits_interval_caret :
    let one : Numeral := .ofNat 1
    let two : Numeral := .ofNat 2
    let plain : Entry := ⟨['^'], ['1', '.', '2'], ⟨[one, two], [], []⟩, by decide, by decide⟩
    let built : Entry := ⟨['^'], ['1', '.', '2', '+', '0', '1'],
      ⟨[one, two], [], [⟨['0', '1'], by decide⟩]⟩, by decide, by decide⟩
    let u : Version := ⟨one, two, .zero, [], []⟩
    let v : Version := ⟨one, .ofNat 3, .zero, [], [⟨['x'], by decide⟩]⟩
    let w : Version := ⟨one, .ofNat 3, .zero, [], []⟩
    let x : Version := ⟨one, .ofNat 9, .zero, [], []⟩
    let b : Branch := branchOf "^1.2".toList
    let top : Version := ⟨two, .zero, .zero, [.zero], []⟩
    let c : Conjunction := ⟨[⟨.greaterOrEqual, u⟩], [⟨.less, top⟩], none⟩
    (b.shape = .conjunction c ∧ u < v ∧ v < x ∧ b.admits u = true ∧ b.admits x = true
        ∧ b.admits v = true ∧ c.admits v = true)
      ∧ v.Equivalent w ∧ Written [plain] "^1.2".toList ∧ Written [built] "^ 1.2+01".toList
      ∧ satisfies "v1.3.0+x" "^ 1.2+01||?" = satisfies "1.3.0" "^1.2 || ?" := by
  intro one two plain built u v w x b top c
  have hplain : Written [plain] "^1.2".toList := @Written.single plain [] (by decide)
  have hbuilt : Written [built] "^ 1.2+01".toList := @Written.single built [' '] (by decide)
  have hvariant : List.Forall₂ IsBuildVariant (branchTexts "^ 1.2+01||?")
      (branchTexts "^1.2 || ?") := by
    have ha : branchTexts "^ 1.2+01||?" = ["^ 1.2+01".toList, ['?']] := by decide
    have hb : branchTexts "^1.2 || ?" = ["^1.2".toList, ['?']] := by decide
    rw [ha, hb]
    exact .cons (Or.inr ⟨_, _, hbuilt, hplain, by decide⟩) (.cons (Or.inl rfl) .nil)
  have hs : Version.parseTagged "v1.3.0+x" = .ok v := by decide
  have ht : Version.parseTagged "1.3.0" = .ok w := by decide
  have huv : u < v := by decide
  have hvx : v < x := by decide
  have hu : b.admits u = true := by decide
  have hx : b.admits x = true := by decide
  obtain ⟨hconjunction, hbranch, -, -, hsatisfies⟩ := admits_interval
  refine ⟨⟨by decide, huv, hvx, hu, hx, hbranch b u v x huv.le hvx.le hu hx,
    hconjunction c u v x huv.le hvx.le hu hx⟩, by decide, hplain, hbuilt, ?_⟩
  exact (hsatisfies _ _ v w hs ht (by decide)).2 _ _ _ _ (parse_eq_ok_iff.2 ⟨by decide, rfl⟩)
    (parse_eq_ok_iff.2 ⟨by decide, rfl⟩) hvariant

end Range

end Versioning
