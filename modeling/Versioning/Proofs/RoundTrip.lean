import Versioning.Proofs.Alternatives
import Versioning.Proofs.Branch

set_option autoImplicit false

/-! # Ranges that are printed and read again

What is printed for a branch is a star, a pair of brackets or a list of comparators. Read again,
each of them admits what the branch admits (`admits_reread`). A conjunction that was read lists its
lower bounds before its upper bounds, and this is why it is also printed the same, and has the same
lowest version unless that was fixed by how the branch was written. -/

namespace Versioning.Range

open Text

/-! ## Comparators as entries -/

/-- The sigil that the sign of an operator writes. -/
def Operator.sigil : Operator → Sigil
  | equal => .same
  | o => .compare o

theorem Operator.split_sign (o : Operator) : (Sigil.split o.sign.toList).1 = some o.sigil := by
  cases o <;> decide

namespace Entry

/-- The entry that a comparator is printed as. -/
def ofComparator (c : Comparator) : Entry where
  sign := c.operator.sign.toList
  text := c.bound.chars
  operand := Operand.ofVersion c.bound
  sign_mem := by
    cases c.operator <;> decide
  reads := Operand.ofChars?_version c.bound

variable (c : Comparator)

theorem sigil_ofComparator : (ofComparator c).sigil = some c.operator.sigil :=
  c.operator.split_sign

theorem sign_ofComparator_ne_nil : (ofComparator c).sign ≠ [] := by
  rw [Ne, ← sigil_isNone_iff, sigil_ofComparator]
  exact Option.some_ne_none _

/-- A full operand has no ceiling behind the sign of an operator. -/
theorem bounded_ofComparator : (ofComparator c).Bounded := by
  have hplace : (ofComparator c).ceilingPlace? = none := by
    obtain ⟨operator, bound⟩ := c
    rw [ceilingPlace?, sigil_ofComparator]
    cases operator <;> rfl
  intro i hi
  rw [hplace] at hi
  cases hi

/-- A comparator is read from its own text. -/
theorem comparators_ofComparator : (ofComparator c).comparators = [c] := by
  obtain ⟨operator, bound⟩ := c
  rw [comparators, item, sigil_ofComparator]
  cases operator <;> rfl

theorem written_ofComparator {cs : List Comparator} (h : cs ≠ []) :
    Written (cs.map ofComparator) ([' '].intercalate (cs.map Comparator.chars)) := by
  have hallows : ∀ c, (ofComparator c).Allows [] := fun c => ⟨isGap_nil, fun _ => rfl⟩
  induction cs with
  | nil => exact absurd rfl h
  | cons c cs ih =>
      cases cs with
      | nil =>
          rw [List.map_singleton, List.map_singleton, List.intercalate_singleton]
          exact .single (hallows c)
      | cons d cs =>
          have hrest := ih (List.cons_ne_nil d cs)
          show Written _ ([' '].intercalate (c.chars :: d.chars :: cs.map Comparator.chars))
          rw [List.intercalate_cons_cons, List.append_assoc]
          exact .cons (hallows c) (by decide) (by decide) hrest

end Entry

/-! ## Conjunctions -/

namespace Conjunction

/-- The upper bounds are listed as such, and no others are. -/
def IsParted (c : Conjunction) : Prop :=
  (∀ b ∈ c.lower, b.operator.boundsAbove = false) ∧ ∀ b ∈ c.upper, b.operator.boundsAbove = true

theorem isParted_ofComparators (cs : List Comparator) (fixedMinimum : Option Version) :
    (ofComparators cs fixedMinimum).IsParted := by
  refine ⟨fun b hb => ?_, fun b hb => ?_⟩
  · simpa using (List.mem_filter.1 hb).2
  · exact (List.mem_filter.1 hb).2

/-- Parting the comparators of a parted conjunction changes nothing. -/
theorem ofComparators_comparators {c : Conjunction} (h : c.IsParted)
    (fixedMinimum : Option Version) :
    ofComparators c.comparators fixedMinimum = ⟨c.lower, c.upper, fixedMinimum⟩ := by
  have hlower : c.lower.filter (!·.operator.boundsAbove) = c.lower :=
    List.filter_eq_self.2 fun b hb => by simp [h.1 b hb]
  have hupper : c.upper.filter (·.operator.boundsAbove) = c.upper :=
    List.filter_eq_self.2 fun b hb => h.2 b hb
  have hlower' : c.lower.filter (·.operator.boundsAbove) = [] :=
    List.filter_eq_nil_iff.2 fun b hb => by simp [h.1 b hb]
  have hupper' : c.upper.filter (!·.operator.boundsAbove) = [] :=
    List.filter_eq_nil_iff.2 fun b hb => by simp [h.2 b hb]
  rw [ofComparators, comparators, List.filter_append, List.filter_append, hlower, hupper, hlower',
    hupper', List.append_nil, List.nil_append]

theorem isParted_of_between? {start stop : List Char} {c : Conjunction}
    (h : between? start stop = some c) : c.IsParted := by
  simp only [between?, Option.bind_eq_bind, Option.bind_eq_some_iff] at h
  obtain ⟨first, -, last, -, upper, -, found, -, h⟩ := h
  cases h
  exact isParted_ofComparators _ _

theorem isParted_of_ofItems? {cs : List Char} {c : Conjunction} (h : ofItems? cs = some c) :
    c.IsParted := by
  simp only [ofItems?, Option.bind_eq_bind, Option.bind_eq_some_iff] at h
  obtain ⟨comparators, -, h⟩ := h
  split at h
  · split at h
    · cases h
    · cases h
      exact isParted_ofComparators _ _
  · obtain ⟨found, -, h⟩ := Option.bind_eq_some_iff.1 h
    split at h <;> cases h <;> exact isParted_ofComparators _ _

/-- **The bounds of a conjunction that was read are parted.** -/
theorem isParted_of_ofChars? {cs : List Char} {c : Conjunction} (h : ofChars? cs = some c) :
    c.IsParted := by
  unfold ofChars? at h
  split at h
  · exact isParted_of_between? h
  · exact isParted_of_ofItems? h

/-- What is printed for a conjunction with a comparator is read as the conjunction of the same
    comparators. -/
theorem read_chars {c : Conjunction} (h : c.comparators ≠ []) :
    Shape.read c.chars = .ok (.conjunction (ofComparators c.comparators none)) := by
  have hwritten := Entry.written_ofComparator h
  have hbounded : ∀ e ∈ c.comparators.map Entry.ofComparator, e.Bounded := by
    intro e he
    obtain ⟨b, -, rfl⟩ := List.mem_map.1 he
    exact Entry.bounded_ofComparator b
  have hsign : ∃ e ∈ c.comparators.map Entry.ofComparator, e.sign ≠ [] := by
    obtain ⟨b, hb⟩ := List.exists_mem_of_ne_nil _ h
    exact ⟨_, List.mem_map_of_mem hb, Entry.sign_ofComparator_ne_nil b⟩
  have hcomparators :
      (c.comparators.map Entry.ofComparator).flatMap Entry.comparators = c.comparators := by
    rw [List.flatMap_map]
    simp only [Entry.comparators_ofComparator, List.flatMap_singleton']
  obtain ⟨s, hread, -, hs⟩ := read_of_written hwritten hbounded
  rw [hs hsign, hcomparators] at hread
  rw [chars, if_neg (by simpa using h)]
  exact hread

end Conjunction

/-! ## Branches -/

namespace Shape

/-- The bounds of the conjunction, if there is one, are parted. -/
def IsParted (s : Shape) : Prop := ∀ c, s = conjunction c → c.IsParted

theorem isParted_of_read {cs : List Char} : (ofReading (read cs)).IsParted := by
  intro c hc
  unfold read at hc
  split at hc
  · cases hc
  · split at hc
    · cases hc
    · split at hc
      · next hread =>
          cases hc
          exact Conjunction.isParted_of_ofChars? hread
      · cases hc

/-- What is read from the text that is printed. -/
def reread (s : Shape) : Shape := ofReading (read s.chars)

theorem reread_everything : reread everything = everything := by decide

theorem reread_nothing : reread nothing = nothing := by decide

variable {c : Conjunction}

/-- Without comparators, a conjunction is printed as the star. -/
theorem reread_of_eq_nil (h : c.comparators = []) : reread (conjunction c) = everything := by
  have hchars : (conjunction c).chars = everything.chars := if_pos (List.isEmpty_iff.2 h)
  rw [reread, hchars]
  exact reread_everything

theorem reread_of_ne_nil (h : c.comparators ≠ []) :
    reread (conjunction c) = conjunction (.ofComparators c.comparators none) := by
  rw [reread, chars, Conjunction.read_chars h]
  rfl

/-- **What is printed admits what is admitted.** -/
theorem admits_reread (s : Shape) (v : Version) : s.reread.admits v = s.admits v := by
  cases s with
  | everything => rw [reread_everything]
  | nothing => rw [reread_nothing]
  | conjunction c =>
      by_cases h : c.comparators = []
      · rw [reread_of_eq_nil h, admits, admits, Conjunction.admits, h]
        rfl
      · rw [reread_of_ne_nil h, admits, Conjunction.admits_ofComparators]
        rfl

theorem chars_reread {s : Shape} (hs : s.IsParted) : s.reread.chars = s.chars := by
  cases s with
  | everything => rw [reread_everything]
  | nothing => rw [reread_nothing]
  | conjunction c =>
      by_cases h : c.comparators = []
      · rw [reread_of_eq_nil h]
        exact (if_pos (List.isEmpty_iff.2 h)).symm
      · -- Reading parts the comparators, so the text is the same only if they were parted before.
        rw [reread_of_ne_nil h, Conjunction.ofComparators_comparators (hs c rfl)]
        rfl

theorem minimum?_reread {s : Shape} (hs : s.IsParted)
    (hfixed : ∀ c, s = conjunction c → c.fixedMinimum = none) :
    s.reread.minimum? = s.minimum? := by
  cases s with
  | everything => rw [reread_everything]
  | nothing => rw [reread_nothing]
  | conjunction c =>
      obtain ⟨lower, upper, fixedMinimum⟩ := c
      cases hfixed _ rfl
      by_cases h : (⟨lower, upper, none⟩ : Conjunction).comparators = []
      · -- Without any bound the lowest version is that of the star, which is `0.0.0`.
        obtain ⟨rfl, rfl⟩ := List.append_eq_nil_iff.1 h
        rw [reread_of_eq_nil h]
        rfl
      · rw [reread_of_ne_nil h, Conjunction.ofComparators_comparators (hs _ rfl)]

/-- What is printed stands between bars as a branch of its own. -/
theorem isFramed_chars (s : Shape) : IsFramed s.chars ∧ '|' ∉ s.chars := by
  have hstar : IsSolid ['*'] ∧ '|' ∉ ['*'] := by decide
  have hbrackets : IsSolid ['[', ']'] ∧ '|' ∉ ['[', ']'] := by decide
  cases s with
  | everything => exact hstar.imp_left IsSolid.isFramed
  | nothing => exact hbrackets.imp_left IsSolid.isFramed
  | conjunction c =>
      rw [chars, Conjunction.chars]
      split
      · exact hstar.imp_left IsSolid.isFramed
      · next h =>
          have hwritten := Entry.written_ofComparator (fun hnil => h (List.isEmpty_iff.2 hnil))
          exact ⟨isFramed_of_written hwritten, bar_notMem_of_written hwritten⟩

end Shape

/-! ## Ranges -/

/-- A range that was read has a branch, and the bounds of its branches are parted. -/
theorem isParted_of_parse {text : String} {r : Range} (h : parse text = .ok r) :
    r.branches ≠ [] ∧ ∀ b ∈ r.branches, b.shape.IsParted := by
  obtain ⟨-, rfl⟩ := parse_eq_ok_iff.1 h
  refine ⟨branchesOf_ne_nil _, fun b hb => ?_⟩
  obtain ⟨cs, -, rfl⟩ := List.mem_map.1 hb
  exact Shape.isParted_of_read

/-- The range that is read from what is printed for a range. -/
def reread (r : Range) : Range :=
  ⟨r.branches.map fun b => ⟨b.shape.reread, some (toString b)⟩, toString r⟩

theorem toList_toString (r : Range) :
    (toString r).toList = bars.intercalate (r.branches.map (·.shape.chars)) := by
  have hbars : " || ".toList = bars := by decide
  show (" || ".intercalate (r.branches.map toString)).toList = _
  rw [String.toList_intercalate, hbars, List.map_map]
  refine congrArg bars.intercalate (List.map_congr_left fun b _ => ?_)
  exact String.toList_ofList

/-- **What is printed for a range can be read.** -/
theorem parse_toString_eq {r : Range} (hne : r.branches ≠ []) :
    parse (toString r) = .ok r.reread := by
  have htexts : ∀ cs ∈ r.branches.map (·.shape.chars), IsFramed cs ∧ '|' ∉ cs := by
    intro cs hcs
    obtain ⟨b, -, rfl⟩ := List.mem_map.1 hcs
    exact b.shape.isFramed_chars
  have htext : (toString r).toList
      = [] ++ (bars.intercalate (r.branches.map (·.shape.chars)) ++ []) := by
    rw [toList_toString, List.append_nil, List.nil_append]
  rw [parse_joined (by simpa using hne) htexts isGap_nil isGap_nil htext, List.map_map]
  rfl

theorem admits_reread (r : Range) (v : Version) : r.reread.admits v = r.admits v := by
  rw [admits, admits, reread, List.any_map]
  exact List.any_congr rfl fun b => b.shape.admits_reread v

variable {r : Range}

theorem toString_reread (h : ∀ b ∈ r.branches, b.shape.IsParted) :
    toString r.reread = toString r := by
  rw [← String.toList_inj, toList_toString, toList_toString, reread, List.map_map]
  refine congrArg bars.intercalate (List.map_congr_left fun b hb => ?_)
  exact Shape.chars_reread (h b hb)

theorem minimum?_reread (h : ∀ b ∈ r.branches, b.shape.IsParted)
    (hfixed : ∀ b ∈ r.branches, ∀ c, b.shape = .conjunction c → c.fixedMinimum = none) :
    r.reread.minimum? = r.minimum? := by
  rw [minimum?, minimum?, reread, List.filterMap_map]
  refine congrArg Version.firstLowest? (List.filterMap_congr fun b hb => ?_)
  exact Shape.minimum?_reread (h b hb) (hfixed b hb)

/-- **A range that is printed and read again keeps its meaning.** The first part is about ranges
    that were read: there are as many branches, and the same text and the same versions; the lowest
    version is the same if no branch has one that is fixed. The second is about any conjunction,
    whichever of its two lists the comparators are in. -/
theorem parse_toString :
    (∀ text r, parse text = .ok r → ∃ r', parse (toString r) = .ok r'
      ∧ r'.branches.length = r.branches.length ∧ toString r' = toString r
      ∧ (∀ v, r'.admits v = r.admits v)
      ∧ ((∀ b ∈ r.branches, ∀ c, b.shape = .conjunction c → c.fixedMinimum = none) →
        r'.minimum? = r.minimum?))
    ∧ ∀ c : Conjunction, ∃ r, parse (toString c) = .ok r ∧ ∀ v, r.admits v = c.admits v := by
  refine ⟨fun text r h => ?_, fun c => ?_⟩
  · obtain ⟨hne, hparted⟩ := isParted_of_parse h
    exact ⟨r.reread, parse_toString_eq hne, List.length_map _, toString_reread hparted,
      admits_reread r, minimum?_reread hparted⟩
  · -- A conjunction is printed as the range of it alone.
    let r : Range := ⟨[⟨.conjunction c, none⟩], toString c⟩
    have hprint : toString r = toString c := String.intercalate_singleton
    refine ⟨r.reread, hprint ▸ parse_toString_eq (List.cons_ne_nil _ _), fun v => ?_⟩
    rw [admits_reread]
    exact Bool.or_false _

/-- A caret beside a branch that cannot be read, and a conjunction with its bounds in the wrong
    lists. -/
theorem parse_toString_caret_unreadable :
    let one : Version := ⟨⟨['1'], by decide⟩, .zero, .zero, [], []⟩
    let two : Version := ⟨⟨['2'], by decide⟩, .zero, .zero, [.zero], []⟩
    let caret : Conjunction := ⟨[⟨.greaterOrEqual, one⟩], [⟨.less, two⟩], none⟩
    let swapped : Conjunction := ⟨[⟨.less, two⟩], [⟨.greaterOrEqual, one⟩], none⟩
    let r : Range := ⟨[⟨.conjunction caret, some "^ 1"⟩, ⟨.nothing, some "?"⟩], "^ 1||?"⟩
    parse "^ 1||?" = .ok r ∧ toString r = ">=1.0.0 <2.0.0-0 || []"
      ∧ (∃ r', parse ">=1.0.0 <2.0.0-0 || []" = .ok r' ∧ r'.minimum? = some one
        ∧ ∀ v, r'.admits v = r.admits v)
      ∧ ∃ r', parse "<2.0.0-0 >=1.0.0" = .ok r' ∧ ∀ v, r'.admits v = swapped.admits v := by
  intro one two caret swapped r
  have hparse : parse "^ 1||?" = .ok r := by decide
  have hprint : toString r = ">=1.0.0 <2.0.0-0 || []" := by decide
  have hswapped : toString swapped = "<2.0.0-0 >=1.0.0" := by decide
  obtain ⟨r', hr', -, -, hadmits, hminimum⟩ := parse_toString.1 _ r hparse
  have hfixed : ∀ b ∈ r.branches, ∀ c, b.shape = .conjunction c → c.fixedMinimum = none := by
    intro b hb c hc
    rcases List.mem_cons.1 hb with rfl | hb
    · cases hc
      rfl
    · cases List.mem_singleton.1 hb
      cases hc
  refine ⟨hparse, hprint, ⟨r', hprint ▸ hr', ?_, hadmits⟩, hswapped ▸ parse_toString.2 swapped⟩
  rw [hminimum hfixed]
  decide

end Versioning.Range
