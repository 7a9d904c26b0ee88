import Versioning.Proofs.Alternatives
import Versioning.Proofs.Branch
import Versioning.Proofs.Minimum

set_option autoImplicit false

/-! # Spellings of a range

A list of entries can be written as the text of a range in many ways: in any order, with any gaps.
All of them are read as ranges that admit the same versions, which are those that every single entry
admits, and that agree on the lowest version but for its build (`parse_spelling`). -/

namespace Versioning.Range

open Text

/-! ## Ranges of one branch -/

/-- A text writes some entries as the only branch of a range, with gaps at both ends. -/
def Writes (text : String) (es : List Entry) : Prop :=
  ∃ lead core tail, IsGap lead ∧ IsGap tail ∧ Written es core
    ∧ text.toList = lead ++ (core ++ tail)

/-- The range of a single branch. -/
def ofBranch (text : String) (label : List Char) (s : Shape) : Range :=
  ⟨[⟨s, some (String.ofList label)⟩], text⟩

theorem admits_ofBranch (text : String) (label : List Char) (s : Shape) (v : Version) :
    (ofBranch text label s).admits v = s.admits v :=
  Bool.or_false _

theorem minimum?_ofBranch (text : String) (label : List Char) (s : Shape) :
    (ofBranch text label s).minimum? = s.minimum? := by
  have hbranch : Branch.minimum? ⟨s, some (String.ofList label)⟩ = s.minimum? := rfl
  rw [Range.minimum?, ofBranch, List.filterMap_cons, hbranch]
  cases s.minimum? <;> rfl

variable {es : List Entry} {text : String}

/-- **A spelling of entries is read as one branch, which admits what they all admit.** -/
theorem parse_of_writes (h : Writes text es) (hb : ∀ e ∈ es, e.Bounded) :
    ∃ label s, parse text = .ok (ofBranch text label s)
      ∧ (∀ v, s.admits v = es.all fun e => e.comparators.all (·.admits v))
      ∧ ((∃ e ∈ es, e.sign ≠ []) →
        s = .conjunction (.ofComparators (es.flatMap Entry.comparators) none)) := by
  obtain ⟨lead, core, tail, hlead, htail, hcore, htext⟩ := h
  obtain ⟨s, hread, hs⟩ := read_of_written hcore hb
  refine ⟨core, s, ?_, hs⟩
  have hbranch : ∀ cs ∈ [core], IsFramed cs ∧ '|' ∉ cs :=
    List.forall_mem_singleton.2 ⟨isFramed_of_written hcore, bar_notMem_of_written hcore⟩
  have hjoin : bars.intercalate [core] = core := List.intercalate_singleton
  rw [← hjoin] at htext
  rw [parse_joined (List.cons_ne_nil core []) hbranch hlead htail htext, List.map_singleton,
    branchOf, hread]
  rfl

theorem writes_chars (e : Entry) : Writes (String.ofList e.chars) [e] := by
  refine ⟨[], e.chars, [], isGap_nil, isGap_nil, written_chars e, ?_⟩
  rw [String.toList_ofList, List.append_nil]
  rfl

/-- An entry alone is read as what its comparators admit. -/
theorem parse_chars {e : Entry} (hb : e.Bounded) :
    ∃ r, parse (String.ofList e.chars) = .ok r
      ∧ ∀ v, r.admits v = e.comparators.all (·.admits v) := by
  obtain ⟨label, s, hparse, hadmits, -⟩ :=
    parse_of_writes (writes_chars e) (by simpa using hb)
  refine ⟨_, hparse, fun v => ?_⟩
  rw [admits_ofBranch, hadmits, List.all_cons, List.all_nil, Bool.and_true]

/-! ## Order and gaps -/

/-- **Neither the order nor the gaps of entries matter.** Two spellings of the same entries are read
    as one branch each; both admit what every entry admits that is read alone. If an entry has a
    sign, either neither has a lowest version, or both have, and of equal precedence. -/
theorem parse_spelling {es fs : List Entry} {s t : String} (hb : ∀ e ∈ es, e.Bounded)
    (hperm : es.Perm fs) (hs : Writes s es) (ht : Writes t fs) :
    ∃ q r, parse s = .ok q ∧ parse t = .ok r
      ∧ q.branches.length = 1 ∧ r.branches.length = 1
      ∧ (∀ v, q.admits v = true ↔
        ∀ e ∈ es, ∃ single, parse (String.ofList e.chars) = .ok single ∧ single.admits v = true)
      ∧ (∀ v, r.admits v = q.admits v)
      ∧ ((∃ e ∈ es, e.sign ≠ []) → Option.Rel Version.Equivalent q.minimum? r.minimum?) := by
  have hb' : ∀ e ∈ fs, e.Bounded := fun e he => hb e (hperm.mem_iff.2 he)
  obtain ⟨_, shape, hparse, hadmits, hshape⟩ := parse_of_writes hs hb
  obtain ⟨_, shape', hparse', hadmits', hshape'⟩ := parse_of_writes ht hb'
  refine ⟨_, _, hparse, hparse', rfl, rfl, fun v => ?_, fun v => ?_, fun hsign => ?_⟩
  · -- A single entry is a list of entries too, so reading it alone gives its comparators.
    rw [admits_ofBranch, hadmits, List.all_eq_true]
    refine forall₂_congr fun e he => ?_
    obtain ⟨single, hsingle, halone⟩ := parse_chars (hb e he)
    rw [hsingle, ← halone]
    constructor
    · exact fun hv => ⟨single, rfl, hv⟩
    · rintro ⟨r, hr, hv⟩
      cases hr
      exact hv
  · rw [admits_ofBranch, admits_ofBranch, hadmits, hadmits', hperm.all_eq]
  · have hsign' : ∃ e ∈ fs, e.sign ≠ [] :=
      hsign.imp fun e he => he.imp_left hperm.mem_iff.1
    rw [minimum?_ofBranch, minimum?_ofBranch, hshape hsign, hshape' hsign']
    exact Conjunction.minimum?_ofComparators_perm (hperm.flatMap_right Entry.comparators)

/-- A caret, a lower bound and a wildcard, written from left to right with gaps behind the signs and
    from right to left without. -/
theorem parse_spelling_caret_wildcard :
    let one : Numeral := ⟨['1'], by decide⟩
    let two : Numeral := ⟨['2'], by decide⟩
    let caret : Entry := ⟨['^'], ['1', '.', '2'], ⟨[one, two], [], []⟩, by decide, by decide⟩
    let bound : Entry :=
      ⟨['>', '='], ['1', '-', '2'], ⟨[one], [.numeric two], []⟩, by decide, by decide⟩
    let any : Entry := ⟨[], ['*'], ⟨[], [], []⟩, by decide, by decide⟩
    (∀ e ∈ [caret, bound, any], e.Bounded) ∧ [caret, bound, any].Perm [any, bound, caret]
      ∧ Writes "^ 1.2  >= \t1-2\n* " [caret, bound, any]
      ∧ Writes " * >=1-2 ^1.2" [any, bound, caret]
      ∧ ∃ q r, parse "^ 1.2  >= \t1-2\n* " = .ok q ∧ parse " * >=1-2 ^1.2" = .ok r
        ∧ (∀ v, r.admits v = q.admits v) ∧ Option.Rel Version.Equivalent q.minimum? r.minimum? := by
  intro one two caret bound any
  have hb : ∀ e ∈ [caret, bound, any], e.Bounded := by decide
  have hperm : [caret, bound, any].Perm [any, bound, caret] :=
    List.reverse_perm [any, bound, caret]
  have hs : Writes "^ 1.2  >= \t1-2\n* " [caret, bound, any] :=
    ⟨[], _, [' '], by decide, by decide,
      @Written.cons caret [' '] [' ', ' '] _ _ (by decide) (by decide) (by decide)
        (@Written.cons bound [' ', '\t'] ['\n'] _ _ (by decide) (by decide) (by decide)
          (@Written.single any [] (by decide))), by decide⟩
  have ht : Writes " * >=1-2 ^1.2" [any, bound, caret] :=
    ⟨[' '], _, [], by decide, by decide,
      @Written.cons any [] [' '] _ _ (by decide) (by decide) (by decide)
        (@Written.cons bound [] [' '] _ _ (by decide) (by decide) (by decide)
          (@Written.single caret [] (by decide))), by decide⟩
  obtain ⟨q, r, hq, hr, -, -, -, hadmits, hminimum⟩ := parse_spelling hb hperm hs ht
  exact ⟨hb, hperm, hs, ht, q, r, hq, hr, hadmits,
    hminimum ⟨caret, List.mem_cons_self, by decide⟩⟩

end Versioning.Range
