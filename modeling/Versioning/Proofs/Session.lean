import Versioning.Proofs.Grammar
import Versioning.Proofs.RoundTrip
import Versioning.Selection

set_option autoImplicit false

/-! # What a session brings up

A session is a list of steps. Each of them reads a text, strictly or leniently or as a range, or
works on a version that came up before it, and brings up the versions that it gives. A step that
fails brings up nothing.

No step can bring up a version out of form, since the type of versions carries the form through
every step. What remains to be said is how this form looks in texts, and that it is not too narrow:
the fields that sessions bring up are exactly the grammatical ones
(`Session.run_iff_isGrammatical`).
For a field of any length there is a session, because a range may have bounds of any length, while
what is brought up can only be read back by itself if it is short enough. -/

namespace Versioning

namespace Session

open Range

/-! ## Steps -/

/-- A step of a session. A place points to one of the versions that came up before the step. -/
inductive Step
  | read (text : String)
  | readTagged (text : String)
  | find (text : String)
  | zero
  | release (place : Nat)
  | advance (place : Nat) (kind : ReleaseKind)
  | retreat (place : Nat) (kind : ReleaseKind)
  /-- All bounds in the branches of a range. -/
  | bounds (range : String)
  /-- The lowest version of a range and those of its branches. -/
  | minima (range : String)
deriving DecidableEq

/-- The branches of a range expression. -/
def branches (range : String) : List Branch :=
  match Range.parse range with
  | .ok r => r.branches
  | .error _ => []

/-- The bounds of a branch. -/
def boundsOf (b : Branch) : List Version :=
  match b.shape with
  | .conjunction c => c.comparators.map Comparator.bound
  | .everything | .nothing => []

/-- What a step brings up after the versions `known`. -/
def Step.yield (known : List Version) : Step → List Version
  | read text => (Version.parse text).toOption.toList
  | readTagged text => (Version.parseTagged text).toOption.toList
  | find text => (Version.findIn? text).toList
  | zero => [.zero]
  | release place => (known[place]?.map Version.release).toList
  | advance place kind => (known[place]?.bind fun v => (v.advance kind).toOption).toList
  | retreat place kind => (known[place]?.bind fun v => (v.retreat kind).toOption).toList
  | bounds range => (branches range).flatMap boundsOf
  | minima range => (minimumOf? range).toList ++ (branches range).filterMap Branch.minimum?

/-- The versions that come up in a session, in their order. -/
def run (steps : List Step) : List Version :=
  steps.foldl (fun known step => known ++ step.yield known) []

/-! ## Every version comes up -/

/-- A version is the bound of the range that asks for it alone. -/
theorem exists_mem_run (v : Version) : ∃ steps, v ∈ run steps := by
  let c : Conjunction := ⟨[⟨.equal, v⟩], [], none⟩
  let r : Range := ⟨[⟨.conjunction c, none⟩], toString c⟩
  have hprint : toString r = toString c := String.intercalate_singleton
  have hparse : Range.parse (toString c) = .ok r.reread := by
    rw [← hprint]
    exact parse_toString_eq (List.cons_ne_nil _ _)
  have hshape : Shape.reread (.conjunction c) = .conjunction c :=
    Shape.reread_of_ne_nil (List.cons_ne_nil _ _)
  refine ⟨[.bounds (toString c)], ?_⟩
  simp only [run, Step.yield, branches, hparse, List.foldl_cons, List.foldl_nil, List.nil_append,
    List.mem_flatMap]
  refine ⟨_, List.mem_cons_self, ?_⟩
  simp [boundsOf, hshape, c, Conjunction.comparators]

/-! ## What comes up -/

/-- **Sessions bring up the versions of the grammar, and no others.** -/
theorem run_iff_isGrammatical :
    (∀ t : Version.Fields, (∃ steps, ∃ v ∈ run steps, v.fields = t) ↔ t.IsGrammatical)
    ∧ ∀ steps, ∀ v ∈ run steps, Version.parse (toString v)
      = if (toString v).utf8ByteSize ≤ 256 then .ok v else .error .tooLong := by
  refine ⟨fun t => ?_, fun _ v _ => Version.parse_text v⟩
  rw [← Version.exists_fields_eq_iff]
  constructor
  · rintro ⟨_, v, -, hv⟩
    exact ⟨v, hv⟩
  · rintro ⟨v, hv⟩
    obtain ⟨steps, hsteps⟩ := exists_mem_run v
    exact ⟨steps, v, hsteps, hv⟩

/-- The ceiling of a tilde range with a pre-release and a build, stepped up and read back. -/
theorem run_iff_isGrammatical_ceiling :
    let steps : List Session.Step := [.bounds "~01.x-a+07", .advance 1 .preRelease]
    let v : Version := ⟨.ofNat 2, .zero, .zero, [.numeric (.ofNat 1)], []⟩
    v ∈ run steps ∧ v.fields.IsGrammatical
      ∧ Version.parse (toString v) = .ok v := by
  intro steps v
  have hmem : v ∈ run steps := by decide
  refine ⟨hmem, (run_iff_isGrammatical.1 v.fields).1 ⟨steps, v, hmem, rfl⟩, ?_⟩
  rw [run_iff_isGrammatical.2 steps v hmem, if_pos (by decide)]

end Session

end Versioning
