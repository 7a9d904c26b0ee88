import Versioning.Proofs.Scanner

set_option autoImplicit false

/-! # Every byte of a version is stepped over

The scanner goes from the start of a text to its end with no byte left out: where one of its
functions has a result, it has stepped over every byte from the position it was given to the one it
ends at (`Covers`). Functions that are called one after the other cover what lies between the first
position and the last, so a text that is read as a version is stepped over as a whole
(`step_mem_acts_parse`). -/

namespace Versioning.Scanner

open Text
open Traced (attempt slice result_bind acts_bind)

/-! ## Bytes between two positions -/

/-- All bytes between two positions are stepped over. -/
def StepsOver (text : String) (start stop : Nat) (acts : List Act) : Prop :=
  ∀ pos, start ≤ pos → pos < stop → Act.step text pos ∈ acts

namespace StepsOver

variable {text : String} {start mid stop : Nat} {as bs : List Act}

theorem append (h : StepsOver text start mid as) (h' : StepsOver text mid stop bs) :
    StepsOver text start stop (as ++ bs) := by
  intro pos hstart hstop
  rcases Nat.lt_or_ge pos mid with hmid | hmid
  · exact List.mem_append_left _ (h pos hstart hmid)
  · exact List.mem_append_right _ (h' pos hmid hstop)

theorem still (text : String) (start : Nat) (acts : List Act) : StepsOver text start start acts :=
  fun _ hstart hstop => absurd hstop (Nat.not_lt.2 hstart)

theorem step (text : String) (pos : Nat) : StepsOver text pos (pos + 1) [.step text pos] := by
  intro i hstart hstop
  obtain rfl : i = pos := by omega
  exact List.mem_singleton_self _

end StepsOver

/-! ## Readers that leave no byte out -/

/-- Where a reader has a result, it has stepped over all bytes up to the place where it ends. -/
def Covers {α : Type} (text : String) (start : Nat) (place : α → Nat) (x : OptionT Traced α) :
    Prop :=
  ∀ a, x.run.result = some a → StepsOver text start (place a) x.run.acts

namespace Covers

variable {text : String} {start : Nat} {α β : Type} {place : α → Nat} {place' : β → Nat}
  {x : OptionT Traced α}

theorem pure {a : α} (h : place a = start) : Covers text start place (Pure.pure a) := by
  rintro _ ⟨⟩
  exact h ▸ .still _ _ _

theorem failure : Covers text start place failure := nofun

theorem bind {g : α → OptionT Traced β} (hx : Covers text start place x)
    (hg : ∀ a, Covers text (place a) place' (g a)) : Covers text start place' (x >>= g) := by
  rw [Covers, OptionT.run_bind]
  intro b hb
  rw [Option.elimM, result_bind] at hb
  rw [Option.elimM, acts_bind]
  cases ha : x.run.result with
  | none =>
      rw [ha] at hb
      cases hb
  | some a =>
      rw [ha] at hb
      exact (hx a ha).append (hg a b hb)

theorem lift (place : α → Nat) {y : Traced α} {g : α → OptionT Traced β}
    (hy : StepsOver text start (place y.result) y.acts)
    (hg : ∀ a, Covers text (place a) place' (g a)) : Covers text start place' (liftM y >>= g) := by
  have hlift : Covers text start place (liftM y) := by
    rintro _ ⟨⟩
    exact hy.append (.still text (place y.result) [])
  exact hlift.bind hg

/-- What does not move the position may come first. -/
theorem still {y : Traced α} {g : α → OptionT Traced β} (hg : ∀ a, Covers text start place' (g a)) :
    Covers text start place' (liftM y >>= g) :=
  lift (fun _ => start) (.still text start y.acts) hg

theorem attempt {g : Option α → OptionT Traced β} (hx : Covers text start place x)
    (hnone : Covers text start place' (g none))
    (hsome : ∀ a, Covers text (place a) place' (g (some a))) :
    Covers text start place' (Traced.attempt x >>= g) := by
  have hrun : StepsOver text start (x.run.result.elim start place) x.run.acts := by
    cases ha : x.run.result with
    | none => exact .still _ _ _
    | some a => exact hx a ha
  refine lift (·.elim start place) hrun fun r => ?_
  cases r with
  | none => exact hnone
  | some a => exact hsome a

end Covers

/-! ## The scanner -/

section Scanner

variable {text : String}

theorem skip_stepsOver (text : String) (k : AsciiClass) (pos : Nat) :
    StepsOver text pos (skip text k pos).result.1 (skip text k pos).acts := by
  rw [skip, result_bind, acts_bind]
  split
  · exact .still _ _ _
  · split
    · have hrest := skip_stepsOver text k (pos + 1)
      exact (StepsOver.still _ _ _).append
        ((StepsOver.step text pos).append (hrest.append (.still _ _ _)))
    · exact .still _ _ _
termination_by text.utf8ByteSize - pos
decreasing_by exact Nat.sub_succ_lt_self _ _ (lt_of_byte? ‹_›)

theorem eat_covers (m : Char) (pos : Nat) : Covers text pos (·.1) (eat text m pos) := by
  refine .still fun _ => ?_
  split
  · exact .failure
  · split
    · exact .lift (fun _ => pos + 1) (.step text pos) fun _ => .pure rfl
    · exact .failure

theorem number_covers (pos : Nat) : Covers text pos (·.2) (number text pos) := by
  refine .lift Subtype.val (skip_stepsOver text .digit pos) ?_
  rintro ⟨stop, _⟩
  refine .still fun digits => ?_
  split
  · exact .failure
  · exact .pure rfl

theorem pieces_covers (strict : Bool) (pos : Nat) :
    Covers text pos id (pieces text strict pos) := by
  rw [pieces]
  refine .lift Subtype.val (skip_stepsOver text .word pos) ?_
  rintro ⟨stop, _⟩
  refine .still fun piece => ?_
  split
  · exact .failure
  · refine .attempt (eat_covers '.' stop) (.pure rfl) ?_
    rintro ⟨next, _⟩
    exact pieces_covers strict next
termination_by text.utf8ByteSize - pos
decreasing_by omega

theorem identifiers_covers (strict : Bool) (pos : Nat) :
    Covers text pos (·.2) (identifiers text strict pos) :=
  (pieces_covers strict pos).bind fun _ => .still fun _ => .pure rfl

theorem identifiersBehind_covers (m : Char) (strict : Bool) (pos : Nat) :
    Covers text pos (·.2) (identifiersBehind text m strict pos) := by
  refine .attempt (eat_covers m pos) (.pure rfl) ?_
  rintro ⟨start, _⟩
  exact (identifiers_covers strict start).bind fun _ => .pure rfl

theorem fields_covers (text : String) :
    Covers text 0 (fun _ => text.utf8ByteSize) (fields text) := by
  refine (number_covers 0).bind fun _ => ?_
  refine (eat_covers '.' _).bind fun _ => ?_
  refine (number_covers _).bind fun _ => ?_
  refine (eat_covers '.' _).bind fun _ => ?_
  refine (number_covers _).bind fun _ => ?_
  refine (identifiersBehind_covers '-' true _).bind fun _ => ?_
  refine (identifiersBehind_covers '+' false _).bind fun _ => ?_
  dsimp only
  split
  · next hend => exact .pure hend.symm
  · exact .failure

/-- **A version is not read without stepping over every byte of it.** -/
theorem step_mem_acts_parse {t : Version.Fields} (h : (parse text).result = .ok t) {pos : Nat}
    (hpos : pos < (Version.trimmed text).utf8ByteSize) :
    .step (Version.trimmed text) pos ∈ (parse text).acts := by
  rw [parse] at h ⊢
  split at h
  · cases h
  · rw [result_bind] at h
    rw [if_neg ‹_›, acts_bind]
    cases hfields : (fields (Version.trimmed text)).run.result with
    | none =>
        rw [hfields] at h
        cases h
    | some t' =>
        have hcovers := fields_covers _ t' hfields
        exact List.mem_append_left _ (hcovers pos (Nat.zero_le pos) hpos)

end Scanner

end Versioning.Scanner
