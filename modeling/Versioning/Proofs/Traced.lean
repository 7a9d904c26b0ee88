import Versioning.Proofs.Cursor
import Versioning.Range.Operand

set_option autoImplicit false

/-! # What a reader does on the way

A reader looks at bytes, steps over them and takes slices; it puts operands together, counts their
components up and subtracts from their number. Each such act is safe under a condition only
(`Act.IsSafe`) and ends the program outside of it. A traced reader is written as its acts go one
after the other, and gives all of them together with its result.

`Traced.Ends` is what can be said of a whole reading: nothing in it fails, and the result is as it
should be. For a reader that may have no result, `Follows` compares the result with that of another
one, which is free of acts. Both are proved along the way the traced reader is put together, with
one rule for each way of doing that. -/

namespace Versioning

open Text

/-! ## Acts -/

/-- What a reader does that is not safe everywhere. -/
inductive Act
  /-- Look for a byte at a position of a text. -/
  | look (text : String) (pos : Nat)
  /-- Step over the byte at a position of a text. -/
  | step (text : String) (pos : Nat)
  /-- Take the part of a text between two positions. -/
  | slice (text : String) (start stop : Nat)
  /-- Put an operand together. -/
  | build (p : Range.Operand)
  /-- Count up the component of an operand at a place. -/
  | countUp (p : Range.Operand) (place : Nat)
  /-- Subtract one from a number. -/
  | subtractOne (n : Nat)

/-- Whether an act is safe. A reader stays on the boundaries between characters, also where it only
    looks. -/
def Act.IsSafe : Act → Prop
  | look text pos => IsBoundary text pos
  | step text pos =>
      IsBoundary text pos ∧ IsBoundary text (pos + 1) ∧ ∃ b ∈ byte? text pos, b.toNat < 128
  | slice text start stop => start ≤ stop ∧ IsBoundary text start ∧ IsBoundary text stop
  | build p => p.components.length ≤ 3
  | countUp p place => place ≤ 2 ∧ place < p.components.length
  | subtractOne n => 0 < n

/-! ## Traced readers -/

/-- A result, with what was done for it. -/
structure Traced (α : Type) where
  result : α
  acts : List Act

namespace Traced

variable {α β : Type}

instance : Monad Traced where
  pure a := ⟨a, []⟩
  bind x f := ⟨(f x.result).result, x.acts ++ (f x.result).acts⟩

instance : LawfulMonad Traced :=
  LawfulMonad.mk' Traced
    (fun x => by simp [Functor.map])
    (fun _ _ => rfl)
    (fun x f g => by simp [Bind.bind, List.append_assoc])

theorem result_bind (x : Traced α) (f : α → Traced β) :
    (x >>= f).result = (f x.result).result := rfl

theorem acts_bind (x : Traced α) (f : α → Traced β) :
    (x >>= f).acts = x.acts ++ (f x.result).acts := rfl

/-- Do an act. -/
def act (a : Act) : Traced Unit := ⟨(), [a]⟩

/-- Take the part of a text between two positions. -/
def slice (text : String) (start stop : Nat) : Traced String := do
  act (.slice text start stop)
  return Text.slice text start stop

/-- Subtract one from a number. -/
def subtractOne (n : Nat) : Traced Nat := do
  act (.subtractOne n)
  return n - 1

/-- Try a reader that may fail, and go on either way. -/
def attempt (x : OptionT Traced α) : OptionT Traced (Option α) :=
  OptionT.lift x.run

/-! ## Ends -/

/-- All acts are safe, and the result is as it should be. -/
structure Ends (x : Traced α) (P : α → Prop) : Prop where
  safe : ∀ a ∈ x.acts, a.IsSafe
  result : P x.result

theorem Ends.pure {P : α → Prop} {a : α} (h : P a) : Ends (Pure.pure a) P where
  safe := nofun
  result := h

theorem Ends.bind {P : α → Prop} {Q : β → Prop} {x : Traced α} {f : α → Traced β} (hx : x.Ends P)
    (hf : ∀ a, P a → (f a).Ends Q) : Ends (x >>= f) Q where
  safe a ha := (List.mem_append.1 ha).elim (hx.safe a) ((hf _ hx.result).safe a)
  result := (hf _ hx.result).result

theorem Ends.act {Q : β → Prop} {a : Act} {f : Unit → Traced β} (ha : a.IsSafe)
    (hf : (f ()).Ends Q) : Ends (act a >>= f) Q where
  safe b hb := (List.mem_cons.1 hb).elim (fun hab => hab ▸ ha) (hf.safe b)
  result := hf.result

theorem Ends.mono {P Q : α → Prop} {x : Traced α} (h : x.Ends P) (hPQ : ∀ a, P a → Q a) :
    x.Ends Q where
  safe := h.safe
  result := hPQ _ h.result

theorem Ends.mapM {f : α → β} {g : α → Traced β} (h : ∀ a, (g a).Ends (· = f a)) (as : List α) :
    (as.mapM g).Ends (· = as.map f) := by
  induction as with
  | nil => exact .pure rfl
  | cons a as ih =>
      rw [List.mapM_cons, List.map_cons]
      refine (h a).bind ?_
      rintro _ rfl
      refine ih.bind ?_
      rintro _ rfl
      exact .pure rfl

theorem slice_ends {text : String} {start stop : Nat} {mid back : List Char}
    (h : Behind text start (mid ++ back)) (h' : Behind text stop back) :
    (slice text start stop).Ends (· = String.ofList mid) :=
  .act ⟨(h.slice h').1, h.isBoundary, h'.isBoundary⟩ (.pure (h.slice h').2)

theorem subtractOne_ends {n : Nat} (h : 0 < n) : (subtractOne n).Ends (· = n - 1) :=
  .act h (.pure rfl)

end Traced

/-! ## Following another reader -/

/-- A traced reader is safe. It fails where another one fails, and else their results are
    related. -/
def Follows {α β : Type} (R : α → β → Prop) (m : Option α) (x : OptionT Traced β) : Prop :=
  x.run.Ends (Option.Rel R m)

namespace Follows

variable {α β γ δ : Type} {R : α → β → Prop} {S : γ → δ → Prop} {m : Option α}
  {x : OptionT Traced β}

theorem pure {a : α} {b : β} (h : R a b) : Follows R (some a) (Pure.pure b) :=
  Traced.Ends.pure (.some h)

theorem failure : Follows R none failure :=
  Traced.Ends.pure .none

/-- What is read without any act may be read in place. -/
theorem getM (m : Option α) : Follows Eq m (m.getM : OptionT Traced α) := by
  cases m with
  | none => exact failure
  | some a => exact pure rfl

/-! ### One reader after another -/

theorem bind {f : α → Option γ} {g : β → OptionT Traced δ} (hx : Follows R m x)
    (hg : ∀ a b, m = some a → R a b → Follows S (f a) (g b)) : Follows S (m >>= f) (x >>= g) := by
  rw [Follows, OptionT.run_bind]
  refine Traced.Ends.bind hx fun r hr => ?_
  cases hr with
  | some hab => exact hg _ _ rfl hab
  | none => exact failure

/-- The traced reader may go on without the other one. -/
theorem andThen {S : α → δ → Prop} {g : β → OptionT Traced δ} (hx : Follows R m x)
    (hg : ∀ a b, m = some a → R a b → Follows S (some a) (g b)) : Follows S m (x >>= g) :=
  Option.bind_fun_some m ▸ hx.bind hg

/-- The other reader may go on without the traced one. -/
theorem map {S : γ → β → Prop} {f : α → γ} (hx : Follows R m x)
    (hf : ∀ a b, R a b → S (f a) b) : Follows S (m.map f) x := by
  refine Traced.Ends.mono hx fun r hr => ?_
  cases hr with
  | some hab => exact .some (hf _ _ hab)
  | none => exact .none

/-- Both readers may go on with the same function. -/
theorem mapped {x : OptionT Traced α} (hx : Follows Eq m x) (f : α → γ) :
    Follows Eq (m.map f) (x >>= fun a => Pure.pure (f a)) := by
  rw [Option.map_eq_bind]
  refine hx.bind ?_
  rintro a _ - rfl
  exact pure rfl

/-- A traced reader that cannot fail comes first. -/
theorem lift {n : Option γ} {P : β → Prop} {y : Traced β} {g : β → OptionT Traced δ}
    (hy : y.Ends P) (hg : ∀ b, P b → Follows S n (g b)) : Follows S n (liftM y >>= g) := by
  have hrun : (liftM y : OptionT Traced β).run.Ends fun r => ∃ b, r = some b ∧ P b :=
    hy.bind fun b hb => .pure ⟨b, rfl, hb⟩
  rw [Follows, OptionT.run_bind]
  refine Traced.Ends.bind hrun ?_
  rintro _ ⟨b, rfl, hb⟩
  exact hg b hb

theorem act {n : Option γ} {a : Act} {g : Unit → OptionT Traced δ} (ha : a.IsSafe)
    (hg : Follows S n (g ())) : Follows S n (liftM (Traced.act a) >>= g) := by
  have hact : (Traced.act a).Ends fun _ => True :=
    ⟨fun b hb => List.mem_singleton.1 hb ▸ ha, trivial⟩
  exact lift hact fun _ _ => hg

/-! ### Failures that are dealt with -/

/-- Outside of a traced reader its failure is a result like others. -/
theorem ends {P : γ → Prop} {f : Option β → Traced γ} (hx : Follows R m x)
    (hnone : m = none → (f none).Ends P)
    (hsome : ∀ a b, m = some a → R a b → (f (some b)).Ends P) : (x.run >>= f).Ends P := by
  refine Traced.Ends.bind hx fun r hr => ?_
  cases hr with
  | some hab => exact hsome _ _ rfl hab
  | none => exact hnone rfl

theorem attempt {n : Option γ} {g : Option β → OptionT Traced δ} (hx : Follows R m x)
    (hnone : m = none → Follows S n (g none))
    (hsome : ∀ a b, m = some a → R a b → Follows S n (g (some b))) :
    Follows S n (Traced.attempt x >>= g) := by
  refine lift hx fun r hr => ?_
  cases hr with
  | some hab => exact hsome _ _ rfl hab
  | none => exact hnone rfl

end Follows

end Versioning
