import Versioning.Text.Blank

set_option autoImplicit false

/-! # Control characters and sequences

A text may hold control characters, alone or at the head of a control sequence such as `ESC [ 1 m`,
which a terminal would obey and not show. `withoutControls` leaves out both, so that a terminal
shows all that is left. Blanks stay, and a text without controls stays as it is
(`withoutControls_eq_self`).

Sequences have the forms of terminals: an escape character with intermediate characters, with
parameters behind an opening bracket, or with a string. A text may end inside a sequence. A blank
that is a control (a line end, say) does not end a sequence but suspends it: what follows is plain
up to the next control character that is no blank, where the sequence goes on. -/

namespace Versioning.Text

/-! ## Characters -/

/-- The control characters of ASCII. -/
def isControl (c : Char) : Bool :=
  c < ' ' || c == '\x7f'

/-- Whether a character is shown outside of sequences: blanks, and all that are no controls. -/
def isShown (c : Char) : Bool :=
  !isControl c || isAsciiBlank c

/-- Whether a character, in UTF-8, has the byte that terminates strings. -/
def hasTerminator (c : Char) : Bool :=
  (String.utf8EncodeChar c).contains 0x9C

/-! ## Sequences -/

/-- How far a control sequence has come. -/
inductive Sequence
  | escape
  | intermediate
  /-- Among the parameters behind an opening bracket. -/
  | parameters
  /-- In a command string, which a bell ends. -/
  | command
  /-- At the head of a device string. -/
  | device
  /-- Among the parameters of a device string. -/
  | deviceParameters
  /-- Among the intermediate characters of a device string. -/
  | deviceIntermediate
  /-- In a string that ends with the byte that terminates strings. -/
  | string
deriving DecidableEq

namespace Sequence

/-- Whether control characters that are blanks are shown amid a sequence. -/
def showsBlanks : Sequence → Bool
  | escape | intermediate | parameters => true
  | command | device | deviceParameters | deviceIntermediate | string => false

/-- How far a sequence comes with a further character; none if the character ends it. A character
    that has no place in a sequence leaves it where it is. -/
def next? (s : Sequence) (c : Char) : Option Sequence :=
  match s with
  | escape =>
      if ' ' ≤ c && c ≤ '/' then some intermediate
      else if c == '[' then some parameters
      else if c == ']' then some command
      else if c == 'P' then some device
      else if c == 'X' || c == '^' || c == '_' then some string
      else if '0' ≤ c && c ≤ '~' then none
      else some escape
  | intermediate => if '0' ≤ c && c ≤ '~' then none else some intermediate
  | parameters => if '@' ≤ c && c ≤ '~' then none else some parameters
  | command => if c == '\x07' then none else some command
  | device =>
      if ' ' ≤ c && c ≤ '/' then some deviceIntermediate
      else if '0' ≤ c && c ≤ '?' then some deviceParameters
      else if '@' ≤ c && c ≤ '~' then some string
      else some device
  | deviceParameters =>
      if ' ' ≤ c && c ≤ '/' then some deviceIntermediate
      else if '<' ≤ c && c ≤ '~' then some string
      else some deviceParameters
  | deviceIntermediate => if '0' ≤ c && c ≤ '~' then some string else some deviceIntermediate
  | string => if hasTerminator c then none else some string

end Sequence

/-! ## Reading over a text -/

/-- Where the reading of a text stands. -/
inductive Standing
  | plain
  | inside (s : Sequence)
  /-- In plain text that suspends a sequence. -/
  | suspended (s : Sequence)
deriving DecidableEq

namespace Standing

/-- Step over a character inside a sequence; the flag tells whether the character is shown. An
    escape character starts another sequence, and the controls `CAN` and `SUB` end any. -/
def stepInside (s : Sequence) (c : Char) : Bool × Standing :=
  if c == '\x1b' then (false, inside .escape)
  else if c == '\x18' || c == '\x1a' then (false, plain)
  else if isControl c && isAsciiBlank c && s.showsBlanks then (true, suspended s)
  else (false, (s.next? c).elim plain inside)

/-- Step over a character; the flag tells whether it is shown. Suspended sequences are given up at
    the first character that is not ASCII. -/
def step (standing : Standing) (c : Char) : Bool × Standing :=
  match standing with
  | plain => if c == '\x1b' then (false, inside .escape) else (isShown c, plain)
  | inside s => stepInside s c
  | suspended s =>
      if isShown c then (true, if c ≤ '\x7f' then suspended s else plain) else stepInside s c

/-- The characters of a text that are shown. -/
def shown (standing : Standing) : List Char → List Char
  | [] => []
  | c :: cs =>
      let (isShown, next) := standing.step c
      if isShown then c :: next.shown cs else next.shown cs

theorem isShown_of_step {standing : Standing} {c : Char} (h : (standing.step c).1 = true) :
    isShown c = true := by
  -- Inside a sequence, nothing but a blank that it shows is shown.
  have inside (s : Sequence) (h : (stepInside s c).1 = true) : isShown c = true := by
    unfold stepInside at h
    split at h
    · cases h
    · split at h
      · cases h
      · split at h
        · next hc =>
            simp only [Bool.and_eq_true] at hc
            simp [isShown, hc.1.2]
        · cases h
  cases standing with
  | plain =>
      simp only [step] at h
      split at h
      · cases h
      · exact h
  | inside s => exact inside s h
  | suspended s =>
      simp only [step] at h
      split at h
      · assumption
      · exact inside s h

theorem isShown_of_mem {standing : Standing} {c : Char} {cs : List Char}
    (h : c ∈ standing.shown cs) : isShown c = true := by
  induction cs generalizing standing with
  | nil => cases h
  | cons d cs ih =>
      simp only [shown] at h
      split at h
      · next hd =>
          rcases List.mem_cons.1 h with rfl | h
          · exact isShown_of_step hd
          · exact ih h
      · exact ih h

theorem step_plain {c : Char} (h : isShown c = true) : plain.step c = (true, plain) := by
  have hc : (c == '\x1b') = false := by
    rw [beq_eq_false_iff_ne]
    rintro rfl
    exact absurd h (by decide)
  simp [step, hc, h]

end Standing

/-! ## Texts without controls -/

/-- A text without control characters other than blanks, and without control sequences. -/
def withoutControls (cs : List Char) : List Char :=
  Standing.plain.shown cs

theorem isShown_of_mem_withoutControls {c : Char} {cs : List Char} (h : c ∈ withoutControls cs) :
    isShown c = true :=
  Standing.isShown_of_mem h

theorem withoutControls_eq_self {cs : List Char} (h : ∀ c ∈ cs, isShown c = true) :
    withoutControls cs = cs := by
  unfold withoutControls
  induction cs with
  | nil => rfl
  | cons c cs ih =>
      rw [Standing.shown, Standing.step_plain (h c List.mem_cons_self)]
      exact congrArg (c :: ·) (ih fun d hd => h d (List.mem_cons_of_mem _ hd))

end Versioning.Text
