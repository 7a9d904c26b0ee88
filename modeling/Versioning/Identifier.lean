import Versioning.Numeral.Order

set_option autoImplicit false

/-! # Words and identifiers

Behind the three numerals a version may carry two lists. The build is a list of words over the ASCII
letters, digits and the hyphen. The pre-release is a list of identifiers, which are words too, but
an identifier that is all digits is a number and is written as a canonical numeral.

Both types carry their form, so the order below needs no hypothesis: numbers compare as numbers,
rank below every other identifier, and the others compare character by character. -/

namespace Versioning

/-! ## Words -/

/-- The alphabet of words: ASCII letters and digits, and the hyphen. -/
def isWordChar (c : Char) : Bool :=
  c.isAlphanum || c == '-'

/-- The code point of a word character is that of the hyphen, a digit or an ASCII letter. -/
theorem toNat_of_isWordChar {c : Char} (h : isWordChar c = true) :
    c.toNat = 45 ∨ (48 ≤ c.toNat ∧ c.toNat ≤ 57) ∨ (65 ≤ c.toNat ∧ c.toNat ≤ 90)
      ∨ (97 ≤ c.toNat ∧ c.toNat ≤ 122) := by
  unfold isWordChar Char.isAlphanum Char.isAlpha Char.isUpper Char.isLower at h
  simp only [Bool.or_eq_true, Bool.and_eq_true, decide_eq_true_eq, beq_iff_eq] at h
  rcases h with ((h | h) | h) | rfl
  · exact Or.inr (Or.inr (Or.inl h))
  · exact Or.inr (Or.inr (Or.inr h))
  · exact Or.inr (Or.inl (Char.isDigit_iff_toNat.1 h))
  · exact Or.inl rfl

/-- A non-empty text over the alphabet of words. -/
def IsWord (cs : List Char) : Prop :=
  cs ≠ [] ∧ ∀ c ∈ cs, isWordChar c = true

/-- The test whether a text is a word. -/
def isWord (cs : List Char) : Bool :=
  !cs.isEmpty && cs.all isWordChar

theorem isWord_iff {cs : List Char} : isWord cs = true ↔ IsWord cs := by
  simp [isWord, IsWord]

instance (cs : List Char) : Decidable (IsWord cs) :=
  decidable_of_iff _ isWord_iff

/-- A word, as it stands in the build of a version. -/
structure Word where
  chars : List Char
  isWord : IsWord chars
deriving DecidableEq

namespace Word

theorem ext {v w : Word} (h : v.chars = w.chars) : v = w := by
  cases v; cases w; cases h; rfl

/-- The word that is written exactly so. -/
def ofChars? (cs : List Char) : Option Word :=
  if h : IsWord cs then some ⟨cs, h⟩ else none

theorem ofChars?_eq_some_iff {cs : List Char} {w : Word} :
    ofChars? cs = some w ↔ cs = w.chars := by
  unfold ofChars?
  constructor
  · intro h
    split at h
    · exact congrArg Word.chars (Option.some.inj h)
    · cases h
  · rintro rfl
    simp [w.isWord]

@[simp] theorem ofChars?_chars (w : Word) : ofChars? w.chars = some w :=
  ofChars?_eq_some_iff.2 rfl

end Word

/-! ## Identifiers -/

/-- A pre-release identifier: a number, or a word that is not all digits. -/
inductive Identifier
  /-- A number, written as a canonical numeral. -/
  | numeric (n : Numeral)
  /-- A word in which some character is no digit. -/
  | alphanumeric (w : Word) (h : w.chars.all Char.isDigit = false)
deriving DecidableEq

namespace Identifier

/-- The characters that write an identifier. -/
def chars : Identifier → List Char
  | numeric n => n.digits
  | alphanumeric w _ => w.chars

/-- The identifier that is written exactly so. A run of digits has to be a canonical numeral. -/
def ofChars? (cs : List Char) : Option Identifier :=
  match h : cs.all Char.isDigit with
  | true => (Numeral.ofChars? cs).map numeric
  | false => if hw : IsWord cs then some (alphanumeric ⟨cs, hw⟩ h) else none

theorem ofChars?_chars (i : Identifier) : ofChars? i.chars = some i := by
  unfold ofChars?
  cases i with
  | numeric n =>
      split
      · exact congrArg (Option.map numeric) (Numeral.ofChars?_digits n)
      · next h => exact absurd (List.all_eq_true.2 n.canonical.2.1) (by simpa [chars] using h)
  | alphanumeric w hw =>
      split
      · next h => exact absurd (hw.symm.trans h) (by decide)
      · exact dif_pos w.isWord

theorem ofChars?_eq_some_iff {cs : List Char} {i : Identifier} :
    ofChars? cs = some i ↔ cs = i.chars := by
  constructor
  · intro h
    unfold ofChars? at h
    split at h
    · obtain ⟨n, hn, rfl⟩ := Option.map_eq_some_iff.1 h
      exact Numeral.ofChars?_eq_some_iff.1 hn
    · split at h
      · cases h; rfl
      · cases h
  · rintro rfl
    exact ofChars?_chars i

theorem isWordChar_of_mem_chars {i : Identifier} {c : Char} (h : c ∈ i.chars) :
    isWordChar c = true := by
  cases i with
  | numeric n =>
      simp only [isWordChar, Char.isAlphanum, n.canonical.2.1 c h, Bool.or_true, Bool.true_or]
  | alphanumeric w _ => exact w.isWord.2 c h

/-! ## Order -/

/-- Numbers rank below words; numbers compare by value, words by their characters. -/
instance : Ord Identifier where
  compare
    | numeric m, numeric n => compare m n
    | numeric _, alphanumeric .. => .lt
    | alphanumeric .., numeric _ => .gt
    | alphanumeric v _, alphanumeric w _ => compare v.chars w.chars

/-- The identifier `0`, the lowest of all. -/
def zero : Identifier := numeric Numeral.zero

end Identifier

end Versioning
