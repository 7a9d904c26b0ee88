set_option autoImplicit false

/-! # Canonical decimal numerals

The components of a version are natural numbers of any length that are printed back exactly as they
were read. A `Numeral` therefore keeps its digits, and its type says that they are canonical: at
least one ASCII digit, and no superfluous leading zero. `ofChars?` accepts exactly the canonical
digits, and `ofDigits?` any run of digits, of which it drops the superfluous zeros.

Arithmetic is bounded. `next?` and `previous?` work on values that fit a 64-bit word and fail
outside of it. -/

namespace Versioning

/-! ## Canonical digits -/

/-- A non-empty run of ASCII digits that starts with `0` only when it is `0`. -/
def IsCanonical (ds : List Char) : Prop :=
  ds ≠ [] ∧ (∀ c ∈ ds, c.isDigit = true) ∧ (ds.head? = some '0' → ds = ['0'])

/-- The test whether a text is a canonical run of digits. -/
def isCanonical (ds : List Char) : Bool :=
  !ds.isEmpty && ds.all Char.isDigit && (ds.head? != some '0' || ds == ['0'])

theorem isCanonical_iff {ds : List Char} : isCanonical ds = true ↔ IsCanonical ds := by
  simp [isCanonical, IsCanonical, Decidable.imp_iff_not_or, and_assoc]

instance (ds : List Char) : Decidable (IsCanonical ds) :=
  decidable_of_iff _ isCanonical_iff

/-- A decimal numeral of any length, without superfluous leading zeros. -/
structure Numeral where
  /-- The digits as they are written, the most significant first. -/
  digits : List Char
  canonical : IsCanonical digits
deriving DecidableEq

namespace Numeral

instance : ToString Numeral := ⟨fun n => String.ofList n.digits⟩

theorem ext {m n : Numeral} (h : m.digits = n.digits) : m = n := by
  cases m; cases n; cases h; rfl

/-- The number that a numeral writes. -/
def value (n : Numeral) : Nat :=
  Nat.ofDigitChars 10 n.digits 0

/-! ## Reading -/

/-- The numeral that is written exactly so, if the digits are canonical. -/
def ofChars? (cs : List Char) : Option Numeral :=
  if h : IsCanonical cs then some ⟨cs, h⟩ else none

theorem ofChars?_eq_some_iff {cs : List Char} {n : Numeral} :
    ofChars? cs = some n ↔ cs = n.digits := by
  unfold ofChars?
  constructor
  · intro h
    split at h
    · exact congrArg Numeral.digits (Option.some.inj h)
    · cases h
  · rintro rfl
    simp [n.canonical]

@[simp] theorem ofChars?_digits (n : Numeral) : ofChars? n.digits = some n :=
  ofChars?_eq_some_iff.2 rfl

/-- A digit run without its leading zeros; of a run of zeros, one is kept. -/
def stripZeros (ds : List Char) : List Char :=
  match ds.dropWhile (· == '0') with
  | [] => ['0']
  | d :: rest => d :: rest

theorem isCanonical_stripZeros {ds : List Char} (h : ∀ c ∈ ds, c.isDigit = true) :
    IsCanonical (stripZeros ds) := by
  unfold stripZeros
  split
  · decide
  · next d rest hd =>
      refine ⟨List.cons_ne_nil _ _, fun c hc => h c ?_, fun h0 => ?_⟩
      · rw [← hd] at hc
        exact (List.dropWhile_sublist _).mem hc
      · have hhead := List.head?_dropWhile_not (· == '0') ds
        rw [hd] at hhead
        simp only [List.head?_cons, Option.some.injEq] at h0
        simp [h0] at hhead

/-- The numeral of a non-empty digit run, whatever zeros it starts with. -/
def ofDigits? (ds : List Char) : Option Numeral :=
  if h : ds.all Char.isDigit = true then
    if ds.isEmpty then none else some ⟨stripZeros ds, isCanonical_stripZeros (List.all_eq_true.1 h)⟩
  else none

/-- Canonical digits have no zeros to drop. -/
theorem stripZeros_of_isCanonical {ds : List Char} (h : IsCanonical ds) : stripZeros ds = ds := by
  obtain ⟨hne, -, hzero⟩ := h
  cases ds with
  | nil => exact absurd rfl hne
  | cons c cs =>
      by_cases hc : c = '0'
      · rw [hzero (congrArg some hc)]
        rfl
      · rw [stripZeros, List.dropWhile_cons_of_neg (by simpa using hc)]

@[simp] theorem ofDigits?_digits (n : Numeral) : ofDigits? n.digits = some n := by
  have hne : n.digits.isEmpty = false := by simpa using n.canonical.1
  rw [ofDigits?, dif_pos (List.all_eq_true.2 n.canonical.2.1), hne]
  exact congrArg some (ext (stripZeros_of_isCanonical n.canonical))

/-- Only a run of digits that is not empty has a numeral. -/
theorem of_ofDigits?_eq_some {ds : List Char} {n : Numeral} (h : ofDigits? ds = some n) :
    ds ≠ [] ∧ ∀ c ∈ ds, c.isDigit = true := by
  unfold ofDigits? at h
  split at h
  · next hall =>
      split at h
      · cases h
      · next hne => exact ⟨by simpa using hne, List.all_eq_true.1 hall⟩
  · cases h

/-! ## Numerals of numbers -/

theorem isCanonical_toDigits (k : Nat) : IsCanonical (Nat.toDigits 10 k) := by
  refine ⟨Nat.toDigits_ne_nil,
    fun c hc => Nat.isDigit_of_mem_toDigits (by decide) (by decide) hc, ?_⟩
  induction k using Nat.strongRecOn with
  | ind k ih =>
      intro h0
      by_cases hk : k < 10
      · rw [Nat.toDigits_of_lt_base hk] at h0 ⊢
        simpa using h0
      · have hsplit := Nat.toDigits_of_base_le (b := 10) (by decide) (Nat.le_of_not_lt hk)
        have hpos : 0 < k / 10 := by omega
        obtain ⟨d, ds, hcons⟩ := List.exists_cons_of_ne_nil (Nat.toDigits_ne_nil (n := k / 10))
        have hzero := ih (k / 10) (by omega) (by
          rw [hsplit, hcons] at h0
          rw [hcons]
          exact h0)
        have hvalue := Nat.ofDigitChars_ten_toDigits (n := k / 10)
        rw [hzero] at hvalue
        have : Nat.ofDigitChars 10 ['0'] 0 = 0 := by decide
        omega

/-- The numeral of a natural number. -/
def ofNat (k : Nat) : Numeral :=
  ⟨Nat.toDigits 10 k, isCanonical_toDigits k⟩

/-- The numeral `0`. -/
def zero : Numeral := ⟨['0'], by decide⟩

@[simp] theorem value_ofNat (k : Nat) : (ofNat k).value = k :=
  Nat.ofDigitChars_ten_toDigits

/-! ## Bounded steps -/

/-- The number of values of a 64-bit word, two to the power of 64. -/
def wordSize : Nat := 18446744073709551616

/-- The numeral one above, if it still fits a 64-bit word. -/
def next? (n : Numeral) : Option Numeral :=
  if n.value + 1 < wordSize then some (ofNat (n.value + 1)) else none

/-- The numeral one below, unless the numeral is zero or does not fit a 64-bit word itself. -/
def previous? (n : Numeral) : Option Numeral :=
  if 0 < n.value ∧ n.value < wordSize then some (ofNat (n.value - 1)) else none

end Numeral

end Versioning
