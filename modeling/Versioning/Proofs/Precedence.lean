import Mathlib.Data.List.Lex
import Mathlib.Data.Prod.Lex
import Mathlib.Data.Sum.Order
import Mathlib.Order.WithBot
import Versioning.Version.Precedence

set_option autoImplicit false

/-! # Precedence is the order of ranks

The rank of a version says where the version stands without comparing it to another one, and is
read off the texts of the version. Numerals rank as the numbers they write. A pre-release text is
taken apart at its dots: a piece that is all digits ranks as its number, any other piece ranks above
all numbers and by its bytes, and the list of pieces ranks lexicographically, so that a proper
beginning of it is lower. A version without a pre-release ranks above those that have one.

`Version.compare_eq_compare_rank` says that comparing versions is comparing ranks. The digits of
numerals are never evaluated by the comparison, so this needs that they are canonical
(`Numeral.compare_eq`); bytes may stand for characters because words are ASCII. -/

namespace Versioning

/-! ## Ranks -/

/-- The bytes of a text in UTF-8, as numbers. -/
def utf8 (cs : List Char) : List ℕ :=
  (cs.flatMap String.utf8EncodeChar).map UInt8.toNat

/-- The rank of a piece of a pre-release: its number if it is all digits, else its bytes, which rank
    above all numbers. -/
def pieceRank (piece : List Char) : ℕ ⊕ₗ List ℕ :=
  if piece.all Char.isDigit then toLex (.inl (Nat.ofDigitChars 10 piece 0))
  else toLex (.inr (utf8 piece))

/-- The rank of a pre-release text: piece by piece, and the highest of all if there is no text. -/
def preReleaseRank : Option String → WithTop (List (ℕ ⊕ₗ List ℕ))
  | none => ⊤
  | some text => ((text.toList.splitOn '.').map pieceRank : List _)

/-- Where a version ranks: by its three numbers, then by its pre-release. -/
def Version.rank (v : Version) : ℕ ×ₗ ℕ ×ₗ ℕ ×ₗ WithTop (List (ℕ ⊕ₗ List ℕ)) :=
  toLex (v.major.value, toLex (v.minor.value, toLex (v.patch.value,
    preReleaseRank v.preReleaseText?)))

/-! ## Comparisons that are read off an image

`o.Compares x y` says that `x` stands to `y` as `o` says. Each lemma below shows so for the images
of what was compared, from the parts up to the whole version. -/

section Compares

open Ordering

theorem compares_nat (m n : ℕ) : (compare m n).Compares m n := by
  rw [← cmp_eq_compare]
  exact cmp_compares m n

/-- Pairs compare by their first parts, and by their second parts if the first are equal. -/
theorem compares_toLex {α β : Type} [LinearOrder α] [LinearOrder β] {o o' : Ordering} {x x' : α}
    {y y' : β} (h : o.Compares x x') (h' : o'.Compares y y') :
    (o.then o').Compares (toLex (x, y)) (toLex (x', y')) := by
  cases o with
  | lt => exact Prod.Lex.toLex_lt_toLex.2 (Or.inl h)
  | gt => exact Prod.Lex.toLex_lt_toLex.2 (Or.inl h)
  | eq =>
      have hx : x = x' := h
      subst hx
      cases o' with
      | lt => exact Prod.Lex.toLex_lt_toLex.2 (Or.inr ⟨rfl, h'⟩)
      | gt => exact Prod.Lex.toLex_lt_toLex.2 (Or.inr ⟨rfl, h'⟩)
      | eq => exact congrArg (fun z => toLex (x, z)) h'

/-- Lists compare by their heads, and by their tails if the heads are equal. -/
theorem compares_cons {α : Type} [LinearOrder α] {o o' : Ordering} {x x' : α} {xs xs' : List α}
    (h : o.Compares x x') (h' : o'.Compares xs xs') :
    (o.then o').Compares (x :: xs) (x' :: xs') := by
  cases o with
  | lt => exact List.cons_lt_cons_iff.2 (Or.inl h)
  | gt => exact List.cons_lt_cons_iff.2 (Or.inl h)
  | eq =>
      have hx : x = x' := h
      subst hx
      cases o' with
      | lt => exact List.cons_lt_cons_iff.2 (Or.inr ⟨rfl, h'⟩)
      | gt => exact List.cons_lt_cons_iff.2 (Or.inr ⟨rfl, h'⟩)
      | eq => exact congrArg (List.cons x) h'

/-- Lists compare as their images if their elements do. -/
theorem compares_map {α β : Type} [Ord α] [LinearOrder β] {f : α → β} {xs ys : List α}
    (h : ∀ x ∈ xs, ∀ y ∈ ys, (compare x y).Compares (f x) (f y)) :
    (compare xs ys).Compares (xs.map f) (ys.map f) := by
  -- Both lists are walked at once: where one of them runs out first, so does its image.
  induction xs generalizing ys with
  | nil =>
      cases ys with
      | nil => exact rfl
      | cons y ys =>
          rw [List.compare_nil_cons]
          exact List.nil_lt_cons _ _
  | cons x xs ih =>
      cases ys with
      | nil =>
          rw [List.compare_cons_nil]
          exact List.nil_lt_cons _ _
      | cons y ys =>
          have hhead := h x List.mem_cons_self y List.mem_cons_self
          have htail := ih (fun x hx y hy =>
            h x (List.mem_cons_of_mem _ hx) y (List.mem_cons_of_mem _ hy))
          rw [List.compare_cons_cons]
          exact compares_cons hhead htail

/-! ## Words and their bytes -/

/-- The bytes of a word are its code points. -/
theorem utf8_eq_map_toNat {cs : List Char} (h : ∀ c ∈ cs, isWordChar c = true) :
    utf8 cs = cs.map Char.toNat := by
  induction cs with
  | nil => rfl
  | cons c cs ih =>
      have hc : c.toNat ≤ 127 := by
        rcases toNat_of_isWordChar (h c List.mem_cons_self) with hc | hc | hc | hc <;> omega
      have hbytes : String.utf8EncodeChar c = [UInt8.ofNat c.toNat] := if_pos hc
      have htail := ih (fun d hd => h d (List.mem_cons_of_mem _ hd))
      simp only [utf8] at htail
      rw [utf8, List.flatMap_cons, List.map_append, htail, hbytes, List.map_cons, List.map_cons]
      simp only [List.map_nil, List.cons_append, List.nil_append, List.cons.injEq, and_true]
      exact Nat.mod_eq_of_lt (by omega)

/-- Words compare by their bytes. -/
theorem compares_utf8 {cs ds : List Char} (hc : ∀ c ∈ cs, isWordChar c = true)
    (hd : ∀ c ∈ ds, isWordChar c = true) : (compare cs ds).Compares (utf8 cs) (utf8 ds) := by
  rw [utf8_eq_map_toNat hc, utf8_eq_map_toNat hd]
  refine compares_map (fun c _ d _ => ?_)
  rw [Numeral.compare_char]
  exact compares_nat c.toNat d.toNat

/-! ## Identifiers -/

theorem pieceRank_digits (n : Numeral) : pieceRank n.digits = toLex (.inl n.value) :=
  if_pos (List.all_eq_true.2 n.canonical.2.1)

theorem pieceRank_word {w : Word} (h : w.chars.all Char.isDigit = false) :
    pieceRank w.chars = toLex (.inr (utf8 w.chars)) :=
  if_neg (ne_true_of_eq_false h)

theorem compares_pieceRank (i j : Identifier) :
    (compare i j).Compares (pieceRank i.chars) (pieceRank j.chars) := by
  cases i with
  | numeric m =>
      cases j with
      | numeric n =>
          -- Digits are compared without being evaluated; canonical ones compare as their values.
          have hvalue := compares_nat m.value n.value
          rw [← Numeral.compare_eq] at hvalue
          show (compare m n).Compares (pieceRank m.digits) (pieceRank n.digits)
          rw [pieceRank_digits, pieceRank_digits]
          exact Sum.Lex.inl_strictMono.compares.2 hvalue
      | alphanumeric w hw =>
          show pieceRank m.digits < pieceRank w.chars
          rw [pieceRank_digits, pieceRank_word hw]
          exact Sum.Lex.inl_lt_inr _ _
  | alphanumeric v hv =>
      cases j with
      | numeric n =>
          show pieceRank n.digits < pieceRank v.chars
          rw [pieceRank_digits, pieceRank_word hv]
          exact Sum.Lex.inl_lt_inr _ _
      | alphanumeric w hw =>
          show (compare v.chars w.chars).Compares (pieceRank v.chars) (pieceRank w.chars)
          rw [pieceRank_word hv, pieceRank_word hw]
          exact Sum.Lex.inr_strictMono.compares.2 (compares_utf8 v.isWord.2 w.isWord.2)

/-! ## Pre-releases -/

theorem preReleaseRank_of_eq_nil {v : Version} (h : v.preRelease = []) :
    preReleaseRank v.preReleaseText? = ⊤ := by
  rw [Version.preReleaseText?, h]
  rfl

/-- The pieces of a pre-release text are its identifiers, as no identifier holds a dot. -/
theorem preReleaseRank_of_ne_nil {v : Version} (h : v.preRelease ≠ []) :
    preReleaseRank v.preReleaseText?
      = (v.preRelease.map (fun i => pieceRank i.chars) : List (ℕ ⊕ₗ List ℕ)) := by
  have hdots : ∀ piece ∈ v.preRelease.map Identifier.chars, '.' ∉ piece := by
    intro piece hpiece hdot
    obtain ⟨i, _, rfl⟩ := List.mem_map.1 hpiece
    exact absurd (Identifier.isWordChar_of_mem_chars hdot) (by decide)
  have hsplit : (Text.dotted (v.preRelease.map Identifier.chars)).splitOn '.'
      = v.preRelease.map Identifier.chars :=
    List.splitOn_intercalate '.' hdots (by simpa using h)
  rw [Version.preReleaseText?, if_neg (by simpa using h), preReleaseRank, String.toList_ofList,
    hsplit, List.map_map]
  rfl

theorem compares_preReleaseRank (a b : Version) :
    (comparePreRelease a.preRelease b.preRelease).Compares (preReleaseRank a.preReleaseText?)
      (preReleaseRank b.preReleaseText?) := by
  cases ha : a.preRelease with
  | nil =>
      rw [preReleaseRank_of_eq_nil ha]
      cases hb : b.preRelease with
      | nil => exact (preReleaseRank_of_eq_nil hb).symm
      | cons j js =>
          rw [preReleaseRank_of_ne_nil (hb ▸ List.cons_ne_nil j js)]
          exact WithTop.coe_lt_top _
  | cons i is =>
      rw [preReleaseRank_of_ne_nil (ha ▸ List.cons_ne_nil i is)]
      cases hb : b.preRelease with
      | nil =>
          rw [preReleaseRank_of_eq_nil hb]
          exact WithTop.coe_lt_top _
      | cons j js =>
          rw [preReleaseRank_of_ne_nil (hb ▸ List.cons_ne_nil j js), ha, hb]
          exact WithTop.coe_strictMono.compares.2
            (compares_map fun i _ j _ => compares_pieceRank i j)

/-! ## Versions -/

theorem compares_rank (a b : Version) : (compare a b).Compares a.rank b.rank := by
  have hmajor := compares_nat a.major.value b.major.value
  have hminor := compares_nat a.minor.value b.minor.value
  have hpatch := compares_nat a.patch.value b.patch.value
  rw [← Numeral.compare_eq] at hmajor hminor hpatch
  exact compares_toLex hmajor (compares_toLex hminor
    (compares_toLex hpatch (compares_preReleaseRank a b)))

end Compares

/-- **Versions compare as their ranks.** -/
theorem Version.compare_eq_compare_rank (a b : Version) : compare a b = compare a.rank b.rank := by
  rw [← cmp_eq_compare a.rank b.rank]
  exact (compares_rank a b).cmp_eq.symm

end Versioning
