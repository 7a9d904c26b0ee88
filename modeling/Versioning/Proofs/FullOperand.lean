import Versioning.Proofs.Grammar

set_option autoImplicit false

/-! # Full operands

Versions and operands are read in two ways: a version from the left, step by step, and an operand by
cutting the text at its marks. The operand reader lets through more. It takes fewer components and
wildcards, a mark `v` in front, and zeros in front of a component. These are all the differences: a
plain full operand is the text of its floor (`Operand.floor_chars_of_isPlain`), so the two readers
agree on every text without blanks around it (`Version.parse_iff_isFull`). -/

namespace Versioning

namespace Range.Operand

/-! ## Plain texts -/

/-- The pieces of a text that stand for components: those between dots before any mark. -/
def corePieces (cs : List Char) : List (List Char) :=
  (cs.takeWhile fun c => c != '-' && c != '+').splitOn '.'

/-- A text without the mark `v` in front and without superfluous zeros in front of a component. -/
structure IsPlain (cs : List Char) : Prop where
  head : cs.head? ≠ some 'v'
  pieces : ∀ piece ∈ corePieces cs, piece.head? = some '0' → piece = ['0']

theorem unmarked_eq_self {cs : List Char} (h : cs.head? ≠ some 'v') : unmarked cs = cs := by
  unfold unmarked
  split
  · exact absurd rfl h
  · rfl

/-- Cutting at the first `+` and then at the first `-` leaves the text before any mark. -/
theorem corePieces_eq_splitOn_cut (cs : List Char) :
    corePieces cs = (Text.cut '-' (Text.cut '+' cs).1).1.splitOn '.' := by
  simp only [corePieces, Text.cut, List.takeWhile_takeWhile, Bool.decide_and, Bool.decide_eq_true]

/-! ## Components and lists of full operands -/

/-- Without superfluous zeros, a piece that gives a numeral is written like it. -/
theorem component?_eq_some_some {piece : List Char} {n : Numeral}
    (hzero : piece.head? = some '0' → piece = ['0']) (h : component? piece = some (some n)) :
    piece = n.digits := by
  unfold component? at h
  split at h
  · cases h
  · obtain ⟨m, hm, hmn⟩ := Option.map_eq_some_iff.1 h
    cases hmn
    obtain ⟨hne, hdigits⟩ := Numeral.of_ofDigits?_eq_some hm
    -- The piece is canonical, so it is what its own numeral writes.
    have hself := Numeral.ofDigits?_digits ⟨piece, hne, hdigits, hzero⟩
    rw [show Numeral.ofDigits? piece = some n from hm] at hself
    rw [Option.some.inj hself]

/-- Where no component is cut off, none is a wildcard. -/
theorem eq_map_given {parts : List (Option Numeral)}
    (h : parts.length ≤ (given parts).length) : parts = (given parts).map some := by
  induction parts with
  | nil => rfl
  | cons part parts ih =>
      cases part with
      | none => exact absurd h (Nat.not_succ_le_zero _)
      | some n => exact congrArg (List.cons (some n)) (ih (Nat.le_of_succ_le_succ h))

/-- A list of components of which all give a numeral, without superfluous zeros, is written like
    the numerals. -/
theorem pieces_eq_digits {pieces : List (List Char)} {ns : List Numeral}
    (hzero : ∀ piece ∈ pieces, piece.head? = some '0' → piece = ['0'])
    (h : pieces.mapM component? = some (ns.map some)) : pieces = ns.map Numeral.digits := by
  induction pieces generalizing ns with
  | nil =>
      cases ns with
      | nil => rfl
      | cons n ns => cases h
  | cons piece pieces ih =>
      rw [List.forall_mem_cons] at hzero
      simp only [List.mapM_cons, Option.pure_def, Option.bind_eq_bind, Option.bind_eq_some_iff,
        Option.some.injEq] at h
      obtain ⟨part, hpart, parts, hparts, hcons⟩ := h
      cases ns with
      | nil => cases hcons
      | cons n ns =>
          cases hcons
          rw [List.map_cons, component?_eq_some_some hzero.1 hpart, ih hzero.2 hparts]

/-- What is read behind a mark, or not at all, is written behind the mark, or not at all. -/
theorem elim_eq_marked {α : Type} {read : List Char → Option α} {write : α → List Char}
    (hread : ∀ {piece x}, read piece = some x ↔ piece = write x) {text? : Option (List Char)}
    {xs : List α} (m : Char) (h : pieces? read text? = some xs) :
    text?.elim [] (m :: ·) = Text.marked m (xs.map write) := by
  cases text? with
  | none =>
      cases h
      rfl
  | some text =>
      have hsplit := (Version.Reader.mapM_read_eq_some_iff hread).1 h
      have hjoin : Text.dotted (text.splitOn '.') = text := List.intercalate_splitOn '.'
      rw [← hsplit]
      obtain ⟨piece, pieces, hcons⟩ := List.exists_cons_of_ne_nil (List.splitOn_ne_nil '.' text)
      rw [hcons] at hjoin ⊢
      rw [Text.marked, hjoin]
      rfl

/-! ## Full operands and versions -/

/-- The floor of a full operand has its components. -/
theorem components_floor_of_isFull {p : Operand} (h : p.isFull = true) :
    p.floor.components = p.components := by
  obtain ⟨major, minor, patch, hcomponents⟩ := List.length_eq_three.1 (beq_iff_eq.1 h)
  simp [floor, fill, Version.components, hcomponents]

/-- **A plain text that is a full operand is the text of its floor.** -/
theorem floor_chars_of_isPlain {cs : List Char} {p : Operand} (hplain : IsPlain cs)
    (h : ofChars? cs = some p) (hfull : p.isFull = true) : p.floor.chars = cs := by
  obtain ⟨parts, hparts, hpre, hbuild, hlen, hgiven⟩ := ofChars?_eq_some_iff.1 h
  rw [frontOf, unmarked_eq_self hplain.head] at hparts hpre
  rw [unmarked_eq_self hplain.head] at hbuild
  have hall : parts = p.components.map some := by
    rw [← hgiven]
    refine eq_map_given ?_
    rwa [hgiven, beq_iff_eq.1 hfull]
  have hcore : (Text.cut '-' (Text.cut '+' cs).1).1 = p.floor.coreChars := by
    have hjoin : Text.dotted (corePieces cs) = (Text.cut '-' (Text.cut '+' cs).1).1 :=
      corePieces_eq_splitOn_cut cs ▸ List.intercalate_splitOn '.'
    rw [hall, ← corePieces_eq_splitOn_cut] at hparts
    rw [← hjoin, pieces_eq_digits hplain.pieces hparts, Version.coreChars,
      components_floor_of_isFull hfull]
  calc p.floor.chars
      = p.floor.coreChars ++ Text.marked '-' (p.preRelease.map Identifier.chars)
          ++ Text.marked '+' (p.build.map Word.chars) := rfl
    _ = (Text.cut '+' cs).1 ++ (Text.cut '+' cs).2.elim [] ('+' :: ·) := by
        rw [← elim_eq_marked Identifier.ofChars?_eq_some_iff '-' hpre,
          ← elim_eq_marked Word.ofChars?_eq_some_iff '+' hbuild, ← hcore, Text.cut_append]
    _ = cs := Text.cut_append '+' cs

/-- The text of a version is plain. -/
theorem isPlain_chars (v : Version) : IsPlain v.chars where
  head := by
    intro hv
    obtain ⟨cs, hcs⟩ := List.head?_eq_some_iff.1 hv
    have hself := unmarked_version v
    rw [hcs] at hself
    exact absurd (congrArg List.length hself) (by simp [unmarked])
  pieces := by
    rw [corePieces_eq_splitOn_cut, Version.chars, Text.cut_append_marked (plus_notMem_front v),
      Text.cut_append_marked (hyphen_notMem_coreChars v), splitOn_coreChars]
    intro piece hpiece
    obtain ⟨n, -, rfl⟩ := List.mem_map.1 hpiece
    exact n.canonical.2.2

/-- The text of a version is plain, and a full operand whose floor is the version; no other text is
    both. -/
theorem eq_chars_iff {cs : List Char} {v : Version} :
    cs = v.chars ↔ ∃ p, ofChars? cs = some p ∧ p.isFull = true ∧ IsPlain cs ∧ p.floor = v := by
  constructor
  · rintro rfl
    exact ⟨ofVersion v, ofChars?_version v, rfl, isPlain_chars v, rfl⟩
  · rintro ⟨p, hp, hfull, hplain, rfl⟩
    exact (floor_chars_of_isPlain hplain hp hfull).symm

end Range.Operand

open Range in
/-- **The two readers agree.** A text of at most 256 bytes without blanks at either end is read as a
    version exactly if it is a full operand that is written plainly, and the version is then the
    floor of the operand, pre-release and build included. -/
theorem Version.parse_iff_isFull (text : String) (hsize : text.utf8ByteSize ≤ 256)
    (hfirst : ∀ c ∈ text.toList.head?, Text.isAsciiBlank c = false)
    (hlast : ∀ c ∈ text.toList.getLast?, Text.isAsciiBlank c = false) (v : Version) :
    Version.parse text = .ok v ↔
      ∃ p, Operand.ofChars? text.toList = some p ∧ p.isFull = true
        ∧ Operand.IsPlain text.toList ∧ p.floor = v := by
  have hsize : text.utf8ByteSize ≤ maxVersionBytes := hsize
  have htrimmed : trimmed text = text := by
    rw [trimmed, Text.trim_eq_self hfirst hlast, String.ofList_toList]
  rw [parse_eq_ok_iff, htrimmed, and_iff_right hsize, ← Operand.eq_chars_iff]
  constructor
  · rintro rfl
    exact String.toList_ofList
  · intro h
    rw [← String.toList_inj, h]
    exact String.toList_ofList.symm

/-- An instance with identifiers that look like numbers, in the build with a zero in front. -/
theorem Version.parse_iff_isFull_zeros :
    ∃ v, Version.parse "1.20.0-0.rc-1.-+007.-" = .ok v
      ∧ ∃ p, Range.Operand.ofChars? "1.20.0-0.rc-1.-+007.-".toList = some p ∧ p.isFull = true
        ∧ Range.Operand.IsPlain "1.20.0-0.rc-1.-+007.-".toList ∧ p.floor = v := by
  have hparse : (Version.parse "1.20.0-0.rc-1.-+007.-").isOk = true := by decide
  obtain ⟨v, hv⟩ : ∃ v, Version.parse "1.20.0-0.rc-1.-+007.-" = .ok v := by
    cases h : Version.parse "1.20.0-0.rc-1.-+007.-" with
    | ok v => exact ⟨v, rfl⟩
    | error f => cases h ▸ hparse
  have hfirst : ∀ c ∈ "1.20.0-0.rc-1.-+007.-".toList.head?, Text.isAsciiBlank c = false := by
    rintro c ⟨⟩
    rfl
  have hlast : ∀ c ∈ "1.20.0-0.rc-1.-+007.-".toList.getLast?, Text.isAsciiBlank c = false := by
    rintro c ⟨⟩
    rfl
  exact ⟨v, hv, (parse_iff_isFull _ (by decide) hfirst hlast v).1 hv⟩

end Versioning
