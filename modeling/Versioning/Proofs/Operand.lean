import Versioning.Proofs.Layout

set_option autoImplicit false

/-! # The text of operands

Only a few characters occur in an operand (`Operand.isOperandChar_of_mem`), and none of them is a
blank, a sigil character or a bar, so an operand is never taken apart. An operand that gives a
component has a digit (`Operand.exists_isDigit`). A version is written as a full operand, with which
it agrees in every part (`Operand.ofChars?_version`). -/

namespace Versioning

/-! ## Lists of readings -/

/-- Reading all elements of a list succeeds where it succeeds for each of them. -/
theorem mapM_eq_some_iff {α β : Type} {f : α → Option β} {xs : List α} {ys : List β} :
    xs.mapM f = some ys ↔ (∀ x ∈ xs, (f x).isSome = true) ∧ xs.filterMap f = ys := by
  induction xs generalizing ys with
  | nil => simp
  | cons x xs ih =>
      rw [List.mapM_cons, List.forall_mem_cons]
      cases hx : f x with
      | none => simp
      | some y =>
          rw [List.filterMap_cons_some hx]
          simp only [Option.pure_def, Option.bind_eq_bind, Option.bind_some, Option.isSome_some,
            true_and, Option.bind_eq_some_iff, Option.some.injEq, ih]
          constructor
          · rintro ⟨zs, ⟨hall, hzs⟩, rfl⟩
            exact ⟨hall, congrArg (List.cons y) hzs⟩
          · rintro ⟨hall, rfl⟩
            exact ⟨_, ⟨hall, rfl⟩, rfl⟩

theorem mapM_eq_none_iff {α β : Type} {f : α → Option β} {xs : List α} :
    xs.mapM f = none ↔ ∃ x ∈ xs, f x = none := by
  constructor
  · intro h
    by_contra hall
    simp only [not_exists, not_and, ← Ne.eq_def, ← Option.isSome_iff_ne_none] at hall
    rw [mapM_eq_some_iff.2 ⟨hall, rfl⟩] at h
    cases h
  · rintro ⟨x, hx, hnone⟩
    cases h : xs.mapM f with
    | none => rfl
    | some ys =>
        have hsome := (mapM_eq_some_iff.1 h).1 x hx
        rw [hnone] at hsome
        cases hsome

/-- What is written element by element is read element by element. -/
theorem mapM_map_eq_some {α β γ : Type} {f : β → Option γ} {g : α → β} {k : α → γ} {xs : List α}
    (h : ∀ x ∈ xs, f (g x) = some (k x)) : (xs.map g).mapM f = some (xs.map k) := by
  induction xs with
  | nil => rfl
  | cons x xs ih =>
      rw [List.map_cons, List.mapM_cons, h x List.mem_cons_self,
        ih (fun y hy => h y (List.mem_cons_of_mem _ hy))]
      rfl

/-- Reading the elements of a permutation gives a permutation, or fails for both lists. -/
theorem mapM_perm {α β : Type} {f : α → Option β} {xs ys : List α} (h : xs.Perm ys) :
    Option.Rel List.Perm (xs.mapM f) (ys.mapM f) := by
  have hall : (∀ x ∈ xs, (f x).isSome = true) ↔ ∀ y ∈ ys, (f y).isSome = true := by
    simp only [h.mem_iff]
  cases hx : xs.mapM f with
  | none =>
      cases hy : ys.mapM f with
      | none => exact .none
      | some bs =>
          obtain ⟨hsome, -⟩ := mapM_eq_some_iff.1 hy
          rw [mapM_eq_some_iff.2 ⟨hall.2 hsome, rfl⟩] at hx
          cases hx
  | some as =>
      obtain ⟨hsome, has⟩ := mapM_eq_some_iff.1 hx
      rw [mapM_eq_some_iff.2 ⟨hall.1 hsome, rfl⟩]
      exact .some (has ▸ h.filterMap f)

/-! ## Pieces -/

namespace Text

theorem mem_of_mem_intercalate {c : Char} {sep : List Char} {pieces : List (List Char)}
    (h : c ∈ sep.intercalate pieces) : c ∈ sep ∨ ∃ piece ∈ pieces, c ∈ piece := by
  induction pieces with
  | nil => cases h
  | cons piece pieces ih =>
      cases pieces with
      | nil =>
          rw [List.intercalate_singleton] at h
          exact Or.inr ⟨piece, List.mem_cons_self, h⟩
      | cons piece' pieces =>
          rw [List.intercalate_cons_cons, List.mem_append, List.mem_append] at h
          rcases h with (h | h) | h
          · exact Or.inr ⟨piece, List.mem_cons_self, h⟩
          · exact Or.inl h
          · exact (ih h).imp_right fun ⟨q, hq, hc⟩ => ⟨q, List.mem_cons_of_mem _ hq, hc⟩

theorem mem_intercalate {c : Char} {sep piece : List Char} {pieces : List (List Char)}
    (hp : piece ∈ pieces) (hc : c ∈ piece) : c ∈ sep.intercalate pieces := by
  induction pieces with
  | nil => cases hp
  | cons q pieces ih =>
      cases pieces with
      | nil =>
          rw [List.mem_singleton] at hp
          rwa [List.intercalate_singleton, ← hp]
      | cons q' pieces =>
          rw [List.intercalate_cons_cons, List.mem_append, List.mem_append]
          rcases List.mem_cons.1 hp with rfl | hp
          · exact Or.inl (Or.inl hc)
          · exact Or.inr (ih hp)

/-- The characters of a text are those of its pieces, and the mark between them. -/
theorem mem_splitOn {c m : Char} {cs : List Char} (h : c ∈ cs) :
    c = m ∨ ∃ piece ∈ cs.splitOn m, c ∈ piece := by
  have hjoin : [m].intercalate (cs.splitOn m) = cs := List.intercalate_splitOn m
  rw [← hjoin] at h
  exact (mem_of_mem_intercalate h).imp_left List.mem_singleton.1

theorem mem_of_mem_splitOn {c m : Char} {cs piece : List Char} (hp : piece ∈ cs.splitOn m)
    (hc : c ∈ piece) : c ∈ cs := by
  have hjoin : [m].intercalate (cs.splitOn m) = cs := List.intercalate_splitOn m
  rw [← hjoin]
  exact mem_intercalate hp hc

/-- A text is what stands before a mark, the mark and what stands behind it. -/
theorem cut_append (m : Char) (cs : List Char) :
    (cut m cs).1 ++ (cut m cs).2.elim [] (m :: ·) = cs := by
  have happend := List.takeWhile_append_dropWhile (p := (· != m)) (l := cs)
  simp only [cut]
  cases hd : cs.dropWhile (· != m) with
  | nil => rwa [hd] at happend
  | cons d back =>
      have hhead := List.head?_dropWhile_not (· != m) cs
      rw [hd] at hhead happend
      have hdm : d = m := by simpa using hhead
      rwa [hdm] at happend

/-- The characters of a text are those on either side of a mark, and the mark. -/
theorem mem_cut {c m : Char} {cs : List Char} (h : c ∈ cs) :
    c ∈ (cut m cs).1 ∨ c = m ∨ ∃ back, (cut m cs).2 = some back ∧ c ∈ back := by
  rw [← cut_append m cs, List.mem_append] at h
  refine h.imp_right fun h => ?_
  cases hback : (cut m cs).2 with
  | none => simp [hback] at h
  | some back => simpa [hback] using h

theorem mem_of_mem_cut_fst {c m : Char} {cs : List Char} (h : c ∈ (cut m cs).1) : c ∈ cs :=
  (List.takeWhile_sublist _).mem h

theorem splitOn_dotted {pieces : List (List Char)} (h : ∀ piece ∈ pieces, '.' ∉ piece)
    (hne : pieces ≠ []) : (dotted pieces).splitOn '.' = pieces :=
  List.splitOn_intercalate '.' h hne

theorem mem_of_mem_marked {c m : Char} {pieces : List (List Char)} (h : c ∈ marked m pieces) :
    c = m ∨ c = '.' ∨ ∃ piece ∈ pieces, c ∈ piece := by
  cases pieces with
  | nil => cases h
  | cons piece pieces =>
      rcases List.mem_cons.1 h with h | h
      · exact Or.inl h
      · exact Or.inr ((mem_of_mem_intercalate h).imp_left List.mem_singleton.1)

/-- Cutting finds the mark behind text without it, if there are pieces to mark. -/
theorem cut_append_marked {m : Char} {front : List Char} (h : m ∉ front)
    (pieces : List (List Char)) :
    cut m (front ++ marked m pieces)
      = (front, if pieces.isEmpty then none else some (dotted pieces)) := by
  cases pieces with
  | nil =>
      rw [marked, List.append_nil, cut_of_notMem h]
      rfl
  | cons piece pieces => exact cut_append_cons _ h

end Text

namespace Range

/-! ## Operand characters -/

/-- The characters of operands. -/
def isOperandChar (c : Char) : Bool :=
  isWordChar c || c == '.' || c == '+' || c == '*'

theorem isOperandChar_of_isWordChar {c : Char} (h : isWordChar c = true) :
    isOperandChar c = true := by
  simp [isOperandChar, h]

theorem isBlank_of_isOperandChar {c : Char} (h : isOperandChar c = true) :
    Text.isBlank c = false := by
  simp only [isOperandChar, Bool.or_eq_true, beq_iff_eq] at h
  rcases h with ((h | rfl) | rfl) | rfl
  · have hc := toNat_of_isWordChar h
    simp only [Text.isBlank, Bool.or_eq_false_iff, Bool.and_eq_false_iff, decide_eq_false_iff_not,
      beq_eq_false_iff_ne]
    omega
  · rfl
  · rfl
  · rfl

theorem isSigilChar_of_isOperandChar {c : Char} (h : isOperandChar c = true) :
    isSigilChar c = false :=
  isSigilChar_eq_false (by decide) h

theorem ne_bar_of_isOperandChar {c : Char} (h : isOperandChar c = true) : c ≠ '|' := by
  rintro rfl
  exact absurd h (by decide)

namespace Operand

/-! ## How an operand is taken apart -/

/-- The text before the build. -/
def frontOf (cs : List Char) : List Char := (Text.cut '+' (unmarked cs)).1

theorem ofChars?_eq_some_iff {cs : List Char} {p : Operand} :
    ofChars? cs = some p ↔
      ∃ parts, ((Text.cut '-' (frontOf cs)).1.splitOn '.').mapM component? = some parts
        ∧ pieces? Identifier.ofChars? (Text.cut '-' (frontOf cs)).2 = some p.preRelease
        ∧ pieces? Word.ofChars? (Text.cut '+' (unmarked cs)).2 = some p.build
        ∧ parts.length ≤ 3 ∧ given parts = p.components := by
  obtain ⟨components, preRelease, build⟩ := p
  simp only [ofChars?, Option.bind_eq_bind, Option.bind_eq_some_iff, frontOf]
  constructor
  · rintro ⟨parts, hparts, pre, hpre, words, hwords, h⟩
    split at h
    · next hlen =>
        cases h
        exact ⟨parts, hparts, hpre, hwords, hlen, rfl⟩
    · cases h
  · rintro ⟨parts, hparts, hpre, hwords, hlen, rfl⟩
    exact ⟨parts, hparts, preRelease, hpre, build, hwords, if_pos hlen⟩

theorem mem_unmarked {c : Char} {cs : List Char} (h : c ∈ cs) : c = 'v' ∨ c ∈ unmarked cs := by
  unfold unmarked
  split
  · exact List.mem_cons.1 h
  · exact Or.inr h

theorem mem_of_mem_unmarked {c : Char} {cs : List Char} (h : c ∈ unmarked cs) : c ∈ cs := by
  unfold unmarked at h
  split at h
  · exact List.mem_cons_of_mem _ h
  · exact h

theorem isOperandChar_of_component? {piece : List Char} (h : (component? piece).isSome = true)
    {c : Char} (hc : c ∈ piece) : isOperandChar c = true := by
  unfold component? at h
  split at h
  · next hw =>
      simp only [isWildcard, Bool.or_eq_true, beq_iff_eq] at hw
      rcases hw with (rfl | rfl) | rfl <;> (cases List.mem_singleton.1 hc; rfl)
  · rw [Option.isSome_map] at h
    obtain ⟨n, hn⟩ := Option.isSome_iff_exists.1 h
    have hdigit := (Numeral.of_ofDigits?_eq_some hn).2 c hc
    exact isOperandChar_of_isWordChar (by simp [isWordChar, Char.isAlphanum, hdigit])

theorem isOperandChar_of_pieces? {α : Type} {read : List Char → Option α} {text : List Char}
    (h : (pieces? read (some text)).isSome = true)
    (hread : ∀ piece, (read piece).isSome = true → ∀ c ∈ piece, isWordChar c = true)
    {c : Char} (hc : c ∈ text) : isOperandChar c = true := by
  obtain ⟨xs, hxs⟩ := Option.isSome_iff_exists.1 h
  obtain ⟨hall, -⟩ := mapM_eq_some_iff.1 hxs
  rcases Text.mem_splitOn (m := '.') hc with rfl | ⟨piece, hpiece, hcp⟩
  · rfl
  · exact isOperandChar_of_isWordChar (hread piece (hall piece hpiece) c hcp)

theorem isWordChar_of_identifier {piece : List Char}
    (h : (Identifier.ofChars? piece).isSome = true) : ∀ c ∈ piece, isWordChar c = true := by
  obtain ⟨i, hi⟩ := Option.isSome_iff_exists.1 h
  rw [Identifier.ofChars?_eq_some_iff.1 hi]
  exact fun c hc => Identifier.isWordChar_of_mem_chars hc

theorem isWordChar_of_word {piece : List Char} (h : (Word.ofChars? piece).isSome = true) :
    ∀ c ∈ piece, isWordChar c = true := by
  obtain ⟨w, hw⟩ := Option.isSome_iff_exists.1 h
  rw [Word.ofChars?_eq_some_iff.1 hw]
  exact w.isWord.2

/-- **An operand has operand characters only.** -/
theorem isOperandChar_of_mem {cs : List Char} {p : Operand} (h : ofChars? cs = some p) {c : Char}
    (hc : c ∈ cs) : isOperandChar c = true := by
  obtain ⟨parts, hparts, hpre, hbuild, -, -⟩ := ofChars?_eq_some_iff.1 h
  obtain ⟨hall, -⟩ := mapM_eq_some_iff.1 hparts
  rcases mem_unmarked hc with rfl | hc
  · rfl
  rcases Text.mem_cut (m := '+') hc with hc | rfl | ⟨back, hback, hc⟩
  · rcases Text.mem_cut (m := '-') hc with hc | rfl | ⟨back, hback, hc⟩
    · rcases Text.mem_splitOn (m := '.') hc with rfl | ⟨piece, hpiece, hc⟩
      · rfl
      · exact isOperandChar_of_component? (hall piece hpiece) hc
    · rfl
    · rw [frontOf, hback] at hpre
      exact isOperandChar_of_pieces? (hpre ▸ rfl) (fun _ => isWordChar_of_identifier) hc
  · rfl
  · rw [hback] at hbuild
    exact isOperandChar_of_pieces? (hbuild ▸ rfl) (fun _ => isWordChar_of_word) hc

theorem ne_nil {cs : List Char} {p : Operand} (h : ofChars? cs = some p) : cs ≠ [] := by
  rintro rfl
  cases h

theorem exists_of_given_ne_nil {parts : List (Option Numeral)} (h : given parts ≠ []) :
    ∃ n, some n ∈ parts := by
  cases parts with
  | nil => exact absurd rfl h
  | cons part parts =>
      cases part with
      | none => exact absurd rfl h
      | some n => exact ⟨n, List.mem_cons_self⟩

/-- An operand that gives a component has a digit. -/
theorem exists_isDigit {cs : List Char} {p : Operand} (h : ofChars? cs = some p)
    (hany : p.isAny = false) : ∃ c ∈ cs, c.isDigit = true := by
  obtain ⟨parts, hparts, -, -, -, hgiven⟩ := ofChars?_eq_some_iff.1 h
  obtain ⟨-, hmap⟩ := mapM_eq_some_iff.1 hparts
  have hne : given parts ≠ [] := by
    rw [hgiven]
    rintro hnil
    rw [isAny, hnil] at hany
    cases hany
  obtain ⟨n, hn⟩ := exists_of_given_ne_nil hne
  rw [← hmap] at hn
  obtain ⟨piece, hpiece, hcomponent⟩ := List.mem_filterMap.1 hn
  unfold component? at hcomponent
  split at hcomponent
  · cases hcomponent
  · obtain ⟨m, hm, -⟩ := Option.map_eq_some_iff.1 hcomponent
    obtain ⟨hpne, hdigits⟩ := Numeral.of_ofDigits?_eq_some hm
    obtain ⟨c, rest, rfl⟩ := List.exists_cons_of_ne_nil hpne
    have hmem := Text.mem_of_mem_splitOn hpiece List.mem_cons_self
    exact ⟨c, mem_of_mem_unmarked (Text.mem_of_mem_cut_fst (Text.mem_of_mem_cut_fst hmem)),
      hdigits c List.mem_cons_self⟩

/-! ## Versions as operands -/

theorem component?_digits (n : Numeral) : component? n.digits = some (some n) := by
  have hw : isWildcard n.digits = false := by
    rw [Bool.eq_false_iff]
    intro h
    simp only [isWildcard, Bool.or_eq_true, beq_iff_eq] at h
    have hdigit := n.canonical.2.1
    rcases h with (h | h) | h <;>
      (rw [h] at hdigit; exact absurd (hdigit _ List.mem_cons_self) (by decide))
  rw [component?, hw]
  exact congrArg (Option.map some) (Numeral.ofDigits?_digits n)

theorem given_map_some (ns : List Numeral) : given (ns.map some) = ns := by
  induction ns with
  | nil => rfl
  | cons n ns ih => exact congrArg (List.cons n) ih

/-- Pieces that are written behind a mark, or not at all, are read back. -/
theorem pieces?_dotted {α : Type} {read : List Char → Option α} {write : α → List Char}
    {xs : List α} (hread : ∀ x, read (write x) = some x) (hdot : ∀ x, '.' ∉ write x) :
    pieces? read (if xs.isEmpty then none else some (Text.dotted (xs.map write))) = some xs := by
  cases xs with
  | nil => rfl
  | cons x xs =>
      have hdots : ∀ piece ∈ (x :: xs).map write, '.' ∉ piece := by
        intro piece hpiece
        obtain ⟨y, -, rfl⟩ := List.mem_map.1 hpiece
        exact hdot y
      show ((Text.dotted ((x :: xs).map write)).splitOn '.').mapM read = some (x :: xs)
      have hmap : ((x :: xs).map write).mapM read = some ((x :: xs).map id) :=
        mapM_map_eq_some (fun y _ => hread y)
      rw [Text.splitOn_dotted hdots (by simp), hmap, List.map_id]

/-- The operand that a version is. -/
def ofVersion (v : Version) : Operand := ⟨v.components, v.preRelease, v.build⟩

theorem notMem_chars {m : Char} (h : isWordChar m = false) (i : Identifier) : m ∉ i.chars :=
  fun hm => absurd (Identifier.isWordChar_of_mem_chars hm) (by simp [h])

theorem notMem_word {m : Char} (h : isWordChar m = false) (w : Word) : m ∉ w.chars :=
  fun hm => absurd (w.isWord.2 m hm) (by simp [h])

theorem isDigit_of_mem_coreChars {v : Version} {c : Char} (h : c ∈ v.coreChars) :
    c = '.' ∨ c.isDigit = true := by
  refine (Text.mem_of_mem_intercalate h).imp List.mem_singleton.1 ?_
  rintro ⟨piece, hpiece, hc⟩
  obtain ⟨n, -, rfl⟩ := List.mem_map.1 hpiece
  exact n.canonical.2.1 c hc

theorem plus_notMem_front (v : Version) :
    '+' ∉ v.coreChars ++ Text.marked '-' (v.preRelease.map Identifier.chars) := by
  intro h
  rcases List.mem_append.1 h with h | h
  · rcases isDigit_of_mem_coreChars h with h | h <;> exact absurd h (by decide)
  · rcases Text.mem_of_mem_marked h with h | h | ⟨piece, hpiece, hc⟩
    · exact absurd h (by decide)
    · exact absurd h (by decide)
    · obtain ⟨i, -, rfl⟩ := List.mem_map.1 hpiece
      exact notMem_chars (by decide) i hc

theorem hyphen_notMem_coreChars (v : Version) : '-' ∉ v.coreChars := by
  intro h
  rcases isDigit_of_mem_coreChars h with h | h <;> exact absurd h (by decide)

theorem splitOn_coreChars (v : Version) :
    v.coreChars.splitOn '.' = v.components.map Numeral.digits := by
  refine Text.splitOn_dotted (fun piece hpiece hdot => ?_) (by simp [Version.components])
  obtain ⟨n, -, rfl⟩ := List.mem_map.1 hpiece
  exact absurd (n.canonical.2.1 '.' hdot) (by decide)

/-- A version starts with a digit. -/
theorem exists_chars_eq_cons (v : Version) : ∃ c cs, v.chars = c :: cs ∧ c.isDigit = true := by
  obtain ⟨c, ds, hcons⟩ := List.exists_cons_of_ne_nil v.major.canonical.1
  have hc : c.isDigit = true := v.major.canonical.2.1 c (hcons ▸ List.mem_cons_self)
  simp only [Version.chars, Version.coreChars, Version.components, Text.dotted, List.map_cons,
    List.intercalate_cons_cons, hcons, List.cons_append]
  exact ⟨c, _, rfl, hc⟩

theorem unmarked_version (v : Version) : unmarked v.chars = v.chars := by
  obtain ⟨c, rest, hrest, hc⟩ := exists_chars_eq_cons v
  rw [hrest, unmarked]
  intro cs hv
  rw [(List.cons.inj hv).1] at hc
  exact absurd hc (by decide)

/-- **A version is read as the operand that it is.** -/
theorem ofChars?_version (v : Version) : ofChars? v.chars = some (ofVersion v) := by
  have hdot : isWordChar '.' = false := by decide
  -- No part in front of a mark holds the mark, so each cut finds the mark that was written.
  rw [ofChars?_eq_some_iff, frontOf, unmarked_version, Version.chars,
    Text.cut_append_marked (plus_notMem_front v),
    Text.cut_append_marked (hyphen_notMem_coreChars v), splitOn_coreChars, List.isEmpty_map,
    List.isEmpty_map]
  refine ⟨v.components.map some, ?_, ?_, ?_, Nat.le_refl 3, given_map_some v.components⟩
  · exact mapM_map_eq_some (fun n _ => component?_digits n)
  · exact pieces?_dotted Identifier.ofChars?_chars (notMem_chars hdot)
  · exact pieces?_dotted Word.ofChars?_chars (notMem_word hdot)

end Operand

end Range

end Versioning
