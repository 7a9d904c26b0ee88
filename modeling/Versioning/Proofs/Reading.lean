import Versioning.Proofs.Operand
import Versioning.Version.Reader

set_option autoImplicit false

/-! # Reading back what was written

Each step of the strict reader takes the longest run of a class of characters, so it gives back what
was written in front of a text exactly if the text behind does not carry the run on. Every step has
one lemma that says so in both directions; chained, they say that the reader accepts the texts of
versions and nothing else, and that it gives back the version that was written
(`Version.Reader.version?_eq_some_iff`). -/

namespace Versioning

/-! ## Longest runs -/

/-- The longest run of a class at the front of a text, and the text behind it. -/
theorem Text.span_eq_iff {p : Char → Bool} {cs run rest : List Char} :
    cs.takeWhile p = run ∧ cs.dropWhile p = rest ↔
      cs = run ++ rest ∧ (∀ c ∈ run, p c = true) ∧ ∀ c ∈ rest.head?, p c = false := by
  constructor
  · rintro ⟨rfl, rfl⟩
    refine ⟨List.takeWhile_append_dropWhile.symm, ?_, ?_⟩
    · exact List.all_eq_true.1 List.all_takeWhile
    · intro c hc
      have hhead := List.head?_dropWhile_not p cs
      rw [Option.mem_def.1 hc] at hhead
      simpa using hhead
  · rintro ⟨rfl, hrun, hrest⟩
    rw [List.takeWhile_append_of_pos hrun, List.dropWhile_append_of_pos hrun,
      Text.dropWhile_eq_self hrest]
    refine ⟨?_, rfl⟩
    cases rest with
    | nil => simp
    | cons c rest => simp [hrest c rfl]

namespace Version

/-- The text of a version, part by part. -/
theorem chars_eq (v : Version) :
    v.chars = v.major.digits ++ '.' :: (v.minor.digits ++ '.' :: (v.patch.digits
      ++ (Text.marked '-' (v.preRelease.map Identifier.chars)
        ++ (Text.marked '+' (v.build.map Word.chars) ++ [])))) := by
  simp [chars, coreChars, components, Text.dotted, List.intercalate_cons_cons]

namespace Reader

/-! ## Numerals and marks -/

theorem numeral_eq_some_iff {cs rest : List Char} {n : Numeral} :
    numeral cs = some (n, rest) ↔
      cs = n.digits ++ rest ∧ ∀ c ∈ rest.head?, c.isDigit = false := by
  rw [numeral, Option.map_eq_some_iff]
  constructor
  · rintro ⟨k, hk, hpair⟩
    cases hpair
    obtain ⟨hcs, -, hrest⟩ := Text.span_eq_iff.1 ⟨Numeral.ofChars?_eq_some_iff.1 hk, rfl⟩
    exact ⟨hcs, hrest⟩
  · rintro ⟨hcs, hrest⟩
    obtain ⟨hrun, hdrop⟩ := Text.span_eq_iff.2 ⟨hcs, n.canonical.2.1, hrest⟩
    rw [hrun, hdrop]
    exact ⟨n, Numeral.ofChars?_digits n, rfl⟩

theorem mark_eq_none_iff {m : Char} {cs : List Char} : mark m cs = none ↔ m ∉ cs.head? := by
  cases cs with
  | nil => simp [mark]
  | cons c cs => simp [mark, eq_comm]

theorem mark_eq_some_iff {m : Char} {cs rest : List Char} :
    mark m cs = some rest ↔ cs = m :: rest := by
  constructor
  · exact mark_eq_some
  · rintro rfl
    exact if_pos rfl

/-! ## Lists behind a mark

The pre-release and the build are read alike. `read` accepts one piece, and exactly what `write`
writes for a value, which is a text over the alphabet of words. -/

section Lists

variable {α : Type} {read : List Char → Option α} {write : α → List Char}

theorem isListChar_of_mem_dotted {pieces : List (List Char)}
    (h : ∀ piece ∈ pieces, ∀ c ∈ piece, isWordChar c = true) :
    ∀ c ∈ Text.dotted pieces, isListChar c = true := by
  intro c hc
  rcases Text.mem_of_mem_intercalate hc with hc | ⟨piece, hpiece, hc⟩
  · rw [List.mem_singleton.1 hc]
    rfl
  · simp only [isListChar, h piece hpiece c hc, Bool.true_or]

theorem dot_notMem_of_isWordChar {cs : List Char} (h : ∀ c ∈ cs, isWordChar c = true) :
    '.' ∉ cs := by
  intro hdot
  exact absurd (h '.' hdot) (by decide)

theorem mapM_read_eq_some_iff (hread : ∀ {piece x}, read piece = some x ↔ piece = write x)
    {pieces : List (List Char)} {xs : List α} :
    pieces.mapM read = some xs ↔ pieces = xs.map write := by
  constructor
  · intro h
    induction pieces generalizing xs with
    | nil =>
        cases h
        rfl
    | cons piece pieces ih =>
        simp only [List.mapM_cons, Option.pure_def, Option.bind_eq_bind, Option.bind_eq_some_iff,
          Option.some.injEq] at h
        obtain ⟨x, hx, ys, hys, rfl⟩ := h
        rw [List.map_cons, ← hread.1 hx, ← ih hys]
  · rintro rfl
    have hmap : (xs.map write).mapM read = some (xs.map id) :=
      mapM_map_eq_some (fun x _ => hread.2 rfl)
    rwa [List.map_id] at hmap

variable (hread : ∀ {piece x}, read piece = some x ↔ piece = write x)
  (hword : ∀ x, ∀ c ∈ write x, isWordChar c = true)

include hread hword

theorem dottedList_eq_some_iff {cs rest : List Char} {xs : List α} :
    dottedList read cs = some (xs, rest) ↔
      xs ≠ [] ∧ cs = Text.dotted (xs.map write) ++ rest
        ∧ ∀ c ∈ rest.head?, isListChar c = false := by
  have hwrite : ∀ piece ∈ xs.map write, ∀ c ∈ piece, isWordChar c = true := by
    intro piece hpiece
    obtain ⟨x, -, rfl⟩ := List.mem_map.1 hpiece
    exact hword x
  rw [dottedList, Option.map_eq_some_iff]
  constructor
  · rintro ⟨ys, hys, hpair⟩
    cases hpair
    have hsplit := (mapM_read_eq_some_iff hread).1 hys
    have hjoin : Text.dotted ((cs.takeWhile isListChar).splitOn '.') = cs.takeWhile isListChar :=
      List.intercalate_splitOn '.'
    obtain ⟨hcs, -, hrest⟩ := Text.span_eq_iff.1 ⟨rfl, rfl⟩
    rw [← hsplit, hjoin]
    refine ⟨?_, hcs, hrest⟩
    rintro rfl
    exact List.splitOn_ne_nil _ _ hsplit
  · rintro ⟨hne, rfl, hrest⟩
    obtain ⟨hrun, hdrop⟩ := Text.span_eq_iff.2 ⟨rfl, isListChar_of_mem_dotted hwrite, hrest⟩
    have hsplit : (Text.dotted (xs.map write)).splitOn '.' = xs.map write :=
      Text.splitOn_dotted (fun piece hpiece => dot_notMem_of_isWordChar (hwrite piece hpiece))
        (by simpa using hne)
    rw [hrun, hdrop, hsplit]
    exact ⟨xs, (mapM_read_eq_some_iff hread).2 rfl, rfl⟩

/-- A list behind a mark is read back, and no list where the mark is missing. -/
theorem markedList_eq_some_iff {m : Char} {cs rest : List Char} {xs : List α} :
    markedList m read cs = some (xs, rest) ↔
      cs = Text.marked m (xs.map write) ++ rest
        ∧ if xs = [] then m ∉ rest.head? else ∀ c ∈ rest.head?, isListChar c = false := by
  rw [markedList]
  cases hmark : mark m cs with
  | none =>
      rw [mark_eq_none_iff] at hmark
      simp only [Option.some.injEq, Prod.mk.injEq]
      constructor
      · rintro ⟨rfl, rfl⟩
        exact ⟨rfl, hmark⟩
      · rintro ⟨rfl, hrest⟩
        cases xs with
        | nil => exact ⟨rfl, rfl⟩
        | cons x xs => exact absurd rfl hmark
  | some back =>
      rw [mark_eq_some_iff] at hmark
      subst hmark
      simp only [dottedList_eq_some_iff hread hword]
      cases xs with
      | nil =>
          simp only [ne_eq, not_true_eq_false, false_and, false_iff, not_and, if_true]
          rintro (rfl : m :: back = rest) hm
          exact hm rfl
      | cons x xs => simp [Text.marked]

end Lists

/-! ## Versions -/

/-- A text behind which a list may stand starts with the mark of the list or with what follows. -/
theorem head?_marked_append {m c : Char} {pieces : List (List Char)} {rest : List Char}
    (h : c ∈ (Text.marked m pieces ++ rest).head?) : c = m ∨ c ∈ rest.head? := by
  cases pieces with
  | nil => exact Or.inr h
  | cons piece pieces =>
      cases h
      exact Or.inl rfl

/-- **The reader accepts the text of a version and no other text.** -/
theorem version?_eq_some_iff {cs : List Char} {v : Version} :
    version? cs = some v ↔ cs = v.chars := by
  simp only [version?, Option.bind_eq_bind, Option.bind_eq_some_iff, Prod.exists,
    numeral_eq_some_iff, mark_eq_some_iff,
    markedList_eq_some_iff Identifier.ofChars?_eq_some_iff (fun i _ => i.isWordChar_of_mem_chars),
    markedList_eq_some_iff Word.ofChars?_eq_some_iff (fun w => w.isWord.2)]
  rw [chars_eq]
  constructor
  · rintro ⟨major, _, ⟨rfl, -⟩, _, rfl, minor, _, ⟨rfl, -⟩, _, rfl, patch, _, ⟨rfl, -⟩,
      preRelease, _, ⟨rfl, -⟩, build, rest, ⟨rfl, -⟩, h⟩
    split at h
    · next hrest =>
        cases h
        rw [List.isEmpty_iff.1 hrest]
    · cases h
  · -- What stands behind each part starts with a mark that the part cannot hold.
    rintro rfl
    have hdot : ∀ back : List Char, ∀ c ∈ ('.' :: back).head?, c.isDigit = false := by
      rintro back c ⟨⟩
      rfl
    have hbuild : ∀ c ∈ (Text.marked '+' (v.build.map Word.chars) ++ []).head?, c = '+' := by
      intro c hc
      exact (head?_marked_append hc).resolve_right (by simp)
    refine ⟨v.major, _, ⟨rfl, hdot _⟩, _, rfl, v.minor, _, ⟨rfl, hdot _⟩, _, rfl, v.patch, _,
      ⟨rfl, fun c hc => ?_⟩, v.preRelease, _, ⟨rfl, ?_⟩, v.build, [], ⟨rfl, ?_⟩, rfl⟩
    · rcases head?_marked_append hc with rfl | hc
      · rfl
      · rw [hbuild c hc]
        rfl
    · split
      · intro hc
        exact absurd (hbuild '-' hc) (by decide)
      · intro c hc
        rw [hbuild c hc]
        rfl
    · split <;> simp

end Reader

end Version

end Versioning
