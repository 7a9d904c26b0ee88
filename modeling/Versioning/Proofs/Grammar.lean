import Mathlib.Data.Set.List
import Versioning.Proofs.Reading

set_option autoImplicit false

/-! # The grammar of versions

The grammar is about plain texts: a version has five fields, and `Fields.IsGrammatical` says of each
of them what it has to look like. Numbers, pre-release identifiers and build words are described as
texts here, without the types that carry their form, and the dotted lists are taken apart by
splitting.

Grammatical fields are exactly the fields of versions (`Version.exists_fields_eq_iff`), and a text
is read as a version exactly if it is short enough and, but for the blanks around it, puts
grammatical fields together (`Version.parse_iff_isGrammatical`). -/

namespace Versioning

/-! ## Identifiers and dotted lists -/

/-- A pre-release identifier: a word, and a canonical numeral if it has digits only. -/
def IsIdentifier (cs : List Char) : Prop :=
  IsWord cs ∧ ((∀ c ∈ cs, c.isDigit = true) → IsCanonical cs)

theorem exists_identifier_iff {cs : List Char} :
    (∃ i : Identifier, i.chars = cs) ↔ IsIdentifier cs := by
  constructor
  · rintro ⟨i, rfl⟩
    refine ⟨⟨?_, fun c hc => i.isWordChar_of_mem_chars hc⟩, fun hdigits => ?_⟩
    · cases i with
      | numeric n => exact n.canonical.1
      | alphanumeric w _ => exact w.isWord.1
    · cases i with
      | numeric n => exact n.canonical
      | alphanumeric w hw => exact absurd (List.all_eq_true.2 hdigits) (ne_true_of_eq_false hw)
  · rintro ⟨hword, hdigits⟩
    cases hall : cs.all Char.isDigit with
    | true => exact ⟨.numeric ⟨cs, hdigits (List.all_eq_true.1 hall)⟩, rfl⟩
    | false => exact ⟨.alphanumeric ⟨cs, hword⟩ hall, rfl⟩

theorem exists_word_iff {cs : List Char} : (∃ w : Word, w.chars = cs) ↔ IsWord cs := by
  constructor
  · rintro ⟨w, rfl⟩
    exact w.isWord
  · intro h
    exact ⟨⟨cs, h⟩, rfl⟩

/-- All pieces of a text between dots are of a kind. -/
def IsDotted (p : List Char → Prop) (text : String) : Prop :=
  ∀ piece ∈ text.toList.splitOn '.', p piece

/-- The texts that may stand for a list: none for the empty list, else its pieces joined by dots. -/
theorem exists_text?_iff {α : Type} {write : α → List Char} {p : List Char → Prop}
    (hdot : ∀ x, '.' ∉ write x) (hp : ∀ {cs}, (∃ x, write x = cs) ↔ p cs) (text? : Option String) :
    (∃ xs : List α, (if xs.isEmpty then none
        else some (String.ofList (Text.dotted (xs.map write)))) = text?)
      ↔ ∀ text ∈ text?, IsDotted p text := by
  constructor
  · rintro ⟨xs, rfl⟩ text htext piece hpiece
    split at htext
    · cases htext
    · next hne =>
        cases htext
        rw [String.toList_ofList, Text.splitOn_dotted _ (by simpa using hne)] at hpiece
        · obtain ⟨x, -, rfl⟩ := List.mem_map.1 hpiece
          exact hp.1 ⟨x, rfl⟩
        · rintro _ hmem
          obtain ⟨x, -, rfl⟩ := List.mem_map.1 hmem
          exact hdot x
  · intro h
    cases text? with
    | none => exact ⟨[], rfl⟩
    | some text =>
        obtain ⟨xs, hxs⟩ : text.toList.splitOn '.' ∈ Set.range (List.map write) := by
          rw [Set.range_list_map]
          exact fun piece hpiece => hp.2 (h text rfl piece hpiece)
        have hne : xs ≠ [] := by
          rintro rfl
          exact List.splitOn_ne_nil _ _ hxs.symm
        have hjoin : Text.dotted (text.toList.splitOn '.') = text.toList :=
          List.intercalate_splitOn '.'
        refine ⟨xs, ?_⟩
        rw [if_neg (by simpa using hne), hxs, hjoin, String.ofList_toList]

namespace Version

/-! ## Fields -/

/-- What a version consists of, as texts. -/
structure Fields where
  major : String
  minor : String
  patch : String
  preRelease : Option String
  build : Option String
deriving DecidableEq

/-- The fields put together: three numbers, the pre-release behind `-`, the build behind `+`. -/
def Fields.text (t : Fields) : String :=
  t.major ++ "." ++ t.minor ++ "." ++ t.patch ++ t.preRelease.elim "" ("-" ++ ·)
    ++ t.build.elim "" ("+" ++ ·)

/-- The grammar of versions. -/
structure Fields.IsGrammatical (t : Fields) : Prop where
  major : IsCanonical t.major.toList
  minor : IsCanonical t.minor.toList
  patch : IsCanonical t.patch.toList
  preRelease : ∀ text ∈ t.preRelease, IsDotted IsIdentifier text
  /-- In the build, digits may start with a zero. -/
  build : ∀ text ∈ t.build, IsDotted IsWord text

/-- The fields of a version. -/
def fields (v : Version) : Fields :=
  ⟨toString v.major, toString v.minor, toString v.patch, v.preReleaseText?, v.buildText?⟩

/-- **The fields of versions are the grammatical ones.** -/
theorem exists_fields_eq_iff {t : Fields} : (∃ v : Version, v.fields = t) ↔ t.IsGrammatical := by
  have hpreRelease := exists_text?_iff (Range.Operand.notMem_chars (by decide))
    exists_identifier_iff t.preRelease
  have hbuild := exists_text?_iff (Range.Operand.notMem_word (by decide)) exists_word_iff t.build
  constructor
  · rintro ⟨v, rfl⟩
    exact {
      major := String.toList_ofList ▸ v.major.canonical
      minor := String.toList_ofList ▸ v.minor.canonical
      patch := String.toList_ofList ▸ v.patch.canonical
      preRelease := hpreRelease.1 ⟨v.preRelease, rfl⟩
      build := hbuild.1 ⟨v.build, rfl⟩ }
  · intro h
    obtain ⟨preRelease, hpre⟩ := hpreRelease.2 h.preRelease
    obtain ⟨build, hbuild⟩ := hbuild.2 h.build
    refine ⟨⟨⟨_, h.major⟩, ⟨_, h.minor⟩, ⟨_, h.patch⟩, preRelease, build⟩, ?_⟩
    obtain ⟨major, minor, patch, _, _⟩ := t
    simp only [fields, toString, preReleaseText?, buildText?, String.ofList_toList, hpre, hbuild]

/-- A list behind a mark is written as the text that stands for it. -/
theorem toList_elim_text? {α : Type} (write : α → List Char) {mark : String} (m : Char)
    (hmark : mark.toList = [m]) (xs : List α) :
    ((if xs.isEmpty then none else some (String.ofList (Text.dotted (xs.map write)))).elim ""
      (mark ++ ·)).toList = Text.marked m (xs.map write) := by
  cases xs with
  | nil => rfl
  | cons x xs => simp [Text.marked, hmark]

/-- The fields of a version put together are its text. -/
theorem text_fields (v : Version) : v.fields.text = toString v := by
  have hpre := toList_elim_text? Identifier.chars '-' (rfl : "-".toList = ['-']) v.preRelease
  have hbuild := toList_elim_text? Word.chars '+' (rfl : "+".toList = ['+']) v.build
  rw [← String.toList_inj]
  show v.fields.text.toList = (String.ofList v.chars).toList
  rw [String.toList_ofList, chars_eq]
  simp only [Fields.text, fields, preReleaseText?, buildText?, String.toList_append, hpre, hbuild]
  simp [toString]

theorem toList_toString (v : Version) : (toString v).toList = v.chars := String.toList_ofList

/-! ## Reading -/

/-- A text without the blanks that may stand around a version. -/
def trimmed (text : String) : String :=
  String.ofList (Text.trim Text.isAsciiBlank text.toList)

theorem version?_trim_eq_some_iff {text : String} {v : Version} :
    Reader.version? (Text.trim Text.isAsciiBlank text.toList) = some v ↔
      trimmed text = toString v := by
  rw [Reader.version?_eq_some_iff]
  exact ⟨congrArg String.ofList, fun h => String.ofList_injective h⟩

theorem parse_eq_ok_iff {text : String} {v : Version} :
    parse text = .ok v ↔ text.utf8ByteSize ≤ maxVersionBytes ∧ trimmed text = toString v := by
  rw [parse, ← version?_trim_eq_some_iff]
  by_cases hsize : text.utf8ByteSize ≤ maxVersionBytes
  · rw [if_neg (Nat.not_lt.2 hsize)]
    cases Reader.version? (Text.trim Text.isAsciiBlank text.toList) <;> simp [hsize]
  · rw [if_pos (Nat.lt_of_not_le hsize)]
    simp [hsize]

theorem parse_eq_error_iff {text : String} {f : Fault} :
    parse text = .error f ↔ (maxVersionBytes < text.utf8ByteSize ∧ f = .tooLong)
      ∨ (text.utf8ByteSize ≤ maxVersionBytes ∧ f = .malformed
        ∧ ¬ ∃ v : Version, trimmed text = toString v) := by
  rw [parse]
  by_cases hsize : text.utf8ByteSize ≤ maxVersionBytes
  · rw [if_neg (Nat.not_lt.2 hsize)]
    simp only [hsize, Nat.not_lt.2 hsize, false_and, true_and, false_or,
      ← version?_trim_eq_some_iff]
    cases Reader.version? (Text.trim Text.isAsciiBlank text.toList) <;> simp [eq_comm]
  · rw [if_pos (Nat.lt_of_not_le hsize)]
    simp [hsize, Nat.lt_of_not_le hsize, eq_comm]

/-- The text of a version has no blanks, so nothing is trimmed from it. -/
theorem trimmed_toString (v : Version) : trimmed (toString v) = toString v := by
  have hblank : ∀ c ∈ v.chars, Text.isAsciiBlank c = false := by
    intro c hc
    have hoperand := Range.Operand.isOperandChar_of_mem (Range.Operand.ofChars?_version v) hc
    rw [Bool.eq_false_iff]
    intro hascii
    have hsolid := Range.isBlank_of_isOperandChar hoperand
    rw [Text.isBlank_of_isAsciiBlank hascii] at hsolid
    cases hsolid
  rw [trimmed, toList_toString, Text.trim_eq_self (fun c hc => hblank c (List.mem_of_head? hc))
    (fun c hc => hblank c (List.mem_of_getLast? hc))]
  rfl

theorem parse_text (v : Version) :
    parse (toString v) = if (toString v).utf8ByteSize ≤ 256 then .ok v else .error .tooLong := by
  split
  · next hsize => exact parse_eq_ok_iff.2 ⟨hsize, trimmed_toString v⟩
  · next hsize => exact parse_eq_error_iff.2 (Or.inl ⟨Nat.lt_of_not_le hsize, rfl⟩)

/-- Grammatical fields put a text together exactly if they are those of a version that does. -/
theorem isGrammatical_and_text_eq_iff {t : Fields} {text : String} :
    t.IsGrammatical ∧ text = t.text ↔ ∃ v : Version, v.fields = t ∧ text = toString v := by
  rw [← exists_fields_eq_iff]
  constructor
  · rintro ⟨⟨v, rfl⟩, h⟩
    exact ⟨v, rfl, h.trans (text_fields v)⟩
  · rintro ⟨v, rfl, h⟩
    exact ⟨⟨v, rfl⟩, h.trans (text_fields v).symm⟩

/-- **A text is a version exactly if it puts grammatical fields together.** At most 256 bytes may be
    used for it, blanks included. The fields are those of the version that is read, so there is one
    way to take a text apart. Of the two faults, a text that is too long has the one, and every
    other text that is no version has the other. -/
theorem parse_iff_isGrammatical (text : String) :
    (∀ v : Version, parse text = .ok v ↔
      text.utf8ByteSize ≤ 256 ∧ trimmed text = toString v)
    ∧ (∀ t : Fields, (∃ v : Version, parse text = .ok v ∧ v.fields = t) ↔
      text.utf8ByteSize ≤ 256 ∧ t.IsGrammatical ∧ trimmed text = t.text)
    ∧ (∀ f : Fault, parse text = .error f ↔ (256 < text.utf8ByteSize ∧ f = .tooLong)
      ∨ (text.utf8ByteSize ≤ 256 ∧ f = .malformed
        ∧ ¬ ∃ t : Fields, t.IsGrammatical ∧ trimmed text = t.text)) := by
  refine ⟨fun v => parse_eq_ok_iff, fun t => ?_, fun f => ?_⟩
  · rw [isGrammatical_and_text_eq_iff]
    constructor
    · rintro ⟨v, hv, rfl⟩
      obtain ⟨hsize, htext⟩ := parse_eq_ok_iff.1 hv
      exact ⟨hsize, v, rfl, htext⟩
    · rintro ⟨hsize, v, rfl, htext⟩
      exact ⟨v, parse_eq_ok_iff.2 ⟨hsize, htext⟩, rfl⟩
  · have hfields : (∃ t : Fields, t.IsGrammatical ∧ trimmed text = t.text) ↔
        ∃ v : Version, trimmed text = toString v := by
      simp only [isGrammatical_and_text_eq_iff]
      rw [exists_comm]
      simp
    rw [hfields]
    exact parse_eq_error_iff

/-- Hyphens belong to identifiers once the pre-release has begun, and a build may start with
    zeros. -/
example : (parse " 1.20.3--x.-+001 ").map fields
    = .ok ⟨"1", "20", "3", some "-x.-", some "001"⟩ := by decide

end Version

end Versioning
