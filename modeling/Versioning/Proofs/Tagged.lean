import Versioning.Proofs.Entry
import Versioning.Proofs.Grammar
import Versioning.Version.Lenient

set_option autoImplicit false

/-! # Tagged versions

A text is read as a tagged version exactly if it is, but for the blanks around it, a run of tag
marks with the text of a version behind (`Version.parseTagged_iff_isTagged`). The run has any length
and may be missing, and the limit is on the version alone, so that a text may be read as a tagged
version although it is too long for a version.

The marks cannot be confused with what stands behind them: a version starts with a digit, and no
digit is a mark. For the same reason there can be no blank behind the marks, and no sign of a range
in front of them but `=`, which is a mark. -/

namespace Versioning.Version

variable {text : String} {v : Version}

/-! ## Marks and digits -/

theorem isTagMark_iff {c : Char} : isTagMark c = true ↔ c = '=' ∨ c = 'v' := by
  simp [isTagMark]

theorem isTagMark_of_isDigit {c : Char} (h : c.isDigit = true) : isTagMark c = false := by
  rw [Bool.eq_false_iff]
  intro hmark
  rcases isTagMark_iff.1 hmark with rfl | rfl <;> cases h

theorem isAsciiBlank_of_isDigit {c : Char} (h : c.isDigit = true) :
    Text.isAsciiBlank c = false := by
  rw [Bool.eq_false_iff]
  intro hblank
  simp only [Text.isAsciiBlank, Bool.or_eq_true, beq_iff_eq] at hblank
  rcases hblank with (((rfl | rfl) | rfl) | rfl) | rfl <;> cases h

/-! ## What stands behind the marks -/

/-- A text without the blanks around it and the marks in front. -/
def untagged (text : String) : List Char :=
  (Text.trim Text.isAsciiBlank text.toList).dropWhile isTagMark

theorem parseTagged_eq (text : String) : parseTagged text
    = if (untagged text).head?.any Char.isDigit then parse (String.ofList (untagged text))
      else .error .malformed := rfl

/-- There are no blanks around what starts with a digit behind the marks. -/
theorem trimmed_untagged (h : (untagged text).head?.any Char.isDigit = true) :
    trimmed (String.ofList (untagged text)) = String.ofList (untagged text) := by
  obtain ⟨c, hc, hdigit⟩ := (Option.any_eq_true _ _).1 h
  have hne : untagged text ≠ [] := by
    intro hnil
    rw [hnil] at hc
    cases hc
  have hlast : ∀ d ∈ (untagged text).getLast?, Text.isAsciiBlank d = false := by
    intro d hd
    -- The last character is that of the trimmed text.
    obtain ⟨marks, hmarks⟩ : untagged text <:+ Text.trim Text.isAsciiBlank text.toList :=
      List.dropWhile_suffix isTagMark
    have hend : d ∈ (Text.trim Text.isAsciiBlank text.toList).getLast? := by
      rwa [← hmarks, List.getLast?_append_of_ne_nil _ hne]
    exact Text.getLast?_trim d hend
  rw [trimmed, String.toList_ofList, Text.trim_eq_self _ hlast]
  intro d hd
  rw [Option.mem_def.1 hc] at hd
  cases hd
  exact isAsciiBlank_of_isDigit hdigit

/-! ## Tagged texts -/

/-- A text is, but for the blanks around it, a run of marks with `body` behind. -/
def IsTagged (text body : String) : Prop :=
  ∃ marks : String, (∀ c ∈ marks.toList, c = '=' ∨ c = 'v') ∧ trimmed text = marks ++ body

/-- The characters of a tagged version. -/
theorem exists_marks_of_isTagged (h : IsTagged text (toString v)) :
    ∃ marks, (∀ c ∈ marks, isTagMark c = true)
      ∧ Text.trim Text.isAsciiBlank text.toList = marks ++ v.chars := by
  obtain ⟨marks, hmarks, htext⟩ := h
  refine ⟨marks.toList, fun c hc => isTagMark_iff.2 (hmarks c hc), ?_⟩
  have htoList := congrArg String.toList htext
  rwa [trimmed, String.toList_ofList, String.toList_append, toList_toString] at htoList

/-- What is the text of a version stands behind the marks. -/
theorem untagged_eq_of_isTagged (h : IsTagged text (toString v)) : untagged text = v.chars := by
  obtain ⟨marks, hmarks, hcore⟩ := exists_marks_of_isTagged h
  obtain ⟨c, cs, hchars, hdigit⟩ := Range.Operand.exists_chars_eq_cons v
  rw [untagged, hcore, List.dropWhile_append_of_pos hmarks, hchars, List.dropWhile_cons_of_neg]
  rw [isTagMark_of_isDigit hdigit]
  exact Bool.false_ne_true

/-- What stands behind the marks, with the marks in front, is the trimmed text. -/
theorem isTagged_untagged (text : String) : IsTagged text (String.ofList (untagged text)) := by
  let core := Text.trim Text.isAsciiBlank text.toList
  refine ⟨String.ofList (core.takeWhile isTagMark), fun c hc => ?_, ?_⟩
  · rw [String.toList_ofList] at hc
    exact isTagMark_iff.1 (List.all_eq_true.1 List.all_takeWhile c hc)
  · rw [← String.ofList_append, untagged, List.takeWhile_append_dropWhile]
    rfl

/-- **A tagged version is read from a run of marks with a version behind.** -/
theorem parseTagged_eq_ok_iff : parseTagged text = .ok v
    ↔ (toString v).utf8ByteSize ≤ maxVersionBytes ∧ IsTagged text (toString v) := by
  rw [parseTagged_eq]
  constructor
  · intro h
    split at h
    · next hdigit =>
        rw [parse_eq_ok_iff, trimmed_untagged hdigit] at h
        obtain ⟨hsize, hbody⟩ := h
        rw [← hbody]
        exact ⟨hsize, isTagged_untagged text⟩
    · cases h
  · intro ⟨hsize, htagged⟩
    obtain ⟨c, cs, hchars, hdigit⟩ := Range.Operand.exists_chars_eq_cons v
    have hbody := untagged_eq_of_isTagged htagged
    have hread : parse (String.ofList v.chars) = .ok v := by
      rw [parse_eq_ok_iff]
      exact ⟨hsize, trimmed_toString v⟩
    rw [if_pos, hbody, hread]
    rw [hbody, hchars]
    exact hdigit

/-- The text of a version is tagged with no mark at all. -/
theorem isTagged_of_trimmed_eq {body : String} (h : trimmed text = body) : IsTagged text body :=
  ⟨"", fun _ hc => absurd hc List.not_mem_nil, by rw [h, String.empty_append]⟩

/-! ## Sizes -/

/-- Trimming makes no text longer. -/
theorem utf8ByteSize_trimmed_le (text : String) :
    (trimmed text).utf8ByteSize ≤ text.utf8ByteSize := by
  obtain ⟨lead, tail, -, -, htext⟩ := Text.exists_ends Text.isAsciiBlank text.toList
  have hjoin : text = String.ofList lead ++ (trimmed text ++ String.ofList tail) := by
    rw [trimmed, ← String.ofList_append, ← String.ofList_append, ← htext, String.ofList_toList]
  have hsize := congrArg String.utf8ByteSize hjoin
  rw [String.utf8ByteSize_append, String.utf8ByteSize_append] at hsize
  omega

theorem parseTagged_of_parse (h : parse text = .ok v) : parseTagged text = .ok v := by
  obtain ⟨hsize, htext⟩ := parse_eq_ok_iff.1 h
  rw [parseTagged_eq_ok_iff, ← htext]
  exact ⟨(utf8ByteSize_trimmed_le text).trans hsize, isTagged_of_trimmed_eq rfl⟩

/-! ## Signs of ranges -/

/-- The signs other than `=` start with a character that is neither a mark nor a digit. -/
theorem exists_sign_eq_cons {sign : List Char} (hs : sign ∈ Range.signs) (hne : sign ≠ [])
    (hequal : sign ≠ ['=']) : ∃ c cs, sign = c :: cs ∧ Text.isAsciiBlank c = false
      ∧ isTagMark c = false ∧ c.isDigit = false := by
  simp only [Range.signs, List.mem_cons, List.not_mem_nil, or_false] at hs
  rcases hs with rfl | rfl | rfl | rfl | rfl | rfl | rfl | rfl
  · exact absurd rfl hne
  · exact ⟨'>', ['='], by decide⟩
  · exact ⟨'<', ['='], by decide⟩
  · exact ⟨'>', [], by decide⟩
  · exact ⟨'<', [], by decide⟩
  · exact absurd rfl hequal
  · exact ⟨'^', [], by decide⟩
  · exact ⟨'~', [], by decide⟩

/-- No tagged version starts with the sign of a range, but for `=`. -/
theorem parseTagged_of_sign {lead sign rest : List Char}
    (hlead : ∀ c ∈ lead, Text.isAsciiBlank c = true) (hs : sign ∈ Range.signs) (hne : sign ≠ [])
    (hequal : sign ≠ ['=']) (htext : text.toList = lead ++ (sign ++ rest)) :
    parseTagged text = .error .malformed := by
  obtain ⟨c, cs, rfl, hblank, hmark, hdigit⟩ := exists_sign_eq_cons hs hne hequal
  obtain ⟨core, hcore⟩ := Text.exists_trim_eq_cons hlead hblank (cs ++ rest)
  rw [← List.cons_append, ← htext] at hcore
  have hbody : untagged text = c :: core := by
    rw [untagged, hcore, List.dropWhile_cons_of_neg (by simp [hmark])]
  rw [parseTagged_eq, hbody, if_neg]
  simp [hdigit]

/-- **Tagged versions are the versions with a run of marks in front.** The fields are those of the
    version that is read. In particular a text that is read as a version is read as the same tagged
    version, the text of a tagged version is read again, and no text that starts with a sign of a
    range, except `=`, is read as one. -/
theorem parseTagged_iff_isTagged (text : String) :
    (∀ v : Version, parseTagged text = .ok v ↔
      (toString v).utf8ByteSize ≤ 256 ∧ IsTagged text (toString v))
    ∧ (∀ t : Fields, (∃ v : Version, parseTagged text = .ok v ∧ v.fields = t) ↔
      t.text.utf8ByteSize ≤ 256 ∧ t.IsGrammatical ∧ IsTagged text t.text)
    ∧ (∀ v : Version, parse text = .ok v → parseTagged text = .ok v)
    ∧ (∀ v : Version, parseTagged text = .ok v → parseTagged (toString v) = .ok v)
    ∧ ∀ lead sign rest : List Char, (∀ c ∈ lead, Text.isAsciiBlank c = true) →
      sign ∈ Range.signs → sign ≠ [] → sign ≠ ['='] → text.toList = lead ++ (sign ++ rest) →
        parseTagged text = .error .malformed := by
  refine ⟨fun v => parseTagged_eq_ok_iff, fun t => ?_, fun v h => parseTagged_of_parse h,
    fun v h => ?_, fun lead sign rest hlead hs hne hequal htext => ?_⟩
  · constructor
    · rintro ⟨v, hv, rfl⟩
      rw [text_fields]
      obtain ⟨hsize, htagged⟩ := parseTagged_eq_ok_iff.1 hv
      exact ⟨hsize, exists_fields_eq_iff.1 ⟨v, rfl⟩, htagged⟩
    · intro ⟨hsize, hgrammar, htagged⟩
      obtain ⟨v, rfl⟩ := exists_fields_eq_iff.2 hgrammar
      rw [text_fields] at hsize htagged
      exact ⟨v, parseTagged_eq_ok_iff.2 ⟨hsize, htagged⟩, rfl⟩
  · obtain ⟨hsize, -⟩ := parseTagged_eq_ok_iff.1 h
    exact parseTagged_eq_ok_iff.2 ⟨hsize, isTagged_of_trimmed_eq (trimmed_toString v)⟩
  · exact parseTagged_of_sign hlead hs hne hequal htext

/-- A mixed run of marks, none at all, and the sign of a range. -/
theorem parseTagged_iff_isTagged_marks :
    let v : Version := ⟨.ofNat 1, .ofNat 20, .zero, [.zero], [⟨['0', '5'], by decide⟩]⟩
    IsTagged "\t=v=1.20.0-0+05 " (toString v)
    ∧ parseTagged "\t=v=1.20.0-0+05 " = .ok v
    ∧ parse "1.20.0-0+05\n" = .ok v ∧ parseTagged "1.20.0-0+05\n" = .ok v
    ∧ parseTagged (toString v) = .ok v
    ∧ parseTagged " >=1.20.0" = .error .malformed := by
  intro v
  have htagged : IsTagged "\t=v=1.20.0-0+05 " (toString v) := ⟨"=v=", by simp, by decide⟩
  have hparse : parse "1.20.0-0+05\n" = .ok v := by decide
  have hread := ((parseTagged_iff_isTagged "\t=v=1.20.0-0+05 ").1 v).2 ⟨by decide, htagged⟩
  obtain ⟨-, -, hsame, hback, -⟩ := parseTagged_iff_isTagged "1.20.0-0+05\n"
  obtain ⟨-, -, -, -, hsign⟩ := parseTagged_iff_isTagged " >=1.20.0"
  refine ⟨htagged, hread, hparse, hsame v hparse, hback v (hsame v hparse), ?_⟩
  exact hsign [' '] ['>', '='] "1.20.0".toList (List.forall_mem_singleton.2 rfl) (by decide)
    (by decide) (by decide) (by decide)

end Versioning.Version
