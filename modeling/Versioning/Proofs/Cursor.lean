import Mathlib.Data.String.Basic
import Versioning.Identifier

set_option autoImplicit false

/-! # Positions in a text

A text is stored as the bytes of its characters, one to four for each, and a position is a number of
bytes. Not every position is a place between two characters, and a slice may only be taken between
positions that are. `Behind` says which characters stand behind a position, and with them that there
is such a place: it is the invariant of a reader that walks over the bytes.

The first byte of a character tells whether the character is ASCII. So a reader that looks at single
bytes and only steps over those of ASCII characters goes from one character to the next one
(`Behind.step`), whatever characters there are in the text. -/

namespace Versioning.Text

/-! ## Bytes and slices -/

/-- The byte at a position of a text, if there is one. -/
def byte? (text : String) (pos : Nat) : Option UInt8 :=
  text.toByteArray[pos]?

/-- The part of a text between two positions. -/
def slice (text : String) (start stop : Nat) : String :=
  String.Pos.Raw.extract text ⟨start⟩ ⟨stop⟩

/-- Whether a position is in a text and lies between two characters or at an end. -/
def IsBoundary (text : String) (pos : Nat) : Prop :=
  (⟨pos⟩ : String.Pos.Raw).IsValid text

/-- The characters behind a position. -/
def Behind (text : String) (pos : Nat) (back : List Char) : Prop :=
  ∃ front, text.toList = front ++ back ∧ String.utf8Len front = pos

/-- The first byte of a character. -/
def leadByte (c : Char) : UInt8 :=
  (String.utf8EncodeChar c).head String.utf8EncodeChar_ne_nil

section Behind

variable {text : String} {pos : Nat} {mid back : List Char}

theorem behind_zero (text : String) : Behind text 0 text.toList :=
  ⟨[], rfl, rfl⟩

theorem Behind.append (h : Behind text pos (mid ++ back)) :
    Behind text (pos + String.utf8Len mid) back := by
  obtain ⟨front, htext, rfl⟩ := h
  exact ⟨front ++ mid, by rw [htext, List.append_assoc], String.utf8Len_append ..⟩

theorem Behind.isBoundary (h : Behind text pos back) : IsBoundary text pos := by
  obtain ⟨front, htext, rfl⟩ := h
  refine String.Pos.Raw.isValid_iff_exists_append.2 ⟨.ofList front, .ofList back, ?_, ?_⟩
  · rw [← String.ofList_append, ← htext, String.ofList_toList]
  · rw [String.rawEndPos_ofList]

theorem IsBoundary.le (h : IsBoundary text pos) : pos ≤ text.utf8ByteSize :=
  String.Pos.Raw.IsValid.le_rawEndPos h

/-- Nothing is behind the end of a text alone. -/
theorem Behind.eq_size_iff (h : Behind text pos back) : pos = text.utf8ByteSize ↔ back = [] := by
  obtain ⟨front, htext, rfl⟩ := h
  rw [← String.utf8Len_toList, htext, String.utf8Len_append, ← String.utf8Len_eq_zero]
  omega

/-- What is behind a position tells the position. -/
theorem Behind.unique {pos' : Nat} (h : Behind text pos back) (h' : Behind text pos' back) :
    pos = pos' := by
  obtain ⟨front, htext, rfl⟩ := h
  obtain ⟨front', htext', rfl⟩ := h'
  rw [List.append_cancel_right (htext.symm.trans htext')]

/-- Between two positions stands what is behind the one and not behind the other. -/
theorem Behind.slice {stop : Nat} (h : Behind text pos (mid ++ back)) (h' : Behind text stop back) :
    pos ≤ stop ∧ slice text pos stop = String.ofList mid := by
  obtain rfl := h.append.unique h'
  refine ⟨Nat.le_add_right _ _, ?_⟩
  obtain ⟨front, htext, rfl⟩ := h
  have htext' : text = String.ofList (front ++ mid ++ back) := by
    rw [List.append_assoc, ← htext, String.ofList_toList]
  rw [Text.slice, htext']
  exact String.extract_of_valid front mid back

/-- The bytes of a text are those of its characters. -/
theorem byte?_eq (text : String) (pos : Nat) :
    byte? text pos = (text.toList.flatMap String.utf8EncodeChar)[pos]? := by
  have hbytes : text.toByteArray = (text.toList.flatMap String.utf8EncodeChar).toByteArray :=
    String.utf8Encode_toList.symm
  rw [byte?, hbytes]
  by_cases h : pos < (text.toList.flatMap String.utf8EncodeChar).length
  · rw [List.getElem?_eq_getElem h, getElem?_pos _ _ (by rwa [List.size_toByteArray]),
      List.getElem_toByteArray]
  · rw [List.getElem?_eq_none (Nat.le_of_not_lt h),
      getElem?_neg _ _ (by rwa [List.size_toByteArray])]

theorem lt_of_byte? {b : UInt8} (h : byte? text pos = some b) : pos < text.utf8ByteSize := by
  obtain ⟨hlt, -⟩ := (getElem?_eq_some_iff ..).1 h
  exact hlt

theorem length_flatMap_utf8EncodeChar (cs : List Char) :
    (cs.flatMap String.utf8EncodeChar).length = String.utf8Len cs := by
  induction cs with
  | nil => rfl
  | cons c cs ih =>
      rw [List.flatMap_cons, List.length_append, ih, String.length_utf8EncodeChar,
        String.utf8Len_cons, Nat.add_comm]

/-- The byte at a boundary is the first byte of the character behind it. -/
theorem Behind.byte? (h : Behind text pos back) : byte? text pos = back.head?.map leadByte := by
  obtain ⟨front, htext, rfl⟩ := h
  rw [byte?_eq, htext, List.flatMap_append, ← length_flatMap_utf8EncodeChar,
    List.getElem?_append_right (Nat.le_refl _), Nat.sub_self]
  cases back with
  | nil => rfl
  | cons c back =>
      rw [List.flatMap_cons, ← List.head?_eq_getElem?, List.head?_append_of_ne_nil _
        String.utf8EncodeChar_ne_nil, List.head?_eq_some_head String.utf8EncodeChar_ne_nil]
      rfl

end Behind

/-! ## ASCII -/

section Ascii

variable {c : Char} {text : String} {pos : Nat} {back : List Char}

theorem utf8Size_of_ascii (h : c.toNat < 128) : c.utf8Size = 1 :=
  Char.utf8Size_eq_one_iff.2 (UInt32.le_iff_toNat_le.2 (Nat.le_of_lt_succ h))

theorem leadByte_of_ascii (h : c.toNat < 128) : leadByte c = UInt8.ofNat c.toNat := by
  simp only [leadByte, String.utf8EncodeChar_eq_singleton (utf8Size_of_ascii h), List.head_cons]
  rfl

theorem toNat_leadByte_of_ascii (h : c.toNat < 128) : (leadByte c).toNat < 128 := by
  rwa [leadByte_of_ascii h, UInt8.toNat_ofNat', Nat.mod_eq_of_lt (by omega)]

/-- An ASCII character is one byte, so one step leads behind it. -/
theorem Behind.step (hc : c.toNat < 128) (h : Behind text pos (c :: back)) :
    Behind text (pos + 1) back := by
  have hmid : Behind text pos ([c] ++ back) := h
  have hsize : String.utf8Len [c] = 1 := by
    rw [String.utf8Len_cons, utf8Size_of_ascii hc, String.utf8Len_nil]
  exact hsize ▸ hmid.append

/-- A character that is not ASCII starts with a byte that is not. -/
theorem leadByte_of_not_ascii (h : 128 ≤ c.toNat) : 128 ≤ (leadByte c).toNat := by
  have hc : ¬ c.val.toNat ≤ 0x7f := Nat.not_le.2 h
  unfold leadByte String.utf8EncodeChar
  simp only [hc, if_false]
  split
  · simp only [List.head_cons, UInt8.toNat_ofNat']
    omega
  · split <;>
      · simp only [List.head_cons, UInt8.toNat_ofNat']
        omega

end Ascii

/-- A class of ASCII characters, with the test for their bytes. -/
structure AsciiClass where
  isByte : UInt8 → Bool
  isChar : Char → Bool
  byte_lt : ∀ b, isByte b = true → b.toNat < 128
  char_lt : ∀ c, isChar c = true → c.toNat < 128
  isByte_ofNat : ∀ n < 128, isByte (UInt8.ofNat n) = isChar (Char.ofNat n)

namespace AsciiClass

/-- The ASCII digits. -/
def digit : AsciiClass where
  isByte b := 48 ≤ b && b ≤ 57
  isChar := Char.isDigit
  byte_lt b h := by
    simp only [Bool.and_eq_true, decide_eq_true_eq, UInt8.le_iff_toNat_le] at h
    exact Nat.lt_of_le_of_lt h.2 (by decide)
  char_lt c h := Nat.lt_of_le_of_lt (Char.isDigit_iff_toNat.1 h).2 (by decide)
  isByte_ofNat := by decide

/-- The characters of words. -/
def word : AsciiClass where
  isByte b := (48 ≤ b && b ≤ 57) || (65 ≤ b && b ≤ 90) || (97 ≤ b && b ≤ 122) || b == 45
  isChar := isWordChar
  byte_lt b h := by
    simp only [Bool.or_eq_true, Bool.and_eq_true, decide_eq_true_eq, beq_iff_eq,
      UInt8.le_iff_toNat_le] at h
    rcases h with ((h | h) | h) | rfl
    · exact Nat.lt_of_le_of_lt h.2 (by decide)
    · exact Nat.lt_of_le_of_lt h.2 (by decide)
    · exact Nat.lt_of_le_of_lt h.2 (by decide)
    · decide
  char_lt c h := by
    have := toNat_of_isWordChar h
    omega
  isByte_ofNat := by decide

/-- The test on the first byte of a character is that on the character. -/
theorem isByte_leadByte (k : AsciiClass) (c : Char) : k.isByte (leadByte c) = k.isChar c := by
  by_cases hc : c.toNat < 128
  · rw [leadByte_of_ascii hc, k.isByte_ofNat _ hc, Char.ofNat_toNat]
  · have hbyte : k.isByte (leadByte c) = false := by
      rw [← Bool.not_eq_true]
      intro h
      exact Nat.not_lt.2 (leadByte_of_not_ascii (Nat.le_of_not_lt hc)) (k.byte_lt _ h)
    have hchar : k.isChar c = false := by
      rw [← Bool.not_eq_true]
      exact fun h => hc (k.char_lt _ h)
    rw [hbyte, hchar]

end AsciiClass

/-- The first byte tells whether a character is a certain ASCII character. -/
theorem leadByte_eq_iff {m c : Char} (hm : m.toNat < 128) :
    leadByte c = UInt8.ofNat m.toNat ↔ c = m := by
  constructor
  · intro h
    by_cases hc : c.toNat < 128
    · rw [leadByte_of_ascii hc] at h
      have hnat := congrArg UInt8.toNat h
      rw [UInt8.toNat_ofNat', UInt8.toNat_ofNat', Nat.mod_eq_of_lt (by omega),
        Nat.mod_eq_of_lt (by omega)] at hnat
      exact Char.toNat_inj.1 hnat
    · have hlead := leadByte_of_not_ascii (Nat.le_of_not_lt hc)
      rw [h, UInt8.toNat_ofNat', Nat.mod_eq_of_lt (by omega)] at hlead
      omega
  · rintro rfl
    exact leadByte_of_ascii hm

end Versioning.Text
