import Versioning.Version.Reader

set_option autoImplicit false

/-! # Reading versions leniently

Two readings accept more than the text of a version. `Version.parseTagged` reads the name of a
release tag, such as `v1.2.3`: blanks and a leading run of `=` and `v` are dropped, and what is left
has to be a version. `Version.findIn?` finds the first digit run of any text and reads on: a dot and
a digit run directly behind it give the minor number, and once more the patch number. What is
missing is zero, leading zeros are dropped, and everything behind is ignored, so only a text without
an ASCII digit holds no version. -/

namespace Versioning.Version

/-! ## Tagged versions -/

/-- The characters that may mark a tag, in front of its version. -/
def isTagMark (c : Char) : Bool :=
  c == '=' || c == 'v'

/-- Read a version behind blanks and a run of tag marks. What is left has to start with a digit, and
    the limit on the length applies to it alone. -/
def parseTagged (text : String) : Except Fault Version :=
  let rest := (Text.trim Text.isAsciiBlank text.toList).dropWhile isTagMark
  if rest.head?.any Char.isDigit then parse (String.ofList rest) else .error .malformed

/-! ## Versions in a text -/

/-- The numeral of the longest digit run at the front of a text, with the text behind it; none if
    the text does not start with a digit. -/
def takeRun? (cs : List Char) : Option (Numeral × List Char) :=
  (Numeral.ofDigits? (cs.takeWhile Char.isDigit)).map fun n => (n, cs.dropWhile Char.isDigit)

/-- The same behind a dot at the front of a text. -/
def takeDottedRun? : List Char → Option (Numeral × List Char)
  | '.' :: cs => takeRun? cs
  | _ => none

/-- The first version-like part of a list of characters, filled up with zeros. -/
def findInChars? (cs : List Char) : Option Version :=
  match takeRun? (cs.dropWhile (!·.isDigit)) with
  | none => none
  | some (major, rest) =>
      match takeDottedRun? rest with
      | none => some ⟨major, .zero, .zero, [], []⟩
      | some (minor, rest) =>
          match takeDottedRun? rest with
          | none => some ⟨major, minor, .zero, [], []⟩
          | some (patch, _) => some ⟨major, minor, patch, [], []⟩

theorem isSome_takeRun? {c : Char} (cs : List Char) (h : c.isDigit = true) :
    (takeRun? (c :: cs)).isSome = true := by
  have hall : (List.takeWhile Char.isDigit (c :: cs)).all Char.isDigit = true :=
    List.all_takeWhile
  have hne : (List.takeWhile Char.isDigit (c :: cs)).isEmpty = false := by
    rw [List.takeWhile_cons_of_pos h]
    rfl
  rw [takeRun?, Option.isSome_map, Numeral.ofDigits?, dif_pos hall, hne]
  rfl

theorem exists_dropWhile_eq {cs : List Char} (h : ∃ c ∈ cs, c.isDigit = true) :
    ∃ c rest, cs.dropWhile (!·.isDigit) = c :: rest ∧ c.isDigit = true := by
  induction cs with
  | nil =>
      obtain ⟨c, hc, -⟩ := h
      cases hc
  | cons d cs ih =>
      cases hd : d.isDigit with
      | true => exact ⟨d, cs, List.dropWhile_cons_of_neg (by simp [hd]), hd⟩
      | false =>
          rw [List.dropWhile_cons_of_pos (by simp [hd])]
          refine ih ?_
          simpa [hd] using h

/-- A text with a digit holds a version. -/
theorem isSome_findInChars? {cs : List Char} (h : ∃ c ∈ cs, c.isDigit = true) :
    (findInChars? cs).isSome = true := by
  obtain ⟨c, rest, hdrop, hdigit⟩ := exists_dropWhile_eq h
  obtain ⟨⟨major, behind⟩, hrun⟩ := Option.isSome_iff_exists.1 (isSome_takeRun? rest hdigit)
  rw [findInChars?, hdrop, hrun]
  dsimp only
  split
  · rfl
  · split <;> rfl

/-- The first version-like part of a text, filled up with zeros. -/
def findIn? (text : String) : Option Version :=
  findInChars? text.toList

end Versioning.Version
