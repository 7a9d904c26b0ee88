import Versioning.Text.Blank
import Versioning.Version.Basic
import Versioning.Version.Fault

set_option autoImplicit false

/-! # Reading versions strictly

`Version.parse` accepts a text of at most 256 bytes that is, but for ASCII blanks around it, the
text of a version. Components are never filled in. The reader steps over a text from the left: each
step takes what it can from the front and gives what it read together with the text that is left. -/

namespace Versioning

namespace Version

namespace Reader

/-! ## Steps -/

/-- Take the longest run of digits, which has to be a canonical numeral. -/
def numeral (cs : List Char) : Option (Numeral × List Char) :=
  (Numeral.ofChars? (cs.takeWhile Char.isDigit)).map fun n => (n, cs.dropWhile Char.isDigit)

/-- Step over the character `mark`. -/
def mark (m : Char) : List Char → Option (List Char)
  | [] => none
  | c :: cs => if c = m then some cs else none

/-- The characters of a dotted list: those of words, and the dot. -/
def isListChar (c : Char) : Bool :=
  isWordChar c || c == '.'

/-- Take the longest dotted list. Each of its pieces has to be accepted by `read`. -/
def dottedList {α : Type} (read : List Char → Option α) (cs : List Char) :
    Option (List α × List Char) :=
  (((cs.takeWhile isListChar).splitOn '.').mapM read).map fun xs => (xs, cs.dropWhile isListChar)

/-- If the next character is `m`, step over it and take a dotted list; otherwise take nothing. -/
def markedList {α : Type} (m : Char) (read : List Char → Option α) (cs : List Char) :
    Option (List α × List Char) :=
  match mark m cs with
  | some rest => dottedList read rest
  | none => some ([], cs)

theorem mark_eq_some {m : Char} {cs rest : List Char} (h : mark m cs = some rest) :
    cs = m :: rest := by
  cases cs with
  | nil => cases h
  | cons c cs =>
      simp only [mark] at h
      split at h
      · next hc => rw [hc, Option.some.inj h]
      · cases h

/-! ## Versions -/

/-- Read the text of a version, without blanks, to its end. -/
def version? (cs : List Char) : Option Version := do
  let (major, cs) ← numeral cs
  let cs ← mark '.' cs
  let (minor, cs) ← numeral cs
  let cs ← mark '.' cs
  let (patch, cs) ← numeral cs
  let (preRelease, cs) ← markedList '-' Identifier.ofChars? cs
  let (build, cs) ← markedList '+' Word.ofChars? cs
  if cs.isEmpty then some ⟨major, minor, patch, preRelease, build⟩ else none

end Reader

/-- Read a version strictly: the length is checked first, in bytes and with the blanks around. -/
def parse (text : String) : Except Fault Version :=
  if text.utf8ByteSize > maxVersionBytes then .error .tooLong
  else
    match Reader.version? (Text.trim Text.isAsciiBlank text.toList) with
    | some v => .ok v
    | none => .error .malformed

/-- Whether a text is a version. -/
def isVersion (text : String) : Bool :=
  (parse text).isOk

end Version

end Versioning
