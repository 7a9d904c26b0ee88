import Versioning.Range.Operand
import Versioning.Text.Blank

set_option autoImplicit false

/-! # Items

A branch of a range is a list of items, each an operand with or without a sigil in front: `^1.2`,
`>= 1.2.3`, `1.x`. Blanks may stand between a sigil and its operand, so `glue` removes the blanks
behind sigil characters before the branch is taken apart at the blanks that are left.

`Item.comparators?` says what an item asks for. It fails where the operand of a sigil cannot be read
and where a ceiling would not fit; text without a sigil that is no operand is loose, and asks for
nothing. -/

namespace Versioning.Range

/-! ## Sigils -/

/-- What may stand in front of an operand. -/
inductive Sigil
  /-- One of `<`, `<=`, `>` and `>=`: compare with the floor of the operand. -/
  | compare (operator : Operator)
  /-- A run of `=`: the same as the operand alone. -/
  | same
  /-- The sigil `^`: agree up to the first component that is not zero. -/
  | caret
  /-- The sigil `~`: agree on the major and, if given, the minor component. -/
  | tilde
deriving DecidableEq

/-- Whether a character may end a sigil. -/
def isSigilChar (c : Char) : Bool :=
  c == '>' || c == '<' || c == '=' || c == '^' || c == '~'

/-- The sigil in front of a text, if any, and the text behind it. -/
def Sigil.split : List Char → Option Sigil × List Char
  | '>' :: '=' :: cs => (some (.compare .greaterOrEqual), cs)
  | '<' :: '=' :: cs => (some (.compare .lessOrEqual), cs)
  | '>' :: cs => (some (.compare .greater), cs)
  | '<' :: cs => (some (.compare .less), cs)
  | '=' :: cs => (some .same, cs.dropWhile (· == '='))
  | '^' :: cs => (some .caret, cs)
  | '~' :: cs => (some .tilde, cs)
  | cs => (none, cs)

/-! ## Items -/

/-- A part of a branch between blanks. -/
structure Item where
  /-- The sigil in front, if there is one. -/
  sigil : Option Sigil
  /-- The operand, if what stands behind the sigil is one. -/
  operand : Option Operand
deriving DecidableEq

namespace Item

/-- Read an item. -/
def ofChars (cs : List Char) : Item :=
  let (sigil, rest) := Sigil.split cs
  ⟨sigil, Operand.ofChars? rest⟩

/-- Whether an item is an operand without any component, and no sigil. -/
def isWildcard (i : Item) : Bool :=
  i.sigil.isNone && i.operand.any Operand.isAny

/-- Whether an item is text without a sigil that is no operand. -/
def isLoose (i : Item) : Bool :=
  i.sigil.isNone && i.operand.isNone

/-- What an item asks of a version. -/
def comparators? : Item → Option (List Comparator)
  | ⟨none, none⟩ => some []
  | ⟨some _, none⟩ => none
  | ⟨none, some p⟩ => p.span?
  | ⟨some .same, some p⟩ => p.span?
  | ⟨some (.compare o), some p⟩ => some [⟨o, p.floor⟩]
  | ⟨some .caret, some p⟩ => p.upTo? p.leadingPlace
  | ⟨some .tilde, some p⟩ => p.upTo? p.minorPlace

end Item

/-! ## Items of a branch -/

/-- A text without the blanks that directly follow a sigil character; `afterSigil` tells whether the
    character before the text is one. -/
def glue (afterSigil : Bool) : List Char → List Char
  | [] => []
  | c :: cs =>
      if afterSigil && Text.isBlank c then glue true cs else c :: glue (isSigilChar c) cs

/-- The items of a branch, from left to right. -/
def items (cs : List Char) : List Item :=
  (Text.words (glue false cs)).map Item.ofChars

end Versioning.Range
