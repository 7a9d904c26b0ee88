import Versioning.Text.Quoted

set_option autoImplicit false

/-! # JSON documents

The answers of the command line in JSON: a record of plain values, or a list of texts. A document is
written on one line without blanks, and the fields of a record in the order of their names. In
strings only the quote, the backslash and the characters below the space are escaped. -/

namespace Versioning.Cli

/-- A plain value of a record. -/
inductive Datum
  | null
  | flag (b : Bool)
  | number (n : Int)
  | text (s : String)
deriving DecidableEq

/-- A JSON document. -/
inductive Document
  /-- An object with plain values. -/
  | record (fields : List (String × Datum))
  /-- An array of strings. -/
  | texts (items : List String)
deriving DecidableEq

namespace Document

/-! ## Strings -/

/-- A code point as four hexadecimal digits. -/
def fourDigits (n : Nat) : List Char :=
  let ds := Text.hexDigits n
  List.replicate (4 - ds.length) '0' ++ ds

/-- How a character is written in a string. -/
def stringChar (c : Char) : List Char :=
  match c with
  | '"' => ['\\', '"']
  | '\\' => ['\\', '\\']
  | '\x08' => ['\\', 'b']
  | '\x0c' => ['\\', 'f']
  | '\n' => ['\\', 'n']
  | '\r' => ['\\', 'r']
  | '\t' => ['\\', 't']
  | c => if c < ' ' then ['\\', 'u'] ++ fourDigits c.toNat else [c]

/-- A string. -/
def stringChars (s : String) : List Char :=
  '"' :: s.toList.flatMap stringChar ++ ['"']

/-! ## Documents -/

/-- The text of a plain value. -/
def datumChars : Datum → List Char
  | .null => ['n', 'u', 'l', 'l']
  | .flag true => ['t', 'r', 'u', 'e']
  | .flag false => ['f', 'a', 'l', 's', 'e']
  | .number n => (toString n).toList
  | .text s => stringChars s

/-- A field of a record. -/
def fieldChars (field : String × Datum) : List Char :=
  stringChars field.1 ++ ':' :: datumChars field.2

/-- The characters of a document. -/
def chars : Document → List Char
  | record fields =>
      let sorted := fields.mergeSort fun a b => decide (a.1 ≤ b.1)
      '{' :: [','].intercalate (sorted.map fieldChars) ++ ['}']
  | texts items => '[' :: [','].intercalate (items.map stringChars) ++ [']']

instance : ToString Document := ⟨fun d => String.ofList d.chars⟩

end Document

end Versioning.Cli
