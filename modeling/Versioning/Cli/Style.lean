set_option autoImplicit false

/-! # Styles

A styled text stands between sequences that select its styles and the sequence that ends them all.
That sequence may also occur in the text itself, where it would end the styles too early; the styles
are therefore selected again behind it. -/

namespace Versioning.Cli

/-- A way to show a text. -/
inductive Style
  | bold
  | red
  | green
  | yellow
  | blue
  | cyan
  | grey
deriving DecidableEq

namespace Style

/-- The number of a style. -/
def number : Style → List Char
  | bold => ['1']
  | red => ['3', '1']
  | green => ['3', '2']
  | yellow => ['3', '3']
  | blue => ['3', '4']
  | cyan => ['3', '6']
  | grey => ['9', '0']

/-- The sequence that selects a style. -/
def start (s : Style) : List Char := ['\x1b', '['] ++ s.number ++ ['m']

/-- The sequence that ends all styles. -/
def stop : List Char := ['\x1b', '[', '0', 'm']

/-- A text in which each end of the styles is followed by the sequences `start` again. -/
def restyled (start : List Char) : List Char → List Char
  | '\x1b' :: '[' :: '0' :: 'm' :: cs => stop ++ start ++ restyled start cs
  | c :: cs => c :: restyled start cs
  | [] => []

end Style

/-- A text in some styles. -/
def styled (styles : List Style) (text : String) : String :=
  let start := styles.flatMap Style.start
  String.ofList (start ++ Style.restyled start text.toList ++ Style.stop)

end Versioning.Cli
