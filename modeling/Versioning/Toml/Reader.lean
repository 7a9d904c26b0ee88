import Versioning.Toml.Scalar
import Versioning.Toml.Table

set_option autoImplicit false

/-! # Reading TOML

`Toml.read?` reads a document line by line: headers open tables, and the lines below a header add to
its table. Any fault in the text makes the whole document unreadable, and so does nesting beyond
`maxDepth`.

Each reading function takes what it can from the front and gives the text that is left. Those that
recur into nested texts are bounded by `fuel`; the length of the text is always enough, because
every step but one takes a character. -/

namespace Versioning.Toml

/-! ## Blanks, comments and ends of lines -/

/-- Characters that may stand in comments and strings: the tab and all that are no controls. -/
def isPlain (c : Char) : Bool := c == '\t' || (' ' ≤ c && c != '\x7f')

/-- A text without the spaces and tabs in front. -/
def skipSpaces (cs : List Char) : List Char := cs.dropWhile fun c => c == ' ' || c == '\t'

/-- A text behind a line feed, which a carriage return may precede. -/
def lineFeed? : List Char → Option (List Char)
  | '\n' :: cs => some cs
  | '\r' :: '\n' :: cs => some cs
  | _ => none

/-- A text without the spaces and the comment in front. -/
def skipComment (cs : List Char) : List Char :=
  match skipSpaces cs with
  | '#' :: rest => rest.dropWhile isPlain
  | rest => rest

/-- The text of the next line, if nothing but a comment is left of this one. -/
def endLine? (cs : List Char) : Option (List Char) :=
  match skipComment cs with
  | [] => some []
  | rest => lineFeed? rest

/-- A text without the spaces, comments and ends of lines in front. -/
def skipLines : Nat → List Char → List Char
  | 0, cs => cs
  | fuel + 1, cs =>
      let rest := skipComment cs
      match lineFeed? rest with
      | some next => skipLines fuel next
      | none => rest

/-! ## Strings -/

/-- The character with a code point of `count` hexadecimal digits. -/
def codePoint? (count : Nat) (cs : List Char) : Option (Char × List Char) :=
  let ds := cs.take count
  let n := runValue 16 ds
  if ds.length == count && ds.all isHexDigit && decide n.isValidChar then
    some (Char.ofNat n, cs.drop count)
  else none

/-- The character of an escape, behind its backslash. -/
def escape? : List Char → Option (Char × List Char)
  | 'b' :: cs => some ('\x08', cs)
  | 't' :: cs => some ('\t', cs)
  | 'n' :: cs => some ('\n', cs)
  | 'f' :: cs => some ('\x0c', cs)
  | 'r' :: cs => some ('\r', cs)
  | '"' :: cs => some ('"', cs)
  | '\\' :: cs => some ('\\', cs)
  | 'u' :: cs => codePoint? 4 cs
  | 'U' :: cs => codePoint? 8 cs
  | _ => none

/-- Put a character in front of what is read of a string. -/
def pushChar (c : Char) : Option (List Char × List Char) → Option (List Char × List Char) :=
  Option.map fun (read, rest) => (c :: read, rest)

/-- The rest of a string on one line, up to its closing quote. -/
def lineString? (quote : Char) : Nat → List Char → Option (List Char × List Char)
  | 0, _ => none
  | _ + 1, [] => none
  | fuel + 1, c :: cs =>
      if c == quote then some ([], cs)
      else if c == '\\' && quote == '"' then
        (escape? cs).bind fun (e, rest) => pushChar e (lineString? quote fuel rest)
      else if isPlain c then pushChar c (lineString? quote fuel cs)
      else none

/-- A text without the spaces, tabs and ends of lines in front. A carriage return is dropped only as
    a part of an end of a line. -/
def skipBlankLines : List Char → List Char
  | ' ' :: cs => skipBlankLines cs
  | '\t' :: cs => skipBlankLines cs
  | '\n' :: cs => skipBlankLines cs
  | '\r' :: '\n' :: cs => skipBlankLines cs
  | cs => cs

/-- The text behind a backslash that ends a line, without the blanks in front of the next word. -/
def continuation? (cs : List Char) : Option (List Char) :=
  (lineFeed? (skipSpaces cs)).map skipBlankLines

/-- The rest of a string over several lines, up to its three closing quotes. Up to two more quotes
    in front of them belong to the string. -/
def blockString? (quote : Char) : Nat → List Char → Option (List Char × List Char)
  | 0, _ => none
  | _ + 1, [] => none
  | fuel + 1, c :: cs =>
      if c == quote && [quote, quote].isPrefixOf cs then
        -- Four or five quotes in a row end the string as well: the first ones belong to it.
        let more := (cs.drop 2).takeWhile (· == quote)
        if more.length ≤ 2 then some (more, (cs.drop 2).dropWhile (· == quote)) else none
      else if c == '\\' && quote == '"' then
        -- Behind the last backslash of a line the string goes on with the next word.
        match continuation? cs with
        | some rest => blockString? quote fuel rest
        | none => (escape? cs).bind fun (e, rest) => pushChar e (blockString? quote fuel rest)
      else
        match lineFeed? (c :: cs) with
        | some rest => pushChar '\n' (blockString? quote fuel rest)
        | none => if isPlain c then pushChar c (blockString? quote fuel cs) else none

/-- A string behind its first quote. A line end directly behind three opening quotes is left out. -/
def string? (quote : Char) (cs : List Char) : Option (String × List Char) :=
  let read :=
    if [quote, quote].isPrefixOf cs then
      let body := cs.drop 2
      blockString? quote (body.length + 1) ((lineFeed? body).getD body)
    else lineString? quote (cs.length + 1) cs
  read.map fun (s, rest) => (String.ofList s, rest)

/-! ## Keys -/

/-- Characters of a key without quotes. -/
def isKeyChar (c : Char) : Bool := c.isAlphanum || c == '-' || c == '_'

/-- A key, with quotes on one line or without. -/
def key? : List Char → Option (String × List Char)
  | [] => none
  | c :: cs =>
      if c == '"' || c == '\'' then
        (lineString? c (cs.length + 1) cs).map fun (s, rest) => (String.ofList s, rest)
      else
        let run := (c :: cs).takeWhile isKeyChar
        if run.isEmpty then none else some (String.ofList run, (c :: cs).dropWhile isKeyChar)

/-- At most `limit` keys with dots between them; spaces may stand around each. -/
def keys? : Nat → List Char → Option (List String × List Char)
  | 0, _ => none
  | limit + 1, cs => do
      let (key, rest) ← key? (skipSpaces cs)
      match skipSpaces rest with
      | '.' :: rest =>
          let (keys, rest) ← keys? limit rest
          return (key :: keys, rest)
      | rest => return ([key], rest)

/-- The most keys of a dotted key, and the most brackets around a value. -/
def maxDepth : Nat := 79

/-- A dotted key. -/
def path? (cs : List Char) : Option (List String × List Char) := keys? maxDepth cs

/-! ## Values -/

/-- Characters of numbers, dates and the names of truth values. -/
def isScalarChar (c : Char) : Bool :=
  c.isAlphanum || c == '+' || c == '-' || c == '_' || c == '.' || c == ':'

/-- A truth value, a number or a date. A space may stand between a day and its time. -/
def scalar? (cs : List Char) : Option (Value × List Char) :=
  let run := cs.takeWhile isScalarChar
  let rest := cs.dropWhile isScalarChar
  -- Only a day and its time may have a space in between, so both are cut out before any test.
  let time := match rest with
    | ' ' :: next => next.takeWhile isScalarChar
    | _ => []
  if isDay run && time.head?.any Char.isDigit then
    if isDate (run ++ ' ' :: time) then some (.date, rest.drop (time.length + 1)) else none
  else if run == ['t', 'r', 'u', 'e'] then some (.boolean true, rest)
  else if run == ['f', 'a', 'l', 's', 'e'] then some (.boolean false, rest)
  else if isDate run then some (.date, rest)
  else if isInteger run || isFloat run then some (.number, rest)
  else none

mutual

/-- A value within which at most `depth` brackets may be open at once. -/
def value? : Nat → Nat → List Char → Option (Value × List Char)
  | 0, _, _ => none
  | _ + 1, _, [] => none
  | fuel + 1, depth, c :: cs =>
      if c == '"' || c == '\'' then (string? c cs).map fun (s, rest) => (.text s, rest)
      else if c == '[' || c == '\x7b' then
        match depth with
        | 0 => none
        | depth + 1 =>
            if c == '[' then (items? fuel depth cs).map fun (vs, rest) => (.array vs, rest)
            else
              match skipSpaces cs with
              | '\x7d' :: rest => some (.table .inline [], rest)
              | rest => (fields? fuel depth [] rest).map fun (t, rest) => (.table .inline t, rest)
      else scalar? (c :: cs)

/-- The rest of an array: values with commas between them, and perhaps one more at the end. -/
def items? : Nat → Nat → List Char → Option (List Value × List Char)
  | 0, _, _ => none
  | fuel + 1, depth, cs =>
      match skipLines cs.length cs with
      | ']' :: rest => some ([], rest)
      | rest => do
          let (v, rest) ← value? fuel depth rest
          match skipLines rest.length rest with
          | ',' :: rest =>
              let (vs, rest) ← items? fuel depth rest
              return (v :: vs, rest)
          | ']' :: rest => return ([v], rest)
          | _ => none

/-- The rest of an inline table that is not empty: keys with values, and commas between them. -/
def fields? : Nat → Nat → Table → List Char → Option (Table × List Char)
  | 0, _, _, _ => none
  | fuel + 1, depth, t, cs => do
      let (path, rest) ← path? cs
      match rest with
      | '=' :: rest =>
          let (v, rest) ← value? fuel depth (skipSpaces rest)
          let t ← Table.insert path v t
          match skipSpaces rest with
          | ',' :: rest => fields? fuel depth t rest
          | '\x7d' :: rest => return (t, rest)
          | _ => none
      | _ => none

end

/-! ## Documents -/

/-- The rest of a document, below the header with the keys `current`. -/
def lines? : Nat → List String → Table → List Char → Option Table
  | 0, _, _, _ => none
  | fuel + 1, current, root, cs =>
      match endLine? cs with
      | some [] => some root
      | some rest => lines? fuel current root rest
      | none =>
          match skipSpaces cs with
          | '[' :: '[' :: rest => do
              let (path, rest) ← path? rest
              match rest with
              | ']' :: ']' :: rest =>
                  lines? fuel path (← Table.openElement path root) (← endLine? rest)
              | _ => none
          | '[' :: rest => do
              let (path, rest) ← path? rest
              match rest with
              | ']' :: rest => lines? fuel path (← Table.openHeader path root) (← endLine? rest)
              | _ => none
          | rest => do
              let (path, rest) ← path? rest
              match rest with
              | '=' :: rest =>
                  -- Two steps are enough for each character, as an opening bracket takes two.
                  let (v, rest) ← value? (2 * rest.length + 2) maxDepth (skipSpaces rest)
                  lines? fuel current (← Table.within (Table.insert path v) current root)
                    (← endLine? rest)
              | _ => none

/-- Read a document; a byte order mark in front is passed over. -/
def read? (text : String) : Option Table :=
  let cs := match text.toList with
    | '\uFEFF' :: cs => cs
    | cs => cs
  lines? (cs.length + 1) [] [] cs

end Versioning.Toml
