import Versioning.Cli.Style
import Versioning.Text.Control

set_option autoImplicit false

/-! # The journal

While a command works it makes entries in a journal: a level, the place that speaks, and a message.
A filter decides which of them are shown. It is a list of directives, each a limit for all places
whose name starts with a scope. The directive with the longest scope that fits decides, and an entry
without such a directive is not shown.

An entry is shown in full, but it cannot be taken for another one: the further lines of a message
are set in, and without styles its control sequences are left out. Filters only ever choose among
entries: nothing here reaches an answer or an exit code.

Directives may be followed by a slash and a regular expression that messages have to match. Such
expressions are not covered here: a slash is read as any other character of a scope or a level. -/

namespace Versioning.Cli

/-! ## Entries -/

/-- How weighty an entry is. -/
inductive Level
  | error
  | warn
  | info
  | debug
  | trace
deriving DecidableEq

namespace Level

/-- All levels, from the weightiest. -/
def all : List Level := [error, warn, info, debug, trace]

/-- The place of a level in the list of all, from one. -/
def rank : Level → Nat
  | error => 1
  | warn => 2
  | info => 3
  | debug => 4
  | trace => 5

/-- The name of a level. -/
def name : Level → String
  | error => "ERROR"
  | warn => "WARN"
  | info => "INFO"
  | debug => "DEBUG"
  | trace => "TRACE"

/-- The styles of a level. -/
def styles : Level → List Style
  | error => [.bold, .red]
  | warn => [.yellow]
  | info => [.green]
  | debug => [.blue]
  | trace => [.cyan]

/-- The name of a level, filled up with spaces to five columns. -/
def column (l : Level) : String :=
  String.ofList (l.name.toList ++ List.replicate (5 - l.name.length) ' ')

end Level

/-- An entry of the journal. -/
structure Entry where
  level : Level
  /-- The place that speaks. -/
  place : String
  message : String
deriving DecidableEq

namespace Entry

/-- A text whose further lines are set in by four spaces. -/
def indented (text : String) : String :=
  String.ofList <| text.toList.flatMap fun c =>
    if c == '\n' then ['\n', ' ', ' ', ' ', ' '] else [c]

/-- An entry in plain text: the level and the place in brackets, then the message. -/
def plainLine (e : Entry) : String :=
  "[" ++ e.level.column ++ " " ++ e.place ++ "] " ++ indented e.message ++ "\n"

/-- An entry with a coloured level between grey brackets. -/
def styledLine (e : Entry) : String :=
  styled [.grey] "[" ++ styled e.level.styles e.level.column ++ " " ++ e.place
    ++ styled [.grey] "]" ++ " " ++ indented e.message ++ "\n"

/-- How an entry is shown. Only where styles are used may control sequences stand in it. -/
def line (styles : Bool) (e : Entry) : String :=
  if styles then e.styledLine
  else String.ofList (Text.withoutControls e.plainLine.toList)

end Entry

/-! ## Filters -/

/-- A limit for all places, or for those whose name starts with a scope. -/
structure Directive where
  /-- The beginning of the names, if not all places are meant. -/
  scope : Option (List Char)
  /-- The highest rank that is shown; zero shows nothing. -/
  limit : Nat
deriving DecidableEq

namespace Directive

/-- The length of the scope; all places are the shortest scope. -/
def reach (d : Directive) : Nat := (d.scope.getD []).length

/-- Whether a directive is about a place. -/
def covers (d : Directive) (place : String) : Bool :=
  d.scope.all (·.isPrefixOf place.toList)

end Directive

/-- A list of directives, no two with the same scope. -/
abbrev Filter := List Directive

namespace Filter

/-- The limit that a name of a level stands for, in any case of ASCII letters. -/
def limit? (name : List Char) : Option Nat :=
  let upper := name.map Char.toUpper
  if upper == "OFF".toList then some 0
  else (Level.all.find? fun l => l.name.toList == upper).map Level.rank

/-- A directive: a level for all places, a scope for all levels, or a scope with its level behind an
    equals sign. Of anything else, the part that cannot be understood. -/
def directive (cs : List Char) : Except (List Char) Directive :=
  let all := Level.trace.rank
  match cs.splitOn '=' with
  | [name] => .ok ((limit? name).elim ⟨some name, all⟩ fun limit => ⟨none, limit⟩)
  | [scope, name] =>
      let name := Text.trim Text.isBlank name
      if name.isEmpty then .ok ⟨some scope, all⟩
      else
        match limit? name with
        | some limit => .ok ⟨some scope, limit⟩
        | none => .error name
  | _ => .error cs

/-- Add a directive at the end, or in the place of one with the same scope. -/
def add : Filter → Directive → Filter
  | [], d => [d]
  | e :: f, d => if e.scope = d.scope then d :: f else e :: add f d

/-- What a text says: directives, or parts that cannot be understood, separated by commas. A
    slash is not told from other characters. -/
def readings (text : String) : List (Except (List Char) Directive) :=
  (text.toList.splitOn ',').filterMap fun piece =>
    let piece := Text.trim Text.isBlank piece
    if piece.isEmpty then none else some (directive piece)

/-- Add the directives of a text, one after the other. -/
def addText (f : Filter) (text : String) : Filter :=
  ((readings text).filterMap Except.toOption).foldl add f

/-- A line for each part of a text that cannot be understood, and that is therefore passed over. -/
def warnings (text : String) : String :=
  String.join <| (readings text).filterMap fun reading =>
    match reading with
    | .ok _ => none
    | .error part =>
        some ("warning: invalid logging spec '" ++ String.ofList part ++ "', ignoring it\n")

/-- The longer of two scopes decides; of equal ones, the later. -/
def closer (best : Option Directive) (d : Directive) : Option Directive :=
  match best with
  | some b => if b.reach ≤ d.reach then some d else some b
  | none => some d

/-- The directive that decides on a place. -/
def deciding? (f : Filter) (place : String) : Option Directive :=
  (f.filter (·.covers place)).foldl closer none

/-- Whether an entry is shown. -/
def shows (f : Filter) (e : Entry) : Bool :=
  (f.deciding? e.place).any fun d => e.level.rank ≤ d.limit

/-- The lines of the entries that are shown. -/
def lines (f : Filter) (styles : Bool) (entries : List Entry) : String :=
  String.join ((entries.filter f.shows).map (Entry.line styles))

end Filter

end Versioning.Cli
