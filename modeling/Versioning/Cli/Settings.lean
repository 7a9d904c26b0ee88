import Versioning.Toml.Reader

set_option autoImplicit false

/-! # Settings

The settings file is looked for in the directory where the program starts, then in each directory
above. The nearest regular file of its name is the only one that counts: `Settings.search` passes
over a directory of that name, and does not look beyond the file it finds, even if it cannot be
loaded. Keys that are not known are ignored; a known key of a wrong type makes the file unusable. -/

namespace Versioning.Cli

/-- How an answer is shown. -/
inductive Format
  | plain
  | json
deriving DecidableEq

namespace Format

/-- The name of a format. -/
def name : Format → String
  | plain => "plain"
  | json => "json"

/-- The format of a name. -/
def ofName? (name : String) : Option Format :=
  [plain, json].find? fun f => f.name == name

end Format

/-- What a settings file may say. -/
structure Settings where
  journalFilter : Option String := none
  format : Option Format := none
  /-- The release kind of the command that steps a version up. -/
  releaseKind : Option String := none
deriving DecidableEq

namespace Settings

/-! ## Reading -/

/-- The value of the only key of a section. The section may be missing; it may be an array, which
    gives its values in the order of the keys, or a date, which counts as a table without the key.
    The outer option is none if it is anything else. -/
def sectionValue? (t : Toml.Table) (name key : String) :
    Option (Option Toml.Value) :=
  match t.get? name with
  | none => some none
  | some (.table _ entries) => some (Toml.Table.get? entries key)
  | some (.array items) => some items.head?
  | some (.tables items) => some (items.head?.map (.table .header))
  | some .date => some none
  | some _ => none

/-- The text of a value that may be missing. -/
def text? : Option Toml.Value → Option (Option String)
  | none => some none
  | some (.text s) => some (some s)
  | some _ => none

/-- Whether a value holds nothing. -/
def isVoid : Toml.Value → Bool
  | .table _ [] | .array [] | .tables [] => true
  | _ => false

/-- The format of a value that may be missing: its name, or a table that has it as its only key,
    with nothing below. -/
def format? : Option Toml.Value → Option (Option Format)
  | none => some none
  | some (.text s) => (Format.ofName? s).map some
  | some (.table _ [(s, v)]) => if isVoid v then (Format.ofName? s).map some else none
  | some _ => none

/-- The settings of a document. -/
def ofTable? (t : Toml.Table) : Option Settings := do
  let journalFilter ← text? (← sectionValue? t "log" "level")
  let format ← format? (← sectionValue? t "output" "format")
  let releaseKind ← text? (← sectionValue? t "inc" "release")
  return ⟨journalFilter, format, releaseKind⟩

/-- The settings of the text of a file. -/
def read? (content : String) : Option Settings :=
  (Toml.read? content).bind ofTable?

/-! ## Search -/

/-- What a directory has under the name of the settings file. -/
inductive Placement
  | absent
  | directory
  /-- A regular file, with its text if it can be read as such. -/
  | file (content : Option String)
deriving DecidableEq

/-- The name of the settings file. -/
def fileName : String := "weaver.toml"

/-- A directory, given by the names on the way to it, and all directories above, nearest first. -/
def upward (directory : List String) : List (List String) :=
  (List.range (directory.length + 1)).reverse.map directory.take

/-- The settings of the nearest file, or the defaults without any; none if that file cannot be
    loaded. The placements are those of the directories from the start upward. -/
def search : List Placement → Option Settings
  | [] => some {}
  | .file content :: _ => content.bind read?
  | _ :: above => search above

end Settings

end Versioning.Cli
