import Versioning.Cli.Arguments
import Versioning.Cli.Document
import Versioning.Cli.Journal
import Versioning.Selection

set_option autoImplicit false

/-! # Answers of commands

`Command.answer` is what a command comes to: whether the answer is positive, what is to be shown,
and the entries of the journal in the order in which the work makes them. It knows nothing of
formats and of the filter of the journal, so neither can change the verdict. -/

namespace Versioning.Cli

/-! ## Answers -/

/-- What a command shows. -/
inductive Reply
  /-- A result, as plain text and as a document. -/
  | result (plain : String) (document : Document)
  /-- An input that cannot be handled, and why. -/
  | refusal (input reason : String)
deriving DecidableEq

/-- What a command comes to. -/
structure Answer where
  positive : Bool
  reply : Reply
  entries : List Entry := []
deriving DecidableEq

namespace Answer

/-- The components of a version, a line each. -/
def describe (v : Version) : String :=
  "major: " ++ toString v.major ++ "\nminor: " ++ toString v.minor
    ++ "\npatch: " ++ toString v.patch
    ++ "\nprerelease: " ++ v.preReleaseText?.getD "-" ++ "\nbuild: " ++ v.buildText?.getD "-"

/-- The text of a part that may be missing. -/
def optional : Option String → Datum
  | some s => .text s
  | none => .null

/-- A version as a record. -/
def versionDocument (v : Version) : Document :=
  .record [("version", .text (toString v)), ("major", .text (toString v.major)),
    ("minor", .text (toString v.minor)), ("patch", .text (toString v.patch)),
    ("prerelease", optional v.preReleaseText?), ("build", optional v.buildText?)]

/-- The positive answer that shows a version. -/
def version (v : Version) (entries : List Entry := []) : Answer :=
  ⟨true, .result (toString v) (versionDocument v), entries⟩

/-- The negative answer that refuses an input. -/
def refuse (input reason : String) (entries : List Entry := []) : Answer :=
  ⟨false, .refusal input reason, entries⟩

/-- The version that was read from an input, or the refusal of the input. -/
def ofResult (input : String) : Except Fault Version → Answer
  | .ok v => version v
  | .error f => refuse input f.message

/-! ## Entries of the journal -/

/-- The place that reads ranges. -/
def rangePlace : String := "weaver_semver::constraint::range"

/-- The place that works on conjunctions. -/
def conjunctionPlace : String := "weaver_semver::constraint::multi_constraint"

/-- The place of the commands on ranges. -/
def rangeCommandPlace : String := "weaver::range"

/-- The entry on a branch that cannot be read. -/
def defectEntry : Range.Shape.Defect → Entry
  | .blank => ⟨.debug, rangePlace, "Empty range branch"⟩
  | .unreadable text => ⟨.debug, rangePlace, "Unable to parse range branch \"" ++ text ++ "\""⟩

/-- The entry on a remark about the lowest version of a range. -/
def remarkEntry : Range.Remark → Entry
  | .outOfBounds c v => ⟨.trace, conjunctionPlace,
      "range " ++ toString c ++ " has no minimum, " ++ toString v ++ " is out of bounds"⟩
  | .resolved c v => ⟨.trace, conjunctionPlace,
      "range " ++ toString c ++ " resolves to " ++ toString v⟩
  | .branchMinimum b v => ⟨.trace, rangePlace,
      "branch \"" ++ b.pretty ++ "\" minimum " ++ toString v⟩

/-- The entries on reading a range. -/
def defectEntries (range : String) : List Entry :=
  (Range.defects range).map defectEntry

/-- The entries on reading a range that a command is about. -/
def readingEntries (text : String) (r : Range) : List Entry :=
  defectEntries text ++
    [⟨.debug, rangeCommandPlace, "Parsed range " ++ Text.quoted text ++ " as " ++ toString r⟩]

/-- The entry on a text that should be a version, if it is none. -/
def invalidEntry (message : String → String) (version : String) : List Entry :=
  match Version.parseTagged version with
  | .ok _ => []
  | .error _ => [⟨.warn, rangeCommandPlace, message (Text.quoted version)⟩]

/-! ## Commands -/

/-- Whether a text is a version. -/
def validate (text : String) : Answer :=
  let valid := Version.isVersion text
  { positive := valid
    reply := .result (if valid then "valid" else "invalid")
      (.record [("version", .text text), ("valid", .flag valid)])
    entries := [⟨.debug, "weaver::check",
      "validate " ++ Text.quoted text ++ " -> " ++ toString valid⟩] }

/-- The components of a version. -/
def parse (text : String) : Answer :=
  match Version.parse text with
  | .ok v => ⟨true, .result (describe v) (versionDocument v), []⟩
  | .error f => refuse text f.message

/-- The first version-like part of a text. -/
def coerce (text : String) : Answer :=
  match Version.findIn? text with
  | some v => version v
  | none => refuse text "no version found"

/-- The order of two versions as a number. -/
def orderNumber : Ordering → Int
  | .lt => -1
  | .eq => 0
  | .gt => 1

/-- The order of two versions. -/
def compare (left right : String) : Answer :=
  match Version.parse left, Version.parse right with
  | .ok a, .ok b =>
      let order := orderNumber (Ord.compare a b)
      ⟨true, .result (toString order)
        (.record [("left", .text left), ("right", .text right), ("order", .number order)]), []⟩
  | .error f, _ => refuse left f.message
  | .ok _, .error f => refuse right f.message

/-- Whether a version lies in a range. -/
def satisfies (version range : String) : Answer :=
  match Range.parse range with
  | .error f => refuse range f.message
  | .ok r =>
      let satisfied := r.admitsText version
      { positive := satisfied
        reply := .result (toString satisfied)
          (.record [("version", .text version), ("range", .text range),
            ("satisfies", .flag satisfied)])
        entries := readingEntries range r ++
          invalidEntry (fun quoted => quoted ++ " is not a valid version") version }

/-- The lowest version of a range. -/
def minimum (range : String) : Answer :=
  match Range.parse range with
  | .error f => refuse range f.message
  | .ok r =>
      let entries := readingEntries range r ++ r.remarks.map remarkEntry
      match r.minimum? with
      | some v => version v entries
      | none => refuse range "range admits no version" entries

/-- Versions in order, those in a range if one is given. -/
def sort (versions : List String) (isDescending : Bool) (range : Option String) : Answer :=
  let kept := match range with
    | some range => satisfying versions range
    | none => versions
  let sorted := if isDescending then descending kept else ascending kept
  { positive := true
    reply := .result ("\n".intercalate sorted) (.texts sorted)
    entries := versions.flatMap (invalidEntry fun quoted => "Skipping invalid version " ++ quoted)
      ++ range.toList.flatMap defectEntries }

/-- A version that is stepped by `step` to the next or the one before of a kind. -/
def step (walk : String → ReleaseKind → Except Fault Version) (text kindName : String) : Answer :=
  match ReleaseKind.ofName kindName with
  | .error f => refuse kindName f.message
  | .ok kind =>
      match walk text kind with
      | .ok v => version v [⟨.info, "weaver::bump",
          kind.name ++ " " ++ text ++ " -> " ++ toString v⟩]
      | .error f => refuse text f.message

end Answer

/-- What a command comes to. The settings say which release kind steps a version up if none is
    given; without either it is the patch. -/
def Command.answer (settings : Settings) : Command → Answer
  | validate version => .validate version
  | parse version => .parse version
  | clean version => .ofResult version (Version.parseTagged version)
  | coerce text => .coerce text
  | compare left right => .compare left right
  | satisfies version range => .satisfies version range
  | minimum range => .minimum range
  | sort versions descending range => .sort versions descending range
  | inc version release =>
      let kindName := (release.orElse fun _ => settings.releaseKind).getD ReleaseKind.patch.name
      .step Version.advanceText version kindName
  | dec version release => .step Version.retreatText version release

end Versioning.Cli
