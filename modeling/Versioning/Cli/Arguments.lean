import Versioning.Cli.Settings

set_option autoImplicit false

/-! # Arguments

A command line is a list of flags, the name of a command, and the arguments of the command with more
flags between them. Flags on either side of the name are checked apart: on one side a flag other
than `-v` may be given once, and one side may not hold both `--json` and `--format`. Of a flag on
both sides the later counts.

An argument that starts with a hyphen is a flag unless it is a lone hyphen or stands behind `--`.
Short flags may share a hyphen. A long flag takes its value from behind an equals sign or from the
next argument, which may not look like a flag. -/

namespace Versioning.Cli

/-! ## Requests -/

/-- A command with its arguments. -/
inductive Command
  | validate (version : String)
  | parse (version : String)
  | clean (version : String)
  | coerce (text : String)
  | compare (left right : String)
  | satisfies (version range : String)
  | minimum (range : String)
  | sort (versions : List String) (descending : Bool) (range : Option String)
  | inc (version : String) (release : Option String)
  | dec (version release : String)
deriving DecidableEq

/-- What the flags for all commands ask for. -/
structure Options where
  /-- How often more entries of the journal were asked for. -/
  verbosity : Nat := 0
  /-- The format that was named. -/
  format : Option Format := none
  /-- Whether JSON was asked for by its own flag. -/
  json : Bool := false
deriving DecidableEq

/-- What a command line asks for. -/
inductive Request
  | version
  | help
  | run (command : Command) (options : Options)
deriving DecidableEq

/-! ## Flags -/

/-- The flags there are. -/
inductive Flag
  | verbose
  | format
  | json
  | reverse
  | range
  | version
  | help
deriving DecidableEq

namespace Flag

/-- The long name of a flag. -/
def long : Flag → String
  | verbose => "verbose"
  | format => "format"
  | json => "json"
  | reverse => "reverse"
  | range => "range"
  | version => "version"
  | help => "help"

/-- The short name of a flag, if it has one. -/
def short? : Flag → Option Char
  | verbose => some 'v'
  | reverse => some 'r'
  | version => some 'V'
  | help => some 'h'
  | format | json | range => none

/-- Whether a flag takes a value. -/
def takesValue : Flag → Bool
  | format | range => true
  | verbose | json | reverse | version | help => false

end Flag

/-! ## One side of the name -/

/-- What was given on one side of the name of the command. -/
structure Side where
  /-- What the flags for all commands ask for. -/
  options : Options := {}
  /-- Whether the order is to be turned around. -/
  reverse : Bool := false
  range : Option String := none
  /-- The arguments that are no flags. -/
  words : List String := []
deriving DecidableEq

/-- Why reading the arguments stops before their end. -/
inductive Stop
  | misuse
  | version
  | help
deriving DecidableEq

/-- What may be given on one side. -/
structure Scheme where
  flags : List Flag
  /-- The most words, if there is a limit. -/
  maxWords : Option Nat

namespace Side

/-- Note a flag that takes no value. -/
def note (s : Side) : Flag → Except Stop Side
  | .verbose => .ok { s with options.verbosity := s.options.verbosity + 1 }
  | .json => if s.options.json then .error .misuse else .ok { s with options.json := true }
  | .reverse => if s.reverse then .error .misuse else .ok { s with reverse := true }
  | .version => .error .version
  | .help => .error .help
  | .format | .range => .error .misuse

/-- Note a flag with its value. -/
def noteValue (s : Side) (f : Flag) (value : String) : Except Stop Side :=
  match f, Format.ofName? value with
  | .format, some format =>
      if s.options.format.isSome then .error .misuse
      else .ok { s with options.format := some format }
  | .range, _ => if s.range.isSome then .error .misuse else .ok { s with range := some value }
  | _, _ => .error .misuse

/-- Note a word. -/
def noteWord (scheme : Scheme) (s : Side) (word : String) : Except Stop Side :=
  if scheme.maxWords.all (s.words.length < ·) then .ok { s with words := s.words ++ [word] }
  else .error .misuse

/-- Note short flags that share a hyphen. -/
def noteShort (scheme : Scheme) (s : Side) (letters : List Char) : Except Stop Side :=
  letters.foldlM (fun s letter =>
    match scheme.flags.find? fun f => f.short? == some letter with
    | some f => s.note f
    | none => .error .misuse) s

end Side

/-! ## Reading -/

/-- How an argument looks. -/
inductive Look
  /-- Two hyphens alone. -/
  | divider
  /-- A long flag, with the text behind an equals sign if there is one. -/
  | long (name : String) (value : Option String)
  | short (letters : List Char)
  | word

/-- Look at an argument. -/
def look (argument : String) : Look :=
  match argument.toList with
  | ['-', '-'] => .divider
  | '-' :: '-' :: cs =>
      let value := (cs.dropWhile (· != '=')).tail?
      .long (String.ofList (cs.takeWhile (· != '='))) (value.map String.ofList)
  | ['-'] => .word
  | '-' :: cs => .short cs
  | _ => .word

/-- What reading one side ends with: what was given, and the text behind the first word if only
    flags are read. -/
abbrev Reading := Except Stop (Side × List String)

/-- Read one side. If `toWord`, reading ends in front of the first word; otherwise words belong to
    the side. `awaiting` is a flag whose value is to come. -/
def readSide (scheme : Scheme) (toWord : Bool) : Option Flag → Side → List String → Reading
  | none, s, [] => .ok (s, [])
  | some _, _, [] => .error .misuse
  | some f, s, a :: rest =>
      match look a with
      | .word => do readSide scheme toWord none (← s.noteValue f a) rest
      | _ => .error .misuse
  | none, s, a :: rest =>
      match look a with
      | .word =>
          if toWord then .ok (s, a :: rest)
          else do readSide scheme toWord none (← s.noteWord scheme a) rest
      | .divider =>
          if toWord then .error .misuse
          else do return (← rest.foldlM (Side.noteWord scheme) s, [])
      | .short letters => do readSide scheme toWord none (← s.noteShort scheme letters) rest
      | .long name value =>
          match scheme.flags.find? (fun f => f.long == name), value with
          | none, _ => .error .misuse
          | some f, none =>
              if f.takesValue then readSide scheme toWord (some f) s rest
              else do readSide scheme toWord none (← s.note f) rest
          | some f, some value =>
              if f.takesValue then do readSide scheme toWord none (← s.noteValue f value) rest
              else .error .misuse

/-- Whether one side asks for a format in two ways. -/
def Side.conflicting (s : Side) : Bool := s.options.json && s.options.format.isSome

/-! ## Commands -/

/-- The names of commands. -/
inductive CommandName
  | validate
  | parse
  | clean
  | coerce
  | compare
  | satisfies
  | minimum
  | sort
  | inc
  | dec
deriving DecidableEq

namespace CommandName

/-- All names. -/
def all : List CommandName :=
  [validate, parse, clean, coerce, compare, satisfies, minimum, sort, inc, dec]

/-- A name as it is given. -/
def text : CommandName → String
  | validate => "validate"
  | parse => "parse"
  | clean => "clean"
  | coerce => "coerce"
  | compare => "compare"
  | satisfies => "satisfies"
  | minimum => "minimum"
  | sort => "sort"
  | inc => "inc"
  | dec => "dec"

/-- What may be given behind a name. -/
def scheme : CommandName → Scheme
  | validate | parse | clean | coerce | minimum => ⟨[.verbose, .format, .json, .help], some 1⟩
  | compare | satisfies | inc | dec => ⟨[.verbose, .format, .json, .help], some 2⟩
  | sort => ⟨[.verbose, .format, .json, .help, .reverse, .range], none⟩

/-- The command of a name with what was given behind it, if nothing is missing. -/
def command? (name : CommandName) (s : Side) : Option Command :=
  match name, s.words with
  | validate, [version] => some (.validate version)
  | parse, [version] => some (.parse version)
  | clean, [version] => some (.clean version)
  | coerce, [text] => some (.coerce text)
  | compare, [left, right] => some (.compare left right)
  | satisfies, [version, range] => some (.satisfies version range)
  | minimum, [range] => some (.minimum range)
  | sort, version :: versions => some (.sort (version :: versions) s.reverse s.range)
  | inc, [version] => some (.inc version none)
  | inc, [version, release] => some (.inc version (some release))
  | dec, [version, release] => some (.dec version release)
  | _, _ => none

end CommandName

/-- What may be given in front of the name of the command. -/
def outerScheme : Scheme := ⟨[.verbose, .format, .json, .version, .help], none⟩

/-- The options of both sides: of two, those behind the name. -/
def Options.override (outer inner : Options) : Options where
  verbosity := if inner.verbosity = 0 then outer.verbosity else inner.verbosity
  format := inner.format.orElse fun _ => outer.format
  json := inner.json || outer.json

/-- Read the arguments behind a name. -/
def readCommand (outer : Side) (name : CommandName) (rest : List String) : Except Stop Request := do
  let (inner, _) ← readSide name.scheme false none {} rest
  match name.command? inner with
  | some command =>
      if inner.conflicting || outer.conflicting then .error .misuse
      else return .run command (outer.options.override inner.options)
  | none => .error .misuse

/-- Read the names behind the word `help`. -/
def readHelp : List String → Except Stop Request
  | [] => .ok .help
  | [name] =>
      if name == "help" || CommandName.all.any (·.text == name) then .ok .help else .error .misuse
  | _ => .error .misuse

/-- Read a command line up to where it stops. -/
def readArguments (arguments : List String) : Except Stop Request := do
  match ← readSide outerScheme true none {} arguments with
  | (_, []) => .error .misuse
  | (outer, word :: rest) =>
      if word == "help" then readHelp rest
      else
        match CommandName.all.find? fun name => name.text == word with
        | some name => readCommand outer name rest
        | none => .error .misuse

/-- What a command line asks for; none if it cannot be understood. -/
def Request.ofArguments? (arguments : List String) : Option Request :=
  match readArguments arguments with
  | .ok request => some request
  | .error .version => some .version
  | .error .help => some .help
  | .error .misuse => none

end Versioning.Cli
