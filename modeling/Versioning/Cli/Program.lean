import Versioning.Cli.Answer

set_option autoImplicit false

/-! # The program

`Invocation.outcome` is a run of the program as a function: from the arguments, the places where the
settings file may be, and the environment, to the exit code and the two texts. A command line that
cannot be understood wins over settings that cannot be loaded, and both end with exit code 2. Else
the exit code is 0 for a positive answer and 1 for a negative one.

The format decides where a refusal is shown, and the filter which lines come before it on the error
side; the exit code depends on the answer alone. -/

namespace Versioning.Cli

/-! ## Invocations and outcomes -/

/-- The environment variables that matter. -/
structure Environment where
  /-- Further directives for the filter of the journal. -/
  journalFilter : Option String := none
  forcedColours : Option String := none
  refusedColours : Option String := none
deriving DecidableEq

/-- All that a run of the program depends on. -/
structure Invocation where
  /-- The arguments behind the name of the program. -/
  arguments : List String
  /-- What the directories have under the name of the settings file, from the start upward. -/
  placements : List Settings.Placement
  environment : Environment
deriving DecidableEq

/-- What a run comes to. -/
inductive Outcome
  /-- The run ended with an exit code and two texts. -/
  | finished (code : Nat) (output errors : String)
  | misuse
  | unusableSettings
deriving DecidableEq

/-- The exit code of a run. -/
def Outcome.exitCode : Outcome → Nat
  | finished code _ _ => code
  | misuse => 2
  | unusableSettings => 2

/-! ## Styles -/

/-- Whether styles are used for refusals: they are forced by any value but `0`. -/
def Environment.stylesRefusals (e : Environment) : Bool :=
  e.forcedColours.any (· != "0")

/-- Whether styles are used in the journal: there they are forced by any value but the empty one,
    `0` included, unless a value that is not empty refuses colours. -/
def Environment.stylesJournal (e : Environment) : Bool :=
  e.forcedColours.any (!·.isEmpty) && e.refusedColours.all (·.isEmpty)

/-- The line of a refusal, with the input bold and the reason red if styles are used. -/
def refusalLine (styles : Bool) (input reason : String) : String :=
  if styles then styled [.bold] input ++ ": " ++ styled [.red] reason ++ "\n"
  else input ++ ": " ++ reason ++ "\n"

/-! ## What is shown -/

/-- The text on the output side. -/
def Answer.output (format : Format) (a : Answer) : String :=
  match format, a.reply with
  | .plain, .result plain _ => plain ++ "\n"
  | .json, .result _ document => toString document ++ "\n"
  | .plain, .refusal _ _ => ""
  | .json, .refusal input reason =>
      toString (Document.record [("input", .text input), ("error", .text reason)]) ++ "\n"

/-- The text on the error side, the entries of the journal apart. -/
def Answer.complaint (format : Format) (styles : Bool) (a : Answer) : String :=
  match format, a.reply with
  | .plain, .refusal input reason => refusalLine styles input reason
  | _, _ => ""

/-- The exit code of an answer. -/
def Answer.exitCode (a : Answer) : Nat := if a.positive then 0 else 1

/-! ## Options and settings -/

/-- The format of a run: JSON by its own flag, else what a flag names, else what settings say. -/
def Options.chosenFormat (o : Options) (settings : Settings) : Format :=
  if o.json then .json
  else (o.format.orElse fun _ => settings.format).getD .plain

/-- The directives that the options or, without any, the settings give. -/
def Options.directives (o : Options) (settings : Settings) : String :=
  match o.verbosity with
  | 0 => settings.journalFilter.getD "warn"
  | 1 => "info"
  | 2 => "debug"
  | _ => "trace"

/-- The filter of a run: the directives of the environment are added last. -/
def Options.filter (o : Options) (settings : Settings) (e : Environment) : Filter :=
  (Filter.addText [] (o.directives settings)).addText (e.journalFilter.getD "")

/-- What a run shows of its journal: first the parts of its filter that cannot be understood. -/
def Options.journal (o : Options) (settings : Settings) (e : Environment) (entries : List Entry) :
    String :=
  Filter.warnings (o.directives settings) ++ Filter.warnings (e.journalFilter.getD "")
    ++ (o.filter settings e).lines e.stylesJournal entries

/-! ## Runs -/

/-- The name of the program. -/
def programName : String := "weaver"

/-- The line that names the program and its version. -/
def versionLine : String := programName ++ " 0.0.1\n"

/-- The text on how the program is used. -/
def usage : String :=
  "Semantic Versioning 2.0.0 toolkit\n\nUsage: " ++ programName ++ " [OPTIONS] <COMMAND>"
    ++ "\n\nCommands: " ++ ", ".intercalate (CommandName.all.map CommandName.text)
    ++ "\nOptions: -v, --verbose, --format <FORMAT>, --json, -h, --help, -V, --version\n"

/-- Run a command with its options. -/
def runCommand (command : Command) (options : Options) (settings : Settings) (e : Environment) :
    Outcome :=
  let answer := command.answer settings
  let format := options.chosenFormat settings
  .finished answer.exitCode (answer.output format)
    (options.journal settings e answer.entries ++ answer.complaint format e.stylesRefusals)

/-- **What a run of the program comes to.** -/
def Invocation.outcome (i : Invocation) : Outcome :=
  match Request.ofArguments? i.arguments with
  | none => .misuse
  | some .version => .finished 0 versionLine ""
  | some .help => .finished 0 usage ""
  | some (.run command options) =>
      match Settings.search i.placements with
      | none => .unusableSettings
      | some settings => runCommand command options settings i.environment

end Versioning.Cli
