import Mathlib.Data.List.Induction
import Mathlib.Data.List.Infix
import Versioning.Proofs.Given
import Versioning.Proofs.Verdict

set_option autoImplicit false

/-! # The settings of a run

A run is started in a directory of a file tree, and the directories above it are those whose names
are the beginnings of its name. `Settings.IsNearest` says which of them holds the settings file that
counts: the longest beginning under which there is a regular file. What the search comes to is told
by that file alone (`Settings.search_eq_iff`), so nothing farther up can matter, whether the nearest
file leaves an option out or cannot be loaded.

Of the settings that were found, what the command line says comes first. The format decides what is
shown of an answer, and on which side: `Reply.IsShown` has one case for each format and each kind of
reply, so that no two formats can be mistaken for one another. -/

namespace Versioning.Cli

namespace Settings

/-! ## The nearest file -/

/-- What stands under the name of the settings file in each directory. A directory is given by the
    names on the way to it. -/
abbrev Tree := List String → Placement

variable {tree : Tree} {start directory : List String} {content : Option String}

/-- The first directory on the way up from `start` in which the name is that of a regular file. -/
structure IsNearest (tree : Tree) (start directory : List String) (content : Option String) :
    Prop where
  isAbove : directory <+: start
  isFile : tree directory = .file content
  notBelow : ∀ d, d <+: start → directory.length < d.length → ∀ c, tree d ≠ .file c

/-- Whether there is no regular file of that name on the way up. -/
def IsBare (tree : Tree) (start : List String) : Prop :=
  ∀ d, d <+: start → ∀ c, tree d ≠ .file c

/-- What a search may find: what the nearest file says, or the defaults without any file. A file
    that cannot be loaded says nothing. -/
inductive IsFound (tree : Tree) (start : List String) : Option Settings → Prop
  | nearest {directory : List String} {content : Option String}
      (h : IsNearest tree start directory content) : IsFound tree start (content.bind read?)
  | bare (h : IsBare tree start) : IsFound tree start (some {})

/-! ## The search -/

/-- The way up from a directory leads through the one above. -/
theorem upward_concat (directory : List String) (name : String) :
    upward (directory ++ [name]) = (directory ++ [name]) :: upward directory := by
  have hlength : (directory ++ [name]).length = directory.length + 1 := List.length_append
  unfold upward
  rw [hlength, List.range_succ, List.reverse_append, List.map_append, ← hlength]
  refine congrArg₂ (· :: ·) List.take_length (List.map_congr_left fun i hi => ?_)
  have hi : i ≤ directory.length := by simpa [Nat.lt_succ_iff] using hi
  exact List.take_append_of_le_length hi

theorem search_cons_of_ne_file {p : Placement} (h : ∀ c, p ≠ .file c) (above : List Placement) :
    search (p :: above) = search above := by
  cases p with
  | absent | directory => rfl
  | file content => exact absurd rfl (h content)

theorem search_of_isNearest (h : IsNearest tree start directory content) :
    search ((upward start).map tree) = content.bind read? := by
  induction start using List.reverseRecOn with
  | nil =>
      obtain rfl := List.prefix_nil.1 h.isAbove
      show search [tree []] = _
      rw [h.isFile]
      rfl
  | append_singleton start name ih =>
      rw [upward_concat, List.map_cons]
      rcases List.prefix_concat_iff.1 h.isAbove with rfl | habove
      · rw [h.isFile]
        rfl
      · have hlength : directory.length < (start ++ [name]).length := by
          rw [List.length_append]
          exact Nat.lt_succ_of_le habove.length_le
        rw [search_cons_of_ne_file (h.notBelow _ List.prefix_rfl hlength)]
        exact ih ⟨habove, h.isFile, fun d hd => h.notBelow d (hd.trans (List.prefix_append _ _))⟩

theorem search_of_isBare (h : IsBare tree start) : search ((upward start).map tree) = some {} := by
  induction start using List.reverseRecOn with
  | nil => exact search_cons_of_ne_file (h [] List.prefix_rfl) []
  | append_singleton start name ih =>
      rw [upward_concat, List.map_cons, search_cons_of_ne_file (h _ List.prefix_rfl)]
      exact ih fun d hd => h d (hd.trans (List.prefix_append _ _))

theorem isNearest_self (h : tree start = .file content) : IsNearest tree start start content :=
  ⟨List.prefix_rfl, h, fun _ hd hlength => absurd hd.length_le (Nat.not_le.2 hlength)⟩

theorem IsNearest.concat {name : String} (h : IsNearest tree start directory content)
    (hname : ∀ c, tree (start ++ [name]) ≠ .file c) :
    IsNearest tree (start ++ [name]) directory content := by
  refine ⟨h.isAbove.trans (List.prefix_append _ _), h.isFile, fun d hd hlength => ?_⟩
  rcases List.prefix_concat_iff.1 hd with rfl | hd
  · exact hname
  · exact h.notBelow d hd hlength

/-- There is a nearest file if there is any. -/
theorem exists_isNearest (h : ¬ IsBare tree start) :
    ∃ directory content, IsNearest tree start directory content := by
  obtain ⟨d, hd, content, hfile⟩ : ∃ d, d <+: start ∧ ∃ c, tree d = .file c := by
    simpa [IsBare] using h
  induction start using List.reverseRecOn with
  | nil =>
      obtain rfl := List.prefix_nil.1 hd
      exact ⟨[], content, isNearest_self hfile⟩
  | append_singleton start name ih =>
      by_cases htop : ∃ c, tree (start ++ [name]) = .file c
      · obtain ⟨c, hc⟩ := htop
        exact ⟨_, c, isNearest_self hc⟩
      · have hname : ∀ c, tree (start ++ [name]) ≠ .file c := fun c hc => htop ⟨c, hc⟩
        have hd' : d <+: start := (List.prefix_concat_iff.1 hd).resolve_left fun he =>
          hname content (he ▸ hfile)
        obtain ⟨directory, c, hnearest⟩ := ih (fun hbare => hbare d hd' content hfile) hd'
        exact ⟨directory, c, hnearest.concat hname⟩

theorem exists_isFound (tree : Tree) (start : List String) : ∃ found, IsFound tree start found := by
  by_cases h : IsBare tree start
  · exact ⟨_, .bare h⟩
  · obtain ⟨directory, content, hnearest⟩ := exists_isNearest h
    exact ⟨_, .nearest hnearest⟩

/-- **The search finds what the nearest file says.** -/
theorem search_eq_iff {found : Option Settings} :
    search ((upward start).map tree) = found ↔ IsFound tree start found := by
  have hsearch : ∀ {found}, IsFound tree start found →
      search ((upward start).map tree) = found := by
    intro found h
    cases h with
    | nearest h => exact search_of_isNearest h
    | bare h => exact search_of_isBare h
  refine ⟨fun h => ?_, hsearch⟩
  obtain ⟨found', hfound⟩ := exists_isFound tree start
  rwa [← h, hsearch hfound]

end Settings

/-! ## Layers -/

/-- What the first of some layers says that says anything; the default if none does. -/
def firstOf {α : Type} (layers : List (Option α)) (default : α) : α :=
  (layers.findSome? id).getD default

/-- The answer of stepping a version up by the release kind of a name. -/
structure Answer.IsStep (a : Answer) (text name : String) : Prop where
  stepped : ∀ kind v, ReleaseKind.ofName name = .ok kind → Version.advanceText text kind = .ok v →
    a.positive = true ∧ a.reply = .result (toString v) (Answer.versionDocument v)
  refused : ∀ kind f, ReleaseKind.ofName name = .ok kind →
    Version.advanceText text kind = .error f →
      a.positive = false ∧ a.reply = .refusal text f.message
  unknown : ∀ f, ReleaseKind.ofName name = .error f →
    a.positive = false ∧ a.reply = .refusal name f.message

section Layers

variable {arguments : List String} {command : Command} {o : Options}

theorem Answer.isStep_step (text name : String) :
    (Answer.step Version.advanceText text name).IsStep text name where
  stepped kind v hkind hv := by simp [Answer.step, hkind, hv, Answer.version]
  refused kind f hkind hf := by simp [Answer.step, hkind, hf, Answer.refuse]
  unknown f hf := by simp [Answer.step, hf, Answer.refuse]

theorem chosenFormat_eq (h : Request.ofArguments? arguments = some (.run command o))
    (settings : Settings) :
    o.chosenFormat settings
      = firstOf [if asksForJson arguments then some .json else none, namedFormat? arguments,
          settings.format] .plain := by
  obtain ⟨hjson, hformat, -⟩ := ofArguments?_gives h
  rw [Options.chosenFormat, ← hformat, ← hjson]
  cases o.json <;> cases o.format <;> cases settings.format <;> rfl

theorem isStep_of_inc {version : String} {release : Option String} (settings : Settings) :
    ((Command.inc version release).answer settings).IsStep version
      (firstOf [release, settings.releaseKind] "patch") := by
  have hname : firstOf [release, settings.releaseKind] "patch"
      = (release.orElse fun _ => settings.releaseKind).getD ReleaseKind.patch.name := by
    cases release <;> cases settings.releaseKind <;> rfl
  rw [hname]
  exact Answer.isStep_step _ _

end Layers

/-! ## Formats -/

/-- How a reply is shown in a format: the text on the output side, and what follows the journal on
    the error side. In plain text a refusal is a line on the error side, and there is no output. In
    JSON it is a record with the input and the reason. -/
inductive Reply.IsShown (styles : Bool) : Format → Reply → String → String → Prop
  | plainResult (plain : String) (document : Document) :
      IsShown styles .plain (.result plain document) (plain ++ "\n") ""
  | jsonResult (plain : String) (document : Document) :
      IsShown styles .json (.result plain document) (toString document ++ "\n") ""
  | plainRefusal (input reason : String) :
      IsShown styles .plain (.refusal input reason) "" (refusalLine styles input reason)
  | jsonRefusal (input reason : String) :
      IsShown styles .json (.refusal input reason)
        (toString (Document.record [("input", .text input), ("error", .text reason)]) ++ "\n") ""

theorem Answer.isShown (a : Answer) (format : Format) (styles : Bool) :
    a.reply.IsShown styles format (a.output format) (a.complaint format styles) := by
  obtain ⟨positive, reply, entries⟩ := a
  cases reply with
  | result plain document =>
      cases format with
      | plain => exact .plainResult plain document
      | json => exact .jsonResult plain document
  | refusal input reason =>
      cases format with
      | plain => exact .plainRefusal input reason
      | json => exact .jsonRefusal input reason

/-- A reply is shown in one way only. -/
theorem Reply.IsShown.unique {styles : Bool} {format : Format} {reply : Reply}
    {output output' complaint complaint' : String}
    (h : reply.IsShown styles format output complaint)
    (h' : reply.IsShown styles format output' complaint') :
    output = output' ∧ complaint = complaint' := by
  cases h <;> cases h' <;> exact ⟨rfl, rfl⟩

/-- The record of a version has its fields in the order of their names. -/
theorem Answer.chars_versionDocument (v : Version) :
    (Answer.versionDocument v).chars = '\x7b' :: [','].intercalate
      [Document.fieldChars ("build", Answer.optional v.buildText?),
        Document.fieldChars ("major", .text (toString v.major)),
        Document.fieldChars ("minor", .text (toString v.minor)),
        Document.fieldChars ("patch", .text (toString v.patch)),
        Document.fieldChars ("prerelease", Answer.optional v.preReleaseText?),
        Document.fieldChars ("version", .text (toString v))] ++ ['\x7d'] := by
  simp [Answer.versionDocument, Document.chars, List.mergeSort]

/-- The record of a refusal has the reason first. -/
theorem Document.chars_refusal (input reason : String) :
    (Document.record [("input", .text input), ("error", .text reason)]).chars
      = '\x7b' :: [','].intercalate [Document.fieldChars ("error", .text reason),
        Document.fieldChars ("input", .text input)] ++ ['\x7d'] := by
  simp [Document.chars, List.mergeSort]

/-! ## Runs -/

/-- A run that is started in a directory of a tree. -/
def Invocation.startedIn (tree : Settings.Tree) (start arguments : List String) (e : Environment) :
    Invocation :=
  ⟨arguments, (Settings.upward start).map tree, e⟩

section Runs

variable {tree tree' : Settings.Tree} {start start' directory directory' arguments : List String}
variable {content : Option String} {e : Environment}

/-- Only the content of the nearest file matters: not what else there is in the tree, nor where. -/
theorem outcome_congr (h : Settings.IsNearest tree start directory content)
    (h' : Settings.IsNearest tree' start' directory' content) :
    (Invocation.startedIn tree' start' arguments e).outcome
      = (Invocation.startedIn tree start arguments e).outcome := by
  simp only [Invocation.outcome, Invocation.startedIn, Settings.search_of_isNearest h,
    Settings.search_of_isNearest h']

theorem outcome_of_isFound {command : Command} {o : Options} {settings : Settings}
    (hrun : Request.ofArguments? arguments = some (.run command o))
    (hfound : Settings.IsFound tree start (some settings)) :
    (Invocation.startedIn tree start arguments e).outcome = runCommand command o settings e :=
  Invocation.Runs.outcome_eq ⟨hrun, Settings.search_eq_iff.2 hfound⟩

/-- **The settings of a run are those of the nearest file**, or the defaults without any: what else
    there is in the tree does not matter, not even if the nearest file leaves an option out, and if
    it cannot be loaded a command ends with exit code 2. Only the version and the usage are shown
    without a look at the settings. The format in which the answer is shown and the release kind are
    those of the command line, else those of the settings, else the defaults. -/
theorem outcome_by_nearest (tree : Settings.Tree) (start arguments : List String)
    (e : Environment) :
    let i := Invocation.startedIn tree start arguments e
    (∃ found, Settings.IsFound tree start found)
    ∧ (∀ directory content, Settings.IsNearest tree start directory content →
        ∀ tree' start' directory', Settings.IsNearest tree' start' directory' content →
          (Invocation.startedIn tree' start' arguments e).outcome = i.outcome)
    ∧ ((∀ command o, Request.ofArguments? arguments ≠ some (.run command o)) →
        ∀ tree' start', (Invocation.startedIn tree' start' arguments e).outcome = i.outcome)
    ∧ ∀ command o, Request.ofArguments? arguments = some (.run command o) →
      (Settings.IsFound tree start none → i.outcome.exitCode = 2)
      ∧ ∀ settings, Settings.IsFound tree start (some settings) →
        let format := firstOf [if asksForJson arguments then some .json else none,
          namedFormat? arguments, settings.format] .plain
        let answer := command.answer settings
        (∃ output complaint, answer.reply.IsShown e.stylesRefusals format output complaint
          ∧ i.outcome = .finished answer.exitCode output
            (o.journal settings e answer.entries ++ complaint))
        ∧ ∀ version release, command = .inc version release →
          wordsOf arguments = "inc" :: version :: release.toList
          ∧ answer.IsStep version (firstOf [release, settings.releaseKind] "patch") := by
  intro i
  refine ⟨Settings.exists_isFound tree start, fun directory content h tree' start' directory' h' =>
    outcome_congr h h', fun hno tree' start' => ?_, fun command o hrun => ⟨fun hnone => ?_,
    fun settings hfound => ⟨?_, ?_⟩⟩⟩
  · simp only [i, Invocation.outcome, Invocation.startedIn]
    split
    · rfl
    · rfl
    · rfl
    · next command o hrun => exact absurd hrun (hno command o)
  · have hsearch := Settings.search_eq_iff.2 hnone
    simp only [i, Invocation.outcome, Invocation.startedIn, hrun, hsearch, Outcome.exitCode]
  · refine ⟨_, _, Answer.isShown _ _ _, ?_⟩
    rw [outcome_of_isFound hrun hfound, runCommand, chosenFormat_eq hrun]
  · rintro version release rfl
    exact ⟨(ofArguments?_gives hrun).2.2, isStep_of_inc settings⟩

/-- A directory of the name is passed over, and a file above the nearest one says nothing about the
    options that the nearest one leaves out. It does not help either if that one cannot be loaded.
    The format may come from each of the layers, and a refusal is shown in it, too. -/
theorem outcome_by_nearest_minor :
    let tree (content : String) : Settings.Tree := fun
      | [] => .file (some "[output]\nformat = \"json\"\n[inc]\nrelease = \"major\"\n")
      | ["home"] => .file (some content)
      | ["home", "a"] => .directory
      | _ => .absent
    let run (content : String) (arguments : List String) : Outcome :=
      (Invocation.startedIn (tree content) ["home", "a", "b"] arguments {}).outcome
    let minor := "[inc]\nrelease = \"minor\"\n"
    let json := "[output]\nformat = \"json\"\n"
    let line := "1.3.0\n"
    let record := "\x7b\"build\":null,\"major\":\"1\",\"minor\":\"3\",\"patch\":\"0\","
      ++ "\"prerelease\":null,\"version\":\"1.3.0\"\x7d\n"
    ((run minor ["-v", "inc", "1.2.3"]).exitCode = 0
        ∧ (run minor ["-v", "inc", "1.2.3"]).output = line)
      ∧ (run minor ["--json", "inc", "1.2.3"]).output = record
      ∧ (run minor ["inc", "1.2.3", "--format", "json"]).output = record
      ∧ (run json ["inc", "1.2.3", "minor"]).output = record
      ∧ (run json ["--format=plain", "inc", "1.2.3", "minor"]).output = line
      ∧ ((run json ["inc", "1.2.3", "most"]).exitCode = 1
        ∧ (run json ["inc", "1.2.3", "most"]).output
          = "\x7b\"error\":\"Invalid release type\",\"input\":\"most\"\x7d\n")
      ∧ (run "[inc\nrelease = " ["inc", "1.2.3"]).exitCode = 2 := by
  intro tree run minor json line record
  have hfound : ∀ content, Settings.IsFound (tree content) ["home", "a", "b"]
      ((some content).bind Settings.read?) := by
    intro content
    have hhome : Settings.IsNearest (tree content) ["home"] ["home"] (some content) :=
      Settings.isNearest_self rfl
    have ha : Settings.IsNearest (tree content) (["home"] ++ ["a"]) ["home"] (some content) :=
      hhome.concat nofun
    have hb : Settings.IsNearest (tree content) (["home", "a"] ++ ["b"]) ["home"] (some content) :=
      ha.concat nofun
    exact .nearest hb
  have hruns : ∀ content settings arguments release o,
      Option.bind (some content) Settings.read? = some settings →
      Request.ofArguments? arguments = some (.run (.inc "1.2.3" release) o) →
      ∃ answer : Answer, answer.IsStep "1.2.3" (firstOf [release, settings.releaseKind] "patch")
        ∧ (run content arguments).exitCode = answer.exitCode
        ∧ ∃ complaint, answer.reply.IsShown false (firstOf [if asksForJson arguments then some .json
            else none, namedFormat? arguments, settings.format] .plain)
          (run content arguments).output complaint := by
    intro content settings arguments release o hread hrequest
    obtain ⟨-, -, -, hall⟩ := outcome_by_nearest (tree content) ["home", "a", "b"] arguments {}
    obtain ⟨⟨output, complaint, hshown, houtcome⟩, hinc⟩ :=
      (hall _ o hrequest).2 settings (hread ▸ hfound content)
    refine ⟨_, (hinc _ _ rfl).2, ?_, complaint, ?_⟩
    · show (Invocation.outcome _).exitCode = _
      rw [houtcome, Outcome.exitCode]
    · show Reply.IsShown _ _ _ (Invocation.outcome _).output _
      rwa [houtcome, Outcome.output]
  let v : Version := ⟨.ofNat 1, .ofNat 3, .zero, [], []⟩
  let reply : Reply := .result (toString v) (Answer.versionDocument v)
  have hsteps : ∀ content settings arguments release o,
      Option.bind (some content) Settings.read? = some settings →
      Request.ofArguments? arguments = some (.run (.inc "1.2.3" release) o) →
      firstOf [release, settings.releaseKind] "patch" = "minor" →
      ∀ format output, firstOf [if asksForJson arguments then some .json else none,
          namedFormat? arguments, settings.format] .plain = format →
        reply.IsShown false format output "" →
          (run content arguments).exitCode = 0 ∧ (run content arguments).output = output := by
    intro content settings arguments release o hread hrequest hkind format output hformat hshow
    obtain ⟨answer, hstep, hcode, complaint, hshown⟩ :=
      hruns content settings arguments release o hread hrequest
    rw [hkind] at hstep
    obtain ⟨hpositive, hreply⟩ := hstep.stepped .minor v (by decide) (by decide)
    rw [hformat, hreply] at hshown
    rw [hcode, Answer.exitCode, hpositive]
    exact ⟨rfl, (hshown.unique hshow).1⟩
  have hminor : Option.bind (some minor) Settings.read? = some { releaseKind := some "minor" } := by
    decide +kernel
  have hjson : Option.bind (some json) Settings.read? = some { format := some .json } := by
    decide +kernel
  have hbroken : Option.bind (some "[inc\nrelease = ") Settings.read? = none := by decide +kernel
  have hline : reply.IsShown false .plain line "" := .plainResult _ _
  have hrecord : reply.IsShown false .json record "" := by
    have htext : toString (Answer.versionDocument v) ++ "\n" = record := by
      show String.ofList (Answer.versionDocument v).chars ++ "\n" = record
      rw [Answer.chars_versionDocument]
      decide +kernel
    exact htext ▸ .jsonResult _ _
  refine ⟨hsteps minor _ _ none { verbosity := 1 } hminor rfl rfl .plain line (by decide) hline,
    (hsteps minor _ _ none { json := true } hminor rfl rfl .json record (by decide) hrecord).2,
    (hsteps minor _ _ none { format := some .json } hminor rfl rfl .json record (by decide)
      hrecord).2,
    (hsteps json _ _ (some "minor") {} hjson rfl rfl .json record (by decide) hrecord).2,
    (hsteps json _ _ (some "minor") { format := some .plain } hjson rfl rfl .plain line (by decide)
      hline).2, ?_, ?_⟩
  · obtain ⟨answer, hstep, hcode, complaint, hshown⟩ :=
      hruns json _ ["inc", "1.2.3", "most"] (some "most") {} hjson rfl
    obtain ⟨hnegative, hreply⟩ := hstep.unknown .releaseKind (by decide)
    rw [hreply] at hshown
    rw [hcode, Answer.exitCode, hnegative]
    refine ⟨rfl, (hshown.unique (.jsonRefusal _ _)).1.trans ?_⟩
    show String.ofList (Document.chars _) ++ "\n" = _
    rw [Document.chars_refusal]
    decide +kernel
  · exact ((outcome_by_nearest (tree _) ["home", "a", "b"] ["inc", "1.2.3"] {}).2.2.2
      (.inc "1.2.3" none) {} rfl).1 (hbroken ▸ hfound _)

end Runs

end Versioning.Cli
