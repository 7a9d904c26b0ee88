import Versioning.Cli.Program
import Versioning.Proofs.Verbosity

set_option autoImplicit false

/-! # What a run tells

A run tells what the library answers: its exit code says whether the answer is positive, and its
output shows the answer in the format that was chosen. The library knows nothing of the journal, so
neither depends on how much of it was asked for, whether by `-v`, by the environment or by the
settings.

`Command.Succeeds` says for each command when the answer is positive, by the functions on texts that
a program would call itself. The commands do not call all of these: those on ranges read the range
on their own, to tell a range that cannot be read from a negative answer. In `positive_iff_succeeds`
the two ways meet. -/

namespace Versioning.Cli

/-! ## Positive answers -/

/-- Whether the library's answer to a command is positive. -/
def Command.Succeeds (settings : Settings) : Command → Prop
  | validate version => Version.isVersion version = true
  | parse version => ∃ v, Version.parse version = .ok v
  | clean version => ∃ v, Version.parseTagged version = .ok v
  | coerce text => ∃ v, Version.findIn? text = some v
  | compare left right => (∃ v, Version.parse left = .ok v) ∧ ∃ v, Version.parse right = .ok v
  | satisfies version range => Versioning.satisfies version range = true
  | minimum range => ∃ v, minimumOf? range = some v
  | sort _ _ _ => True
  | inc version release => ∃ kind v,
      ReleaseKind.ofName ((release.or settings.releaseKind).getD "patch") = .ok kind
        ∧ Version.advanceText version kind = .ok v
  | dec version release => ∃ kind v,
      ReleaseKind.ofName release = .ok kind ∧ Version.retreatText version kind = .ok v

namespace Answer

theorem ofResult_positive_iff {input : String} {r : Except Fault Version} :
    (ofResult input r).positive = true ↔ ∃ v, r = .ok v := by
  cases r <;> simp [ofResult, version, refuse]

theorem parse_positive_iff {text : String} :
    (parse text).positive = true ↔ ∃ v, Version.parse text = .ok v := by
  unfold parse
  cases Version.parse text <;> simp [refuse]

theorem coerce_positive_iff {text : String} :
    (coerce text).positive = true ↔ ∃ v, Version.findIn? text = some v := by
  unfold coerce
  cases Version.findIn? text <;> simp [version, refuse]

theorem compare_positive_iff {left right : String} :
    (compare left right).positive = true
      ↔ (∃ v, Version.parse left = .ok v) ∧ ∃ v, Version.parse right = .ok v := by
  unfold compare
  cases Version.parse left <;> cases Version.parse right <;> simp [refuse]

theorem satisfies_positive {version range : String} :
    (satisfies version range).positive = Versioning.satisfies version range := by
  unfold satisfies Versioning.satisfies
  cases Range.parse range <;> rfl

theorem minimum_positive_iff {range : String} :
    (minimum range).positive = true ↔ ∃ v, minimumOf? range = some v := by
  unfold minimum minimumOf?
  cases Range.parse range with
  | error f => simp [refuse]
  | ok r =>
      dsimp only
      cases r.minimum? <;> simp [version, refuse]

theorem step_positive_iff {walk : String → ReleaseKind → Except Fault Version}
    {text kindName : String} :
    (step walk text kindName).positive = true
      ↔ ∃ kind v, ReleaseKind.ofName kindName = .ok kind ∧ walk text kind = .ok v := by
  unfold step
  cases ReleaseKind.ofName kindName with
  | error f => simp [refuse]
  | ok kind =>
      dsimp only
      cases hwalk : walk text kind <;> simp [hwalk, version, refuse]

end Answer

theorem positive_iff_succeeds (command : Command) (settings : Settings) :
    (command.answer settings).positive = true ↔ command.Succeeds settings := by
  cases command with
  | validate version => exact Iff.rfl
  | parse version => exact Answer.parse_positive_iff
  | clean version => exact Answer.ofResult_positive_iff
  | coerce text => exact Answer.coerce_positive_iff
  | compare left right => exact Answer.compare_positive_iff
  | satisfies version range => exact Bool.eq_iff_iff.1 Answer.satisfies_positive
  | minimum range => exact Answer.minimum_positive_iff
  | sort versions descending range => exact iff_of_true rfl trivial
  | inc version release => cases release <;> exact Answer.step_positive_iff
  | dec version release => exact Answer.step_positive_iff

/-! ## Runs -/

/-- The text on the output side of a run; a run that cannot start has none. -/
def Outcome.output : Outcome → String
  | finished _ output _ => output
  | misuse => ""
  | unusableSettings => ""

/-- Texts as they are shown in a format. -/
def Format.shown : Format → List String → String
  | plain, items => "\n".intercalate items ++ "\n"
  | json, items => toString (Document.texts items) ++ "\n"

/-- A run of a command: what its command line asks for, and the settings that it loads. -/
structure Invocation.Runs (i : Invocation) (command : Command) (o : Options) (settings : Settings) :
    Prop where
  request : Request.ofArguments? i.arguments = some (.run command o)
  settings : Settings.search i.placements = some settings

section Runs

variable {i j : Invocation} {command : Command} {o o' : Options} {settings settings' : Settings}

theorem Invocation.Runs.outcome_eq (h : i.Runs command o settings) :
    i.outcome = runCommand command o settings i.environment := by
  simp only [Invocation.outcome, h.request, h.settings]

/-- Of the settings, only the release kind has to do with the answer. -/
theorem answer_congr (h : settings'.releaseKind = settings.releaseKind) :
    command.answer settings' = command.answer settings := by
  cases command <;> simp only [Command.answer, h]

/-- The count has nothing to do with the format. -/
theorem chosenFormat_congr (ho : o'.muted = o.muted) (h : settings'.format = settings.format) :
    o'.chosenFormat settings' = o.chosenFormat settings := by
  simp only [Options.muted, Options.mk.injEq, true_and] at ho
  simp only [Options.chosenFormat, ho.1, ho.2, h]

theorem exitCode_congr (h : settings'.releaseKind = settings.releaseKind) (e e' : Environment) :
    (runCommand command o' settings' e').exitCode = (runCommand command o settings e).exitCode := by
  show (command.answer settings').exitCode = (command.answer settings).exitCode
  rw [answer_congr h]

theorem output_congr (ho : o'.muted = o.muted) (hformat : settings'.format = settings.format)
    (hkind : settings'.releaseKind = settings.releaseKind) (e e' : Environment) :
    (runCommand command o' settings' e').output = (runCommand command o settings e).output := by
  show (command.answer settings').output (o'.chosenFormat settings')
    = (command.answer settings).output (o.chosenFormat settings)
  rw [answer_congr hkind, chosenFormat_congr ho hformat]

theorem exitCode_runCommand (e : Environment) :
    ((runCommand command o settings e).exitCode = 0 ↔ command.Succeeds settings)
      ∧ ((runCommand command o settings e).exitCode = 1 ↔ ¬ command.Succeeds settings) := by
  show ((command.answer settings).exitCode = 0 ↔ _) ∧ ((command.answer settings).exitCode = 1 ↔ _)
  rw [← positive_iff_succeeds, Answer.exitCode]
  cases (command.answer settings).positive <;> decide

theorem output_sort {versions : List String} {isDescending : Bool} {range : Option String}
    (e : Environment) :
    (runCommand (.sort versions isDescending range) o settings e).output
      = (o.chosenFormat settings).shown
          (let kept := range.elim versions (satisfying versions)
           if isDescending then descending kept else ascending kept) := by
  simp only [runCommand]
  cases o.chosenFormat settings <;> cases range <;> rfl

/-- A run of the same command that differs at most in the journal. -/
theorem Invocation.Runs.of_insert {front back : List String} {n : Nat}
    (h : i.Runs command o settings) (hi : i.arguments = front ++ back) (hfront : AllowsFlag front)
    (hj : j.arguments = front ++ (List.replicate n "-v" ++ back))
    (hsettings : Settings.search j.placements = some settings') :
    ∃ o', j.Runs command o' settings' ∧ o'.muted = o.muted := by
  have hrequest := h.request
  rw [hi] at hrequest
  obtain ⟨o', hrequest', ho⟩ := ofArguments?_insert (n := n) hfront hrequest
  exact ⟨o', ⟨hj ▸ hrequest', hsettings⟩, ho⟩

/-- **A run tells what the library answers**, whatever is asked for of the journal. Runs of one
    command have one exit code in any format, and in one format one output; so have runs whose
    command lines differ in `-v`. The exit code says whether the answer is positive, and sorting
    shows what the library sorts. -/
theorem outcome_tells_answer (h : i.Runs command o settings) :
    (∀ (j : Invocation) o' settings', j.Runs command o' settings'
        → settings'.releaseKind = settings.releaseKind
        → j.outcome.exitCode = i.outcome.exitCode
          ∧ (o'.muted = o.muted → settings'.format = settings.format
              → j.outcome.output = i.outcome.output))
      ∧ (∀ (j : Invocation) n front back settings', i.arguments = front ++ back → AllowsFlag front
        → j.arguments = front ++ (List.replicate n "-v" ++ back)
        → Settings.search j.placements = some settings'
        → settings'.releaseKind = settings.releaseKind → settings'.format = settings.format
        → j.outcome.exitCode = i.outcome.exitCode ∧ j.outcome.output = i.outcome.output)
      ∧ (i.outcome.exitCode = 0 ↔ command.Succeeds settings)
      ∧ (i.outcome.exitCode = 1 ↔ ¬ command.Succeeds settings)
      ∧ ∀ versions isDescending range, command = .sort versions isDescending range
        → i.outcome.output = (o.chosenFormat settings).shown
            (let kept := range.elim versions (satisfying versions)
             if isDescending then descending kept else ascending kept) := by
  have hsame : ∀ (j : Invocation) o' settings', j.Runs command o' settings'
      → settings'.releaseKind = settings.releaseKind
      → j.outcome.exitCode = i.outcome.exitCode
        ∧ (o'.muted = o.muted → settings'.format = settings.format
            → j.outcome.output = i.outcome.output) := by
    intro j o' settings' hj hkind
    rw [h.outcome_eq, hj.outcome_eq]
    exact ⟨exitCode_congr hkind _ _, fun ho hformat => output_congr ho hformat hkind _ _⟩
  refine ⟨hsame, ?_, ?_⟩
  · intro j n front back settings' hi hfront hj hsettings hkind hformat
    obtain ⟨o', hruns, ho⟩ := h.of_insert hi hfront hj hsettings
    have hrun := hsame j o' settings' hruns hkind
    exact ⟨hrun.1, hrun.2 ho hformat⟩
  · rw [h.outcome_eq]
    refine ⟨(exitCode_runCommand _).1, (exitCode_runCommand _).2, ?_⟩
    rintro versions isDescending range rfl
    exact output_sort _

/-- Versions in descending order, without a journal, with all of it, and in JSON; and a negative
    answer, in either format. -/
theorem outcome_tells_answer_descending :
    let i : Invocation :=
      ⟨["sort", "x", "v1.0.0", "-r", "2.0.0", "--range", "*"], [.directory], {}⟩
    let j : Invocation :=
      ⟨["sort", "x", "v1.0.0", "-v", "-v", "-r", "2.0.0", "--range", "*"],
        [.absent, .file (some "[log]\nlevel = \"off\"\n")], { journalFilter := some "trace" }⟩
    let k : Invocation :=
      ⟨["--json", "sort", "x", "v1.0.0", "-r", "2.0.0", "--range", "*"], [], {}⟩
    let no : Invocation := ⟨["satisfies", "2.0.0", "^1.0"], [], {}⟩
    let no' : Invocation := ⟨["-vvv", "satisfies", "2.0.0", "^1.0", "--format", "json"], [], {}⟩
    (i.Runs (.sort ["x", "v1.0.0", "2.0.0"] true (some "*")) {} {}
        ∧ i.outcome.exitCode = 0 ∧ i.outcome.output = "2.0.0\nv1.0.0\n")
      ∧ (j.outcome.exitCode = 0 ∧ j.outcome.output = "2.0.0\nv1.0.0\n")
      ∧ (k.outcome.exitCode = 0 ∧ k.outcome.output = "[\"2.0.0\",\"v1.0.0\"]\n")
      ∧ no.outcome.exitCode = 1 ∧ no'.outcome.exitCode = 1 := by
  intro i j k no no'
  let command : Command := .sort ["x", "v1.0.0", "2.0.0"] true (some "*")
  have hi : i.Runs command {} {} := ⟨by decide, rfl⟩
  have hk : k.Runs command { json := true } {} := ⟨by decide, rfl⟩
  have hno : no.Runs (.satisfies "2.0.0" "^1.0") {} {} := ⟨by decide, rfl⟩
  have hno' : no'.Runs (.satisfies "2.0.0" "^1.0") ⟨3, some .json, false⟩ {} := ⟨by decide, rfl⟩
  have hsettings : Settings.search j.placements = some { journalFilter := some "off" } := by
    decide +kernel
  have hdescending :
      descending (satisfying ["x", "v1.0.0", "2.0.0"] "*") = ["2.0.0", "v1.0.0"] := by
    let one : Version := ⟨.ofNat 1, .zero, .zero, [], []⟩
    let two : Version := ⟨.ofNat 2, .zero, .zero, [], []⟩
    have hreadable : readable (satisfying ["x", "v1.0.0", "2.0.0"] "*")
        = [(one, "v1.0.0"), (two, "2.0.0")] := by decide
    have hlt : ¬two ≤ one := by decide
    rw [descending, hreadable]
    simp [List.mergeSort, hlt]
  obtain ⟨hsame, hinsert, hcode, -, hsort⟩ := outcome_tells_answer hi
  obtain ⟨-, -, -, -, hsort'⟩ := outcome_tells_answer hk
  obtain ⟨hsame', -, -, hnegative, -⟩ := outcome_tells_answer hno
  have hj := hinsert j 2 ["sort", "x", "v1.0.0"] ["-r", "2.0.0", "--range", "*"] _ rfl (by decide)
    rfl hsettings rfl rfl
  have hzero : i.outcome.exitCode = 0 := hcode.2 trivial
  have hnot : ¬ Versioning.satisfies "2.0.0" "^1.0" = true := by decide
  have hone : no.outcome.exitCode = 1 := hnegative.2 hnot
  have hlist : i.outcome.output = "2.0.0\nv1.0.0\n" := by
    rw [hsort _ _ _ rfl]
    simp only [Option.elim, hdescending, if_true]
    rfl
  have hlist' : k.outcome.output = "[\"2.0.0\",\"v1.0.0\"]\n" := by
    rw [hsort' _ _ _ rfl]
    simp only [Option.elim, hdescending, if_true]
    rfl
  exact ⟨⟨hi, hzero, hlist⟩, ⟨hj.1.trans hzero, hj.2.trans hlist⟩,
    ⟨(hsame k _ _ hk rfl).1.trans hzero, hlist'⟩, hone, (hsame' no' _ _ hno' rfl).1.trans hone⟩

end Runs

end Versioning.Cli
