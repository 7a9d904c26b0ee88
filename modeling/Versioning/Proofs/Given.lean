import Versioning.Proofs.Verbosity

set_option autoImplicit false

/-! # What a command line gives

A command line is read side by side, each against a scheme of its own. What it gives can be told
without any of that: `parts` lists its words and its flags in their order, and looks at nothing but
how each argument is written. Where a command line is understood, its options and the arguments of
its command are those of the list (`ofArguments?_gives`), whichever side they stand on.

Reading a side goes argument by argument, and so does `parts`; `Side.Gives` is the invariant that
ties the one to the other. -/

namespace Versioning.Cli

/-! ## Parts -/

/-- A part of a command line. -/
inductive Part
  | word (text : String)
  | short (letters : List Char)
  /-- A long flag, with its value if it has one. -/
  | long (name : String) (value : Option String)
deriving DecidableEq

/-- The flag that awaits a value under a long name. -/
def awaited? (name : String) : Option Flag :=
  [Flag.format, Flag.range].find? fun f => f.long == name

/-- The parts of a command line, from left to right. `awaiting` is a flag whose value is to come;
    behind the divider there are only words. -/
def parts : Option Flag → List String → List Part
  | _, [] => []
  | some f, a :: rest => .long f.long (some a) :: parts none rest
  | none, a :: rest =>
      match look a with
      | .divider => rest.map .word
      | .word => .word a :: parts none rest
      | .short letters => .short letters :: parts none rest
      | .long name none =>
          match awaited? name with
          | some f => parts (some f) rest
          | none => .long name none :: parts none rest
      | .long name (some value) => .long name (some value) :: parts none rest

namespace Part

/-- The flag that asks for JSON. -/
def json : Part := long "json" none

/-- The text of a word. -/
def word? : Part → Option String
  | word text => some text
  | short _ | long _ _ => none

/-- The format that is named. -/
def format? : Part → Option Format
  | long "format" (some value) => Format.ofName? value
  | _ => none

end Part

/-- Whether a command line has the flag that asks for JSON. -/
def asksForJson (arguments : List String) : Bool :=
  (parts none arguments).contains .json

/-- The format that a command line names, the last one if there are two. -/
def namedFormat? (arguments : List String) : Option Format :=
  ((parts none arguments).filterMap Part.format?).getLast?

/-- The words of a command line. -/
def wordsOf (arguments : List String) : List String :=
  (parts none arguments).filterMap Part.word?

/-! ## Sides -/

/-- What some parts add to a side: JSON if they ask for it, the last format that they name, and
    their words. -/
structure Side.Gives (s t : Side) (ps : List Part) : Prop where
  json : t.options.json = (s.options.json || ps.contains .json)
  format : t.options.format = (ps.filterMap Part.format?).getLast?.or s.options.format
  words : t.words = s.words ++ ps.filterMap Part.word?

section Steps

variable {scheme : Scheme} {toWord : Bool} {awaiting : Option Flag} {s t u : Side}

namespace Side

theorem Gives.nil (s : Side) : s.Gives s [] where
  json := (Bool.or_false _).symm
  format := rfl
  words := (List.append_nil _).symm

theorem Gives.append {ps qs : List Part} (h : s.Gives t ps) (h' : t.Gives u qs) :
    s.Gives u (ps ++ qs) where
  json := by simp only [h'.json, h.json, List.contains_eq_any_beq, List.any_append, Bool.or_assoc]
  format := by
    simp only [h'.format, h.format, List.filterMap_append, List.getLast?_append, Option.or_assoc]
  words := by rw [h'.words, h.words, List.filterMap_append, List.append_assoc]

/-- A part that asks for nothing of this adds nothing. -/
theorem Gives.silent {p : Part} (hjson : p ≠ .json) (hformat : p.format? = none)
    (hword : p.word? = none) (h : s.Gives t []) : s.Gives t [p] := by
  have hp : t.Gives t [p] := ⟨by simp [Ne.symm hjson], by simp [hformat], by simp [hword]⟩
  exact h.append hp

/-- Only the flag for JSON adds anything without a value. -/
theorem gives_note_of_ne {f : Flag} (hf : f ≠ .json) (h : s.note f = .ok t) : s.Gives t [] := by
  cases f with
  | verbose =>
      cases h
      exact ⟨(Bool.or_false _).symm, rfl, (List.append_nil _).symm⟩
  | reverse =>
      simp only [note] at h
      split at h
      · cases h
      · cases h
        exact ⟨(Bool.or_false _).symm, rfl, (List.append_nil _).symm⟩
  | json => exact absurd rfl hf
  | version | help | format | range => cases h

theorem gives_note {f : Flag} (h : s.note f = .ok t) : s.Gives t [.long f.long none] := by
  by_cases hf : f = .json
  · subst hf
    simp only [note] at h
    split at h
    · cases h
    · cases h
      exact ⟨by simp [Flag.long, Part.json], rfl, (List.append_nil _).symm⟩
  · refine .silent ?_ (by cases f <;> rfl) rfl (gives_note_of_ne hf h)
    cases f <;> first | exact absurd rfl hf | decide

theorem gives_noteValue {f : Flag} {value : String} (h : s.noteValue f value = .ok t) :
    s.Gives t [.long f.long (some value)] := by
  unfold noteValue at h
  split at h
  · next format hname =>
      split at h
      · cases h
      · cases h
        have hformat : (Part.long Flag.format.long (some value)).format? = some format := hname
        exact ⟨(Bool.or_false _).symm, by simp [hformat], (List.append_nil _).symm⟩
  · split at h
    · cases h
    · cases h
      exact ⟨(Bool.or_false _).symm, rfl, (List.append_nil _).symm⟩
  · cases h

theorem gives_noteWord {word : String} (h : s.noteWord scheme word = .ok t) :
    s.Gives t [.word word] := by
  unfold noteWord at h
  split at h
  · cases h
    exact ⟨(Bool.or_false _).symm, rfl, rfl⟩
  · cases h

theorem gives_noteWords {words : List String} (h : words.foldlM (noteWord scheme) s = .ok t) :
    s.Gives t (words.map .word) := by
  induction words generalizing s with
  | nil =>
      cases h
      exact .nil _
  | cons word words ih =>
      rw [List.foldlM_cons] at h
      cases hword : s.noteWord scheme word with
      | error stop => rw [hword] at h; cases h
      | ok r =>
          rw [hword] at h
          exact (gives_noteWord hword).append (ih h)

/-- No short flag asks for JSON. -/
theorem gives_noteShort {letters : List Char} (h : s.noteShort scheme letters = .ok t) :
    s.Gives t [] := by
  induction letters generalizing s with
  | nil =>
      cases h
      exact .nil _
  | cons letter letters ih =>
      rw [noteShort, List.foldlM_cons] at h
      split at h
      · next f hfind =>
          have hshort : f.short? = some letter := by simpa using List.find?_some hfind
          have hf : f ≠ .json := by
            rintro rfl
            cases hshort
          cases hnote : s.note f with
          | error stop => rw [hnote] at h; cases h
          | ok r =>
              rw [hnote] at h
              exact (gives_note_of_ne hf hnote).append (ih h)
      · cases h

/-- A flag of a scheme awaits a value under its name exactly if it takes one. -/
theorem awaited?_of_find? {f : Flag} {name : String}
    (h : scheme.flags.find? (fun f => f.long == name) = some f) :
    f.long = name ∧ awaited? name = if f.takesValue then some f else none := by
  have hname : f.long = name := by simpa using List.find?_some h
  subst hname
  cases f <;> exact ⟨rfl, rfl⟩

/-- **What an argument gives** to a side if reading goes on behind it. -/
theorem gives_take {f : Option Flag} {a : String} (h : s.take scheme awaiting a = .ok (f, t)) :
    ∃ ps, s.Gives t ps ∧ (∀ rest, parts awaiting (a :: rest) = ps ++ parts f rest)
      ∧ (¬(awaiting = none ∧ look a = .word) → ps.filterMap Part.word? = []) := by
  have hmap : ∀ {x : Except Stop Side}, x.map (Prod.mk none) = .ok (f, t) →
      f = none ∧ x = .ok t := by
    intro x hx
    cases x with
    | error stop => cases hx
    | ok r => cases hx; exact ⟨rfl, rfl⟩
  unfold take at h
  split at h
  · next f' =>
      obtain ⟨rfl, hnote⟩ := hmap h
      exact ⟨_, gives_noteValue hnote, fun rest => rfl, fun _ => rfl⟩
  · cases h
  · next hlook =>
      obtain ⟨rfl, hnote⟩ := hmap h
      exact ⟨_, gives_noteWord hnote, fun rest => by simp [parts, hlook],
        fun hword => absurd ⟨rfl, hlook⟩ hword⟩
  · cases h
  · next letters hlook =>
      obtain ⟨rfl, hnote⟩ := hmap h
      have hshort : Part.short letters ≠ .json := nofun
      exact ⟨_, .silent hshort rfl rfl (gives_noteShort hnote), fun rest => by simp [parts, hlook],
        fun _ => rfl⟩
  · next name value hlook =>
      split at h
      · cases h
      · next f' hfind =>
          obtain ⟨rfl, hawaited⟩ := awaited?_of_find? hfind
          split at h
          · next hvalue =>
              cases h
              exact ⟨[], .nil _, fun rest => by simp [parts, hlook, hawaited, hvalue], fun _ => rfl⟩
          · next hvalue =>
              obtain ⟨rfl, hnote⟩ := hmap h
              exact ⟨_, gives_note hnote, fun rest => by simp [parts, hlook, hawaited, hvalue],
                fun _ => rfl⟩
      · next f' value hfind =>
          obtain ⟨rfl, -⟩ := awaited?_of_find? hfind
          split at h
          · obtain ⟨rfl, hnote⟩ := hmap h
            exact ⟨_, gives_noteValue hnote, fun rest => by simp [parts, hlook], fun _ => rfl⟩
          · cases h

end Side

/-- **What one side gives**: the parts that were read on it. Reading ends with the arguments or, if
    it ends in front of the first word, there. -/
theorem readSide_gives {arguments rest : List String}
    (h : readSide scheme toWord awaiting s arguments = .ok (t, rest)) :
    ∃ ps, s.Gives t ps ∧ parts awaiting arguments = ps ++ parts none rest
      ∧ (toWord = true → ps.filterMap Part.word? = []) ∧ (toWord = false → rest = []) := by
  induction arguments generalizing awaiting s with
  | nil =>
      cases awaiting with
      | none => cases h; exact ⟨[], .nil _, rfl, fun _ => rfl, fun _ => rfl⟩
      | some f => cases h
  | cons a arguments ih =>
      by_cases hword : awaiting = none ∧ toWord = true ∧ look a = .word
      · obtain ⟨rfl, rfl, hlook⟩ := hword
        simp only [readSide, hlook, if_true] at h
        cases h
        exact ⟨[], .nil _, rfl, fun _ => rfl, fun hfalse => Bool.noConfusion hfalse⟩
      by_cases hdivider : look a = .divider
      · cases awaiting with
        | some f =>
            simp only [readSide, hdivider] at h
            cases h
        | none =>
            cases toWord with
            | true =>
                simp only [readSide, hdivider, if_true] at h
                cases h
            | false =>
                simp only [readSide, hdivider, Bool.false_eq_true, if_false] at h
                cases hwords : arguments.foldlM (Side.noteWord scheme) s with
                | error stop => rw [hwords] at h; cases h
                | ok r =>
                    rw [hwords] at h
                    cases h
                    exact ⟨_, Side.gives_noteWords hwords, by simp [parts, hdivider],
                      fun hfalse => Bool.noConfusion hfalse, fun _ => rfl⟩
      rw [readSide_cons hword hdivider] at h
      cases htake : s.take scheme awaiting a with
      | error stop => rw [htake] at h; cases h
      | ok r =>
          rw [htake] at h
          obtain ⟨ps, hps, hparts, hsilent⟩ := Side.gives_take htake
          obtain ⟨qs, hqs, hrest, hqsilent, hend⟩ := ih h
          refine ⟨ps ++ qs, hps.append hqs, ?_, fun htrue => ?_, hend⟩
          · rw [hparts, hrest, List.append_assoc]
          · rw [List.filterMap_append, hqsilent htrue, List.append_nil]
            exact hsilent fun hskip => hword ⟨hskip.1, htrue, hskip.2⟩

end Steps

/-! ## Command lines -/

/-- The words of a command: its name, then its arguments. -/
def Command.words : Command → List String
  | validate version => ["validate", version]
  | parse version => ["parse", version]
  | clean version => ["clean", version]
  | coerce text => ["coerce", text]
  | compare left right => ["compare", left, right]
  | satisfies version range => ["satisfies", version, range]
  | minimum range => ["minimum", range]
  | sort versions _ _ => "sort" :: versions
  | inc version release => "inc" :: version :: release.toList
  | dec version release => ["dec", version, release]

section Lines

variable {outer s : Side} {name : CommandName} {command : Command} {o : Options}
variable {arguments : List String}

theorem words_of_command? (h : name.command? s = some command) :
    command.words = name.text :: s.words := by
  unfold CommandName.command? at h
  split at h <;> cases h <;> simp [Command.words, CommandName.text, *]

/-- What both sides give together: of two formats, the one behind the name. -/
theorem Side.Gives.override {ps qs : List Part} (houter : ({} : Side).Gives outer ps)
    (hinner : ({} : Side).Gives s qs) :
    (outer.options.override s.options).json = (ps ++ qs).contains .json
      ∧ (outer.options.override s.options).format
        = ((ps ++ qs).filterMap Part.format?).getLast? := by
  have hj := houter.json
  have hj' := hinner.json
  have hf := houter.format
  have hf' := hinner.format
  constructor
  · simp [Options.override, hj, hj', Bool.or_comm]
  · simp only [Options.override, hf, hf', List.filterMap_append, List.getLast?_append]
    cases (qs.filterMap Part.format?).getLast? <;> simp

/-- A command line that is understood as a command has two sides and a name between them. -/
theorem exists_sides (h : Request.ofArguments? arguments = some (.run command o)) :
    ∃ (outer inner : Side) (name : CommandName) (rest tail : List String),
      readSide outerScheme true none {} arguments = .ok (outer, name.text :: rest)
        ∧ readSide name.scheme false none {} rest = .ok (inner, tail)
        ∧ name.command? inner = some command ∧ o = outer.options.override inner.options := by
  have hread : readArguments arguments = .ok (.run command o) := by
    unfold Request.ofArguments? at h
    split at h <;> simp_all
  rw [readArguments_eq] at hread
  cases houter : readSide outerScheme true none {} arguments with
  | error stop => rw [houter] at hread; cases hread
  | ok r =>
      obtain ⟨outer, behind⟩ := r
      replace hread : requestBehind (outer, behind) = .ok (.run command o) := by
        rwa [houter] at hread
      cases behind with
      | nil => cases hread
      | cons word rest =>
          simp only [requestBehind] at hread
          split at hread
          · exact absurd hread readHelp_ne_run
          split at hread
          · next name hname =>
              obtain rfl : name.text = word := by simpa using List.find?_some hname
              rw [readCommand_eq] at hread
              cases hinner : readSide name.scheme false none {} rest with
              | error stop => rw [hinner] at hread; cases hread
              | ok r =>
                  replace hread : name.request outer r.1 = .ok (.run command o) := by
                    rwa [hinner] at hread
                  unfold CommandName.request at hread
                  split at hread
                  · next command' hcommand =>
                      split at hread
                      · cases hread
                      · cases hread
                        exact ⟨outer, r.1, name, rest, r.2, rfl, hinner, hcommand, rfl⟩
                  · cases hread
          · cases hread

/-- **What a command line gives.** Its options are those that its flags ask for, and its command is
    written by its words. -/
theorem ofArguments?_gives (h : Request.ofArguments? arguments = some (.run command o)) :
    o.json = asksForJson arguments ∧ o.format = namedFormat? arguments
      ∧ wordsOf arguments = command.words := by
  obtain ⟨outer, inner, name, rest, tail, houter, hinner, hcommand, rfl⟩ := exists_sides h
  obtain ⟨ps, hps, hparts, hsilent, -⟩ := readSide_gives houter
  obtain ⟨qs, hqs, hrest, -, htail⟩ := readSide_gives hinner
  have hall : parts none arguments = ps ++ (.word name.text :: qs) := by
    have hword : look name.text = .word := by cases name <;> rfl
    have hbehind : parts none (name.text :: rest) = .word name.text :: parts none rest := by
      simp [parts, hword]
    rw [hparts, hbehind, hrest, htail rfl, parts, List.append_nil]
  have hwords : command.words = name.text :: qs.filterMap Part.word? := by
    rw [words_of_command? hcommand, hqs.words, List.nil_append]
  obtain ⟨hjson, hformat⟩ := hps.override hqs
  rw [asksForJson, namedFormat?, wordsOf, hall]
  refine ⟨?_, ?_, ?_⟩
  · simpa [Part.json] using hjson
  · simpa [Part.format?] using hformat
  · rw [List.filterMap_append, hsilent rfl, hwords]
    rfl

end Lines

end Versioning.Cli
