import Versioning.Cli.Arguments

set_option autoImplicit false

/-! # Asking for more of the journal

Each `-v` on a command line asks for more of the journal and for nothing else. Reading a side keeps
a count of them that no other flag and no word looks at: from a side that was `raised` by some `-v`,
reading comes to what it comes to without them, raised as well (`readSide_raised`).

A `-v` may be put wherever a flag may stand, on either side of the name of the command. How reading
gets there is said by `Passage`: it passes through the arguments in front to those behind, or it
stops among them, and then it does not matter what is behind. -/

namespace Versioning.Cli

/-! ## One argument -/

/-- What an argument does to a side if reading goes on behind it: the flag whose value is to come
    next, and the side. -/
def Side.take (scheme : Scheme) (awaiting : Option Flag) (s : Side) (a : String) :
    Except Stop (Option Flag × Side) :=
  match awaiting, look a with
  | some f, .word => (s.noteValue f a).map (none, ·)
  | some _, _ => .error .misuse
  | none, .word => (s.noteWord scheme a).map (none, ·)
  | none, .divider => .error .misuse
  | none, .short letters => (s.noteShort scheme letters).map (none, ·)
  | none, .long name value =>
      match scheme.flags.find? (fun f => f.long == name), value with
      | none, _ => .error .misuse
      | some f, none => if f.takesValue then .ok (some f, s) else (s.note f).map (none, ·)
      | some f, some value =>
          if f.takesValue then (s.noteValue f value).map (none, ·) else .error .misuse

section Step

variable {scheme : Scheme} {toWord : Bool} {awaiting : Option Flag} {s : Side} {a : String}

/-- Reading goes on behind an argument unless it ends in front of a word or at the divider. -/
theorem readSide_cons (hword : ¬(awaiting = none ∧ toWord = true ∧ look a = .word))
    (hdivider : look a ≠ .divider) (rest : List String) :
    readSide scheme toWord awaiting s (a :: rest)
      = s.take scheme awaiting a >>= fun r => readSide scheme toWord r.1 r.2 rest := by
  have hmap : ∀ x : Except Stop Side, (x >>= fun t => readSide scheme toWord none t rest)
      = x.map (Prod.mk none) >>= fun r => readSide scheme toWord r.1 r.2 rest := by
    intro x
    cases x <;> rfl
  cases awaiting with
  | some f =>
      simp only [readSide, Side.take]
      cases look a with
      | word => exact hmap _
      | divider | long _ _ | short _ => rfl
  | none =>
      simp only [readSide, Side.take]
      cases hlook : look a with
      | word =>
          cases toWord with
          | true => exact absurd ⟨rfl, rfl, hlook⟩ hword
          | false => exact hmap _
      | divider => exact absurd hlook hdivider
      | short letters => exact hmap _
      | long name value =>
          dsimp only
          cases scheme.flags.find? (fun f => f.long == name) with
          | none => rfl
          | some f =>
              cases value <;> cases hvalue : f.takesValue <;> simp only [hvalue]
              · exact hmap _
              · rfl
              · rfl
              · exact hmap _

end Step

/-! ## Counts -/

/-- A step that commutes with a map of the state does so however often it is taken. -/
theorem foldlM_map {ε σ α : Type} {f : σ → α → Except ε σ} {g : σ → σ}
    (hstep : ∀ s a, f (g s) a = (f s a).map g) (s : σ) (items : List α) :
    items.foldlM f (g s) = (items.foldlM f s).map g := by
  induction items generalizing s with
  | nil => rfl
  | cons a items ih =>
      rw [List.foldlM_cons, List.foldlM_cons, hstep]
      cases f s a with
      | error e => rfl
      | ok t => exact ih t

namespace Side

/-- A side with `k` more flags that ask for more of the journal. -/
def raised (k : Nat) (s : Side) : Side :=
  { s with options.verbosity := s.options.verbosity + k }

theorem raised_raised (j k : Nat) (s : Side) : (s.raised j).raised k = s.raised (j + k) := by
  simp only [raised, Nat.add_assoc]

variable {scheme : Scheme} {k : Nat}

theorem note_raised (s : Side) (f : Flag) : (s.raised k).note f = (s.note f).map (raised k) := by
  cases f with
  | verbose => simp only [note, raised, Except.map, Nat.add_right_comm]
  | json => cases hjson : s.options.json <;> simp [note, raised, hjson, Except.map]
  | reverse => cases hreverse : s.reverse <;> simp [note, raised, hreverse, Except.map]
  | version | help | format | range => rfl

theorem noteValue_raised (s : Side) (f : Flag) (value : String) :
    (s.raised k).noteValue f value = (s.noteValue f value).map (raised k) := by
  cases f with
  | format =>
      cases hname : Format.ofName? value <;> cases hformat : s.options.format <;>
        simp [noteValue, raised, hname, hformat, Except.map]
  | range => cases hrange : s.range <;> simp [noteValue, raised, hrange, Except.map]
  | verbose | json | reverse | version | help => rfl

theorem noteWord_raised (s : Side) (word : String) :
    (s.raised k).noteWord scheme word = (s.noteWord scheme word).map (raised k) := by
  show (if scheme.maxWords.all (s.words.length < ·) then _ else _) = _
  unfold noteWord
  split <;> rfl

theorem noteShort_raised (s : Side) (letters : List Char) :
    (s.raised k).noteShort scheme letters = (s.noteShort scheme letters).map (raised k) := by
  refine foldlM_map (fun t letter => ?_) s letters
  split
  · exact note_raised t _
  · rfl

/-- What an argument does to a side does not depend on the count. -/
theorem take_raised (s : Side) (awaiting : Option Flag) (a : String) :
    (s.raised k).take scheme awaiting a
      = (s.take scheme awaiting a).map (Prod.map id (raised k)) := by
  have hmap : ∀ x : Except Stop Side, (x.map (raised k)).map (Prod.mk (none : Option Flag))
      = (x.map (Prod.mk none)).map (Prod.map id (raised k)) := by
    intro x
    cases x <;> rfl
  unfold take
  split
  · rw [noteValue_raised]
    exact hmap _
  · rfl
  · rw [noteWord_raised]
    exact hmap _
  · rfl
  · rw [noteShort_raised]
    exact hmap _
  · split
    · rfl
    · split
      · rfl
      · rw [note_raised]
        exact hmap _
    · split
      · rw [noteValue_raised]
        exact hmap _
      · rfl

end Side

open Side

section Reading

variable {scheme : Scheme} {toWord : Bool} {awaiting : Option Flag} {s : Side} {k n : Nat}
variable {front : List String}

/-- **Reading from a raised side** comes to what it comes to from the side, raised. -/
theorem readSide_raised (arguments : List String) :
    readSide scheme toWord awaiting (s.raised k) arguments
      = (readSide scheme toWord awaiting s arguments).map (Prod.map (raised k) id) := by
  induction arguments generalizing awaiting s with
  | nil => cases awaiting <;> rfl
  | cons a rest ih =>
      by_cases hword : awaiting = none ∧ toWord = true ∧ look a = .word
      · obtain ⟨rfl, rfl, hlook⟩ := hword
        simp only [readSide, hlook]
        rfl
      by_cases hdivider : look a = .divider
      · cases awaiting with
        | some f =>
            simp only [readSide, hdivider]
            rfl
        | none =>
            simp only [readSide, hdivider]
            cases toWord with
            | true => rfl
            | false =>
                simp only [Bool.false_eq_true, if_false, foldlM_map noteWord_raised]
                cases rest.foldlM (noteWord scheme) s <;> rfl
      rw [readSide_cons hword hdivider, readSide_cons hword hdivider, take_raised]
      cases s.take scheme awaiting a with
      | error e => rfl
      | ok r => exact ih

/-- Short flags that ask for more of the journal raise the side. -/
theorem readSide_replicate
    (hverbose : scheme.flags.find? (fun f => f.short? == some 'v') = some .verbose)
    (rest : List String) :
    readSide scheme toWord none s (List.replicate n "-v" ++ rest)
      = readSide scheme toWord none (s.raised n) rest := by
  induction n generalizing s with
  | zero => rfl
  | succ n ih =>
      have hlook : look "-v" = .short ['v'] := rfl
      have htake : s.take scheme none "-v" = .ok (none, s.raised 1) := by
        simp only [Side.take, hlook, noteShort, List.foldlM_cons, hverbose]
        rfl
      rw [List.replicate_succ, List.cons_append, readSide_cons (by simp [hlook]) (by simp [hlook]),
        htake]
      show readSide scheme toWord none (s.raised 1) (List.replicate n "-v" ++ rest) = _
      rw [ih, raised_raised, Nat.add_comm]

/-! ## Reading on -/

/-- Whether a flag may stand behind these arguments: none of them is the divider, and the last does
    not await its value. -/
def AllowsFlag (front : List String) : Prop :=
  "--" ∉ front ∧ ∀ last ∈ front.getLast?, last ≠ "--format" ∧ last ≠ "--range"

instance (front : List String) : Decidable (AllowsFlag front) :=
  inferInstanceAs (Decidable (_ ∧ _))

theorem eq_of_look_divider {a : String} (h : look a = .divider) : a = "--" := by
  unfold look at h
  split at h
  · next hchars => exact String.toList_inj.1 hchars
  all_goals cases h

theorem eq_of_look_long {a name : String} (h : look a = .long name none) : a = "--" ++ name := by
  unfold look at h
  split at h
  case h_2 cs _ hchars =>
      injection h with hname hvalue
      have htail : (cs.dropWhile (· != '=')).tail? = none := Option.map_eq_none_iff.1 hvalue
      have hdrop : cs.dropWhile (· != '=') = [] := by
        cases hd : cs.dropWhile (· != '=') with
        | nil => rfl
        | cons c ds => rw [hd] at htail; cases htail
      have htake : cs.takeWhile (· != '=') = cs := by
        have happend := List.takeWhile_append_dropWhile (p := (· != '=')) (l := cs)
        rwa [hdrop, List.append_nil] at happend
      rw [← hname, htake, ← String.toList_inj, hchars, String.toList_append,
        String.toList_ofList (l := cs)]
      rfl
  all_goals cases h

/-- Only a flag that takes a value awaits one. -/
theorem eq_of_take {t : Side} {f : Flag} {a : String}
    (h : s.take scheme awaiting a = .ok (some f, t)) : a = "--format" ∨ a = "--range" := by
  have hmap : ∀ x : Except Stop Side, x.map (Prod.mk none) ≠ .ok (some f, t) := by
    intro x
    cases x <;> simp [Except.map]
  unfold Side.take at h
  split at h
  · exact absurd h (hmap _)
  · cases h
  · exact absurd h (hmap _)
  · cases h
  · exact absurd h (hmap _)
  · next name value hlook =>
      split at h
      · cases h
      · next f' hfind =>
          split at h
          · next hvalue =>
              have hname : f'.long = name := by simpa using List.find?_some hfind
              rw [eq_of_look_long hlook, ← hname]
              cases f' <;> first | exact .inl rfl | exact .inr rfl | cases hvalue
          · exact absurd h (hmap _)
      · split at h
        · exact absurd h (hmap _)
        · cases h

/-- How one side is read if its arguments start with `front`. -/
inductive Passage (scheme : Scheme) (toWord : Bool) (awaiting : Option Flag) (s : Side)
    (front : List String) : Prop
  /-- Reading gets to what is behind. -/
  | through (t : Side) (h : ∀ rest, readSide scheme toWord awaiting s (front ++ rest)
      = readSide scheme toWord none t rest)
  /-- Reading stops. -/
  | stopped (stop : Stop) (h : ∀ rest, readSide scheme toWord awaiting s (front ++ rest)
      = .error stop)
  /-- Reading ends in front of a word. -/
  | atWord (t : Side) (word : String) (behind : List String) (hword : toWord = true)
      (hsuffix : word :: behind <:+ front)
      (h : ∀ rest, readSide scheme toWord awaiting s (front ++ rest)
        = .ok (t, word :: behind ++ rest))

theorem AllowsFlag.of_cons {a : String} (h : AllowsFlag (a :: front)) : AllowsFlag front := by
  refine ⟨fun hmem => h.1 (List.mem_cons_of_mem a hmem), fun last hlast => h.2 last ?_⟩
  rw [List.getLast?_cons, hlast]
  rfl

theorem AllowsFlag.of_suffix {behind : List String} (h : AllowsFlag front)
    (hsuffix : behind <:+ front) : AllowsFlag behind := by
  obtain ⟨items, rfl⟩ := hsuffix
  induction items with
  | nil => exact h
  | cons a items ih => exact ih h.of_cons

/-- Reading gets to where a flag may stand unless it has come to its end before. -/
theorem passage (scheme : Scheme) (toWord : Bool) (s : Side) (hfront : AllowsFlag front)
    (hawaiting : front = [] → awaiting = none) :
    Passage scheme toWord awaiting s front := by
  induction front generalizing awaiting s with
  | nil =>
      obtain rfl := hawaiting rfl
      exact .through s fun rest => rfl
  | cons a front ih =>
      by_cases hword : awaiting = none ∧ toWord = true ∧ look a = .word
      · obtain ⟨rfl, rfl, hlook⟩ := hword
        refine .atWord s a front rfl List.suffix_rfl fun rest => ?_
        simp only [List.cons_append, readSide, hlook, if_true]
      have hdivider : look a ≠ .divider := fun h =>
        hfront.1 (eq_of_look_divider h ▸ List.mem_cons_self)
      cases htake : s.take scheme awaiting a with
      | error stop =>
          refine .stopped stop fun rest => ?_
          rw [List.cons_append, readSide_cons hword hdivider, htake]
          rfl
      | ok r =>
          have hstep : ∀ rest, readSide scheme toWord awaiting s (a :: front ++ rest)
              = readSide scheme toWord r.1 r.2 (front ++ rest) := by
            intro rest
            rw [List.cons_append, readSide_cons hword hdivider, htake]
            rfl
          have hnext : front = [] → r.1 = none := by
            rintro rfl
            cases hf : r.1 with
            | none => rfl
            | some f =>
                have htakes : s.take scheme awaiting a = .ok (some f, r.2) :=
                  htake.trans (by rw [← hf])
                exact absurd (eq_of_take htakes) (not_or.2 (hfront.2 a rfl))
          cases ih r.2 hfront.of_cons hnext with
          | through t h => exact .through t fun rest => (hstep rest).trans (h rest)
          | stopped stop h => exact .stopped stop fun rest => (hstep rest).trans (h rest)
          | atWord t word behind hword hsuffix h =>
              exact .atWord t word behind hword (hsuffix.trans (List.suffix_cons a front))
                fun rest => (hstep rest).trans (h rest)

end Reading

/-! ## Command lines -/

/-- The options but for the count. -/
def Options.muted (o : Options) : Options := { o with verbosity := 0 }

/-- A request but for the count. -/
def Request.muted : Request → Request
  | version => version
  | help => help
  | run command options => run command options.muted

/-- The request of a command with what was given on both sides of its name. -/
def CommandName.request (name : CommandName) (outer inner : Side) : Except Stop Request :=
  match name.command? inner with
  | some command =>
      if inner.conflicting || outer.conflicting then .error .misuse
      else .ok (.run command (outer.options.override inner.options))
  | none => .error .misuse

/-- The request of a command line, with what was given in front of its first word. -/
def requestBehind : Side × List String → Except Stop Request
  | (_, []) => .error .misuse
  | (outer, word :: rest) =>
      if word == "help" then readHelp rest
      else
        match CommandName.all.find? fun name => name.text == word with
        | some name => readCommand outer name rest
        | none => .error .misuse

section Lines

variable {outer inner : Side} {name : CommandName} {front back : List String} {n : Nat}

theorem readCommand_eq (rest : List String) :
    readCommand outer name rest
      = readSide name.scheme false none {} rest >>= fun r => name.request outer r.1 := rfl

theorem readArguments_eq (arguments : List String) :
    readArguments arguments
      = readSide outerScheme true none {} arguments >>= requestBehind := rfl

theorem find?_verbose (name : CommandName) :
    name.scheme.flags.find? (fun f => f.short? == some 'v') = some .verbose := by
  cases name <;> rfl

theorem request_raised (j k : Nat) :
    (name.request (outer.raised j) (inner.raised k)).map Request.muted
      = (name.request outer inner).map Request.muted := by
  have hcommand : name.command? (inner.raised k) = name.command? inner := by cases name <;> rfl
  unfold CommandName.request
  rw [hcommand]
  cases name.command? inner with
  | none => rfl
  | some command =>
      show (if inner.conflicting || outer.conflicting then _ else _ : Except Stop Request).map _ = _
      dsimp only
      split <;> rfl

/-- More of the journal may be asked for in front of the name. -/
theorem requestBehind_raised (rest : List String) :
    (requestBehind (outer.raised n, rest)).map Request.muted
      = (requestBehind (outer, rest)).map Request.muted := by
  cases rest with
  | nil => rfl
  | cons word rest =>
      simp only [requestBehind]
      split
      · rfl
      split
      · simp only [readCommand_eq]
        cases readSide _ false none {} rest with
        | error stop => rfl
        | ok r => exact request_raised n 0
      · rfl

/-- More of the journal may be asked for behind the name. -/
theorem readCommand_insert {behind : List String} (hbehind : AllowsFlag behind) :
    (readCommand outer name (behind ++ (List.replicate n "-v" ++ back))).map Request.muted
      = (readCommand outer name (behind ++ back)).map Request.muted := by
  simp only [readCommand_eq]
  cases passage name.scheme false {} hbehind fun _ => rfl with
  | through t h =>
      rw [h, h, readSide_replicate (find?_verbose name), readSide_raised]
      cases readSide name.scheme false none t back with
      | error stop => rfl
      | ok r => exact request_raised 0 n
  | stopped stop h => rw [h, h]
  | atWord _ _ _ hword => cases hword

theorem readHelp_ne_run {names : List String} {command : Command} {o : Options} :
    readHelp names ≠ .ok (.run command o) := by
  unfold readHelp
  split
  · simp
  · split <;> simp
  · simp

/-- More of the journal may be asked for wherever a flag may stand. -/
theorem readArguments_insert {command : Command} {o : Options} (hfront : AllowsFlag front)
    (h : readArguments (front ++ back) = .ok (.run command o)) :
    (readArguments (front ++ (List.replicate n "-v" ++ back))).map Request.muted
      = .ok (.run command o.muted) := by
  have hmuted : (readArguments (front ++ back)).map Request.muted = .ok (.run command o.muted) := by
    rw [h]
    rfl
  rw [← hmuted]
  simp only [readArguments_eq] at h ⊢
  cases passage outerScheme true {} hfront fun _ => rfl with
  | through t hread =>
      rw [hread, hread, readSide_replicate rfl, readSide_raised]
      cases readSide outerScheme true none t back with
      | error stop => rfl
      | ok r => exact requestBehind_raised r.2
  | stopped stop hread => rw [hread, hread]
  | atWord t word behind _ hsuffix hread =>
      rw [hread] at h
      rw [hread, hread]
      have hbehind : AllowsFlag behind := (hfront.of_suffix hsuffix).of_cons
      replace h : requestBehind (t, word :: (behind ++ back)) = .ok (.run command o) := h
      show (requestBehind (t, word :: (behind ++ _))).map Request.muted
        = (requestBehind (t, word :: (behind ++ back))).map Request.muted
      simp only [requestBehind] at h ⊢
      cases hhelp : word == "help" with
      | true =>
          rw [if_pos hhelp] at h
          exact absurd h readHelp_ne_run
      | false =>
          simp only [Bool.false_eq_true, if_false]
          split
          · exact readCommand_insert hbehind
          · rfl

/-- **Asking for more of the journal** wherever a flag may stand leaves the rest of the request. -/
theorem ofArguments?_insert {command : Command} {o : Options} (hfront : AllowsFlag front)
    (h : Request.ofArguments? (front ++ back) = some (.run command o)) :
    ∃ o', Request.ofArguments? (front ++ (List.replicate n "-v" ++ back)) = some (.run command o')
      ∧ o'.muted = o.muted := by
  have hread : readArguments (front ++ back) = .ok (.run command o) := by
    unfold Request.ofArguments? at h
    split at h <;> simp_all
  have hinsert := readArguments_insert (n := n) hfront hread
  cases hwith : readArguments (front ++ (List.replicate n "-v" ++ back)) with
  | error stop => rw [hwith] at hinsert; cases hinsert
  | ok request =>
      rw [hwith] at hinsert
      simp only [Request.ofArguments?, hwith]
      cases request with
      | version => cases hinsert
      | help => cases hinsert
      | run command' o' =>
          simp only [Except.map, Request.muted, Except.ok.injEq, Request.run.injEq] at hinsert
          obtain ⟨rfl, hmuted⟩ := hinsert
          exact ⟨o', rfl, hmuted⟩

end Lines

end Versioning.Cli
