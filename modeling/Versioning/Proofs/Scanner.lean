import Versioning.Proofs.Grammar
import Versioning.Proofs.Tagged
import Versioning.Proofs.Traced

set_option autoImplicit false

/-! # Scanning versions byte by byte

The scanner reads a version from the bytes of its text. All it keeps is a position; it steps over
the bytes of digits, word characters and marks, and takes what it has stepped over as slices. Each
of its functions comes with what it does behind a position that is a boundary: it reads there what
the reader of characters reads from the characters behind the position, it ends at the position
where that reader ends, and none of its acts fails.

So whatever the text is, reading it strictly (`parse_ends`), as a tag (`parseTagged_ends`) or as a
pre-release (`isPreRelease_ends`) is safe, and gives what the readers of characters give. -/

namespace Versioning

open Text

/-! ## Dotted lists, word by word -/

namespace Version.Reader

section Lists

variable {α : Type} {read : List Char → Option α} {write : α → List Char}

theorem isListChar_of_isWordChar {c : Char} (h : isWordChar c = true) : isListChar c = true := by
  simp only [isListChar, h, Bool.true_or]

/-- A dotted list starts with a word, and goes on behind a dot. -/
theorem dottedList_eq (read : List Char → Option α) (cs : List Char) :
    dottedList read cs = (do
      let x ← read (cs.takeWhile isWordChar)
      match mark '.' (cs.dropWhile isWordChar) with
      | none => some ([x], cs.dropWhile isWordChar)
      | some rest => (dottedList read rest).map fun (xs, rest) => (x :: xs, rest)) := by
  obtain ⟨hcs, hword, hstop⟩ := Text.span_eq_iff.1 ⟨rfl, rfl⟩
  generalize cs.takeWhile isWordChar = word at hcs hword ⊢
  generalize cs.dropWhile isWordChar = back at hcs hstop ⊢
  subst hcs
  have hdot : '.' ∉ word := dot_notMem_of_isWordChar hword
  have hlist : ∀ c ∈ word, isListChar c = true := fun c hc => isListChar_of_isWordChar (hword c hc)
  cases hmark : mark '.' back with
  | some rest =>
      obtain rfl := mark_eq_some hmark
      have hsplit : (word ++ '.' :: rest.takeWhile isListChar).splitOn '.'
          = word :: (rest.takeWhile isListChar).splitOn '.' := by
        rw [List.splitOn, List.splitOnP_append_cons (p := (· == '.')) _ _ rfl]
        exact congrArg (· ++ _) (List.splitOn_eq_singleton hdot)
      rw [dottedList, List.takeWhile_append_of_pos hlist, List.dropWhile_append_of_pos hlist,
        List.takeWhile_cons_of_pos rfl, List.dropWhile_cons_of_pos rfl, hsplit, List.mapM_cons]
      dsimp only
      rw [dottedList]
      cases read word with
      | none => rfl
      | some x => cases ((rest.takeWhile isListChar).splitOn '.').mapM read <;> rfl
  | none =>
      have hend : ∀ c ∈ back.head?, isListChar c = false := by
        intro c hc
        have hne : c ≠ '.' := by
          rintro rfl
          exact mark_eq_none_iff.1 hmark hc
        simp [isListChar, hstop c hc, hne]
      obtain ⟨htake, hdrop⟩ := Text.span_eq_iff.2 ⟨rfl, hlist, hend⟩
      rw [dottedList, htake, hdrop, List.splitOn_eq_singleton hdot, List.mapM_cons, List.mapM_nil]
      cases read word <;> rfl

/-- A dotted list is the whole text exactly if all pieces between the dots can be read. -/
theorem dottedList_eq_nil_iff (hread : ∀ {piece x}, read piece = some x ↔ piece = write x)
    (hword : ∀ x, ∀ c ∈ write x, isWordChar c = true) {cs : List Char} {xs : List α} :
    dottedList read cs = some (xs, []) ↔ (cs.splitOn '.').mapM read = some xs := by
  rw [dottedList_eq_some_iff hread hword, mapM_read_eq_some_iff hread]
  constructor
  · rintro ⟨hne, rfl, -⟩
    rw [List.append_nil]
    refine splitOn_dotted ?_ (by simpa using hne)
    intro piece hpiece
    obtain ⟨x, -, rfl⟩ := List.mem_map.1 hpiece
    exact dot_notMem_of_isWordChar (hword x)
  · intro hsplit
    have hjoin : dotted (cs.splitOn '.') = cs := List.intercalate_splitOn '.'
    refine ⟨?_, ?_, nofun⟩
    · rintro rfl
      exact List.splitOn_ne_nil _ _ hsplit
    · rw [← hsplit, hjoin, List.append_nil]

end Lists

end Version.Reader

namespace Scanner

open Version.Reader
open Traced (act attempt slice slice_ends)

section Steps

variable {text : String} {pos : Nat} {back : List Char}

/-! ## Steps -/

/-- Look for a byte at a position. -/
def peek (text : String) (pos : Nat) : Traced (Option {b // byte? text pos = some b}) := do
  act (.look text pos)
  return (byte? text pos).attach

/-- The byte at the position of the scanner is the first one of a character. -/
theorem peek_ends (h : Behind text pos back) :
    (peek text pos).Ends fun b => b.map Subtype.val = back.head?.map leadByte := by
  refine .act h.isBoundary (.pure ?_)
  rw [Option.attach_map_subtype_val, h.byte?]

theorem step_isSafe {c : Char} (hc : c.toNat < 128) (h : Behind text pos (c :: back)) :
    (Act.step text pos).IsSafe :=
  ⟨h.isBoundary, (h.step hc).isBoundary, _, h.byte?, toNat_leadByte_of_ascii hc⟩

/-- Step over the characters of a class, as far as they go. -/
def skip (text : String) (k : AsciiClass) (pos : Nat) : Traced {stop // pos ≤ stop} := do
  match ← peek text pos with
  | none => return ⟨pos, Nat.le_refl pos⟩
  | some ⟨b, _⟩ =>
      if k.isByte b then
        act (.step text pos)
        let ⟨stop, hstop⟩ ← skip text k (pos + 1)
        return ⟨stop, Nat.le_of_succ_le hstop⟩
      else return ⟨pos, Nat.le_refl pos⟩
termination_by text.utf8ByteSize - pos
decreasing_by exact Nat.sub_succ_lt_self _ _ (lt_of_byte? ‹_›)

theorem skip_ends {k : AsciiClass} (h : Behind text pos back) :
    (skip text k pos).Ends fun stop => Behind text stop (back.dropWhile k.isChar) := by
  induction back generalizing pos with
  | nil =>
      rw [skip]
      refine (peek_ends h).bind ?_
      rintro (_ | b) hb
      · exact .pure h
      · cases hb
  | cons c back ih =>
      rw [skip]
      refine (peek_ends h).bind ?_
      rintro (_ | ⟨b, _⟩) hb
      · cases hb
      · obtain rfl : b = leadByte c := Option.some.inj hb
        dsimp only
        rw [k.isByte_leadByte]
        split
        · next hc =>
            have hascii := k.char_lt c hc
            rw [List.dropWhile_cons_of_pos hc]
            exact .act (step_isSafe hascii h)
              ((ih (h.step hascii)).bind fun stop hstop => .pure hstop)
        · next hc =>
            rw [List.dropWhile_cons_of_neg hc]
            exact .pure h

/-- Step over a certain character. -/
def eat (text : String) (m : Char) (pos : Nat) :
    OptionT Traced {next // pos < next ∧ next ≤ text.utf8ByteSize} := do
  match ← liftM (peek text pos) with
  | none => failure
  | some ⟨b, hb⟩ =>
      if b = UInt8.ofNat m.toNat then
        act (.step text pos)
        return ⟨pos + 1, Nat.lt_succ_self pos, lt_of_byte? hb⟩
      else failure

theorem eat_follows {m : Char} (hm : m.toNat < 128) (h : Behind text pos back) :
    Follows (fun rest next => Behind text next.1 rest) (mark m back) (eat text m pos) := by
  refine .lift (peek_ends h) ?_
  rintro (_ | ⟨b, _⟩) hb
  · cases back with
    | nil => exact .failure
    | cons c back => cases hb
  · cases back with
    | nil => cases hb
    | cons c back =>
        obtain rfl : b = leadByte c := Option.some.inj hb
        simp only [leadByte_eq_iff hm, mark]
        split
        · next hc =>
            have hascii : c.toNat < 128 := hc ▸ hm
            exact .act (step_isSafe hascii h) (.pure (h.step hascii))
        · exact .failure

/-! ## Numbers -/

/-- Whether a text starts with a zero and has more behind it. -/
def hasZeroInFront (piece : String) : Bool :=
  1 < piece.utf8ByteSize && piece.toList.head? == some '0'

theorem hasZeroInFront_ofList (cs : List Char) :
    hasZeroInFront (String.ofList cs) = true ↔ cs.head? = some '0' ∧ cs ≠ ['0'] := by
  cases cs with
  | nil => simp [hasZeroInFront]
  | cons c cs =>
      have hsize : (String.ofList (c :: cs)).utf8ByteSize = String.utf8Len cs + c.utf8Size := by
        rw [String.utf8ByteSize_ofList, String.utf8Len_cons]
      simp only [hasZeroInFront, hsize, String.toList_ofList, List.head?_cons, Bool.and_eq_true,
        decide_eq_true_eq, beq_iff_eq, Option.some.injEq, ne_eq, List.cons.injEq]
      rw [and_comm, and_congr_right_iff]
      rintro rfl
      have hzero : ('0' : Char).utf8Size = 1 := rfl
      rw [hzero, ← String.utf8Len_eq_zero]
      simp only [true_and]
      omega

theorem isEmpty_ofList_iff (cs : List Char) : (String.ofList cs).isEmpty = true ↔ cs = [] := by
  rw [String.isEmpty_iff, String.ofList_eq_empty_iff]

/-- A run of digits is a canonical numeral unless it has a zero in front. -/
theorem isCanonical_iff_of_digits {ds : List Char} (h : ∀ c ∈ ds, c.isDigit = true) :
    IsCanonical ds ↔ ds ≠ [] ∧ ¬ hasZeroInFront (String.ofList ds) = true := by
  rw [hasZeroInFront_ofList, IsCanonical]
  tauto

/-- Take a number, which is `0` or does not start with a zero. -/
def number (text : String) (pos : Nat) : OptionT Traced (String × Nat) := do
  let ⟨stop, _⟩ ← skip text .digit pos
  let digits ← slice text pos stop
  if digits.isEmpty || hasZeroInFront digits then failure else return (digits, stop)

theorem number_follows (h : Behind text pos back) :
    Follows (fun read taken => taken.1 = toString read.1 ∧ Behind text taken.2 read.2)
      (numeral back) (number text pos) := by
  rw [numeral, number]
  refine .lift (skip_ends h) ?_
  rintro ⟨stop, _⟩ hstop
  have hmid : Behind text pos (back.takeWhile Char.isDigit ++ back.dropWhile Char.isDigit) :=
    List.takeWhile_append_dropWhile.symm ▸ h
  refine .lift (slice_ends hmid hstop) ?_
  rintro _ rfl
  have hdigits := List.all_eq_true.1 (List.all_takeWhile (p := Char.isDigit) (l := back))
  have htest : ((String.ofList (back.takeWhile Char.isDigit)).isEmpty
      || hasZeroInFront (String.ofList (back.takeWhile Char.isDigit))) = true
        ↔ ¬ IsCanonical (back.takeWhile Char.isDigit) := by
    rw [isCanonical_iff_of_digits hdigits, Bool.or_eq_true, isEmpty_ofList_iff]
    tauto
  simp only [htest, Numeral.ofChars?]
  split
  · exact .pure ⟨rfl, hstop⟩
  · exact .failure

/-! ## Lists -/

/-- Whether a piece of a list is refused. A strict list has no numbers with a zero in front. -/
def isRefused (strict : Bool) (piece : String) : Bool :=
  piece.isEmpty || (strict && hasZeroInFront piece && piece.toList.all Char.isDigit)

/-- A reader of pieces reads the words that are not refused, just as they are written. -/
structure ReadsPieces {α : Type} (strict : Bool) (read : List Char → Option α)
    (write : α → List Char) : Prop where
  read_iff : ∀ {piece x}, read piece = some x ↔ piece = write x
  word : ∀ x, ∀ c ∈ write x, isWordChar c = true
  eq_none_iff : ∀ piece : List Char, (∀ c ∈ piece, isWordChar c = true) →
    (read piece = none ↔ isRefused strict (String.ofList piece) = true)

theorem readsPieces_identifier : ReadsPieces true Identifier.ofChars? Identifier.chars where
  read_iff := Identifier.ofChars?_eq_some_iff
  word i _ := i.isWordChar_of_mem_chars
  eq_none_iff piece hpiece := by
    have hnone : Identifier.ofChars? piece = none ↔ ¬ IsIdentifier piece := by
      rw [← exists_identifier_iff, Option.eq_none_iff_forall_ne_some, not_exists]
      exact forall_congr' fun i => not_congr (Identifier.ofChars?_eq_some_iff.trans eq_comm)
    rw [hnone, IsIdentifier, IsWord, and_iff_left hpiece, isRefused, String.toList_ofList,
      Bool.true_and, Bool.or_eq_true, Bool.and_eq_true, isEmpty_ofList_iff, List.all_eq_true,
      not_and_or, not_ne_iff]
    by_cases hdigits : ∀ c ∈ piece, c.isDigit = true
    · rw [isCanonical_iff_of_digits hdigits]
      tauto
    · tauto

theorem readsPieces_word : ReadsPieces false Word.ofChars? Word.chars where
  read_iff := Word.ofChars?_eq_some_iff
  word w := w.isWord.2
  eq_none_iff piece hpiece := by
    have hnone : Word.ofChars? piece = none ↔ ¬ IsWord piece := by
      rw [← exists_word_iff, Option.eq_none_iff_forall_ne_some, not_exists]
      exact forall_congr' fun w => not_congr (Word.ofChars?_eq_some_iff.trans eq_comm)
    rw [hnone, IsWord, and_iff_left hpiece, not_ne_iff, isRefused, Bool.false_and, Bool.false_and,
      Bool.or_false, isEmpty_ofList_iff]

/-- Step over pieces with dots between them. -/
def pieces (text : String) (strict : Bool) (pos : Nat) : OptionT Traced Nat := do
  let ⟨stop, _⟩ ← skip text .word pos
  let piece ← slice text pos stop
  if isRefused strict piece then failure
  else
    match ← attempt (eat text '.' stop) with
    | none => return stop
    | some ⟨next, _⟩ => pieces text strict next
termination_by text.utf8ByteSize - pos
decreasing_by omega

/-- Take pieces with dots between them. -/
def identifiers (text : String) (strict : Bool) (pos : Nat) : OptionT Traced (String × Nat) := do
  let stop ← pieces text strict pos
  let list ← slice text pos stop
  return (list, stop)

/-- Take pieces behind a mark, if the mark is there. -/
def identifiersBehind (text : String) (m : Char) (strict : Bool) (pos : Nat) :
    OptionT Traced (Option String × Nat) := do
  match ← attempt (eat text m pos) with
  | none => return (none, pos)
  | some ⟨start, _⟩ =>
      let (list, stop) ← identifiers text strict start
      return (some list, stop)

section Lists

variable {α : Type} {strict : Bool} {read : List Char → Option α} {write : α → List Char}

theorem pieces_follows (hreads : ReadsPieces strict read write) (h : Behind text pos back) :
    Follows (fun list stop => Behind text stop list.2) (dottedList read back)
      (pieces text strict pos) := by
  -- What is behind a piece is shorter than what is behind the position in front of it.
  induction hlength : back.length using Nat.strongRecOn generalizing pos back with
  | ind n ih =>
      rw [pieces, dottedList_eq]
      refine .lift (skip_ends h) ?_
      rintro ⟨stop, _⟩ (hstop : Behind text stop (back.dropWhile isWordChar))
      have hmid : Behind text pos (back.takeWhile isWordChar ++ back.dropWhile isWordChar) :=
        List.takeWhile_append_dropWhile.symm ▸ h
      refine .lift (slice_ends hmid hstop) ?_
      rintro _ rfl
      have htest := hreads.eq_none_iff (back.takeWhile isWordChar)
        (List.all_eq_true.1 List.all_takeWhile)
      cases hx : read (back.takeWhile isWordChar) with
      | none =>
          rw [if_pos (htest.1 hx)]
          exact .failure
      | some x =>
          rw [if_neg (mt htest.2 (by simp [hx])), Option.bind_eq_bind, Option.bind_some]
          refine .attempt (eat_follows (by decide) hstop) (fun hmark => ?_) ?_
          · rw [hmark]
            exact .pure hstop
          · intro rest next hmark hnext
            have hle := (List.dropWhile_sublist isWordChar (l := back)).length_le
            rw [mark_eq_some hmark] at hle
            rw [hmark]
            exact (ih rest.length (hlength ▸ hle) hnext rfl).map fun _ _ h => h

theorem identifiers_follows (hreads : ReadsPieces strict read write) (h : Behind text pos back) :
    Follows (fun list taken => list.1 ≠ [] ∧ taken.1 = String.ofList (dotted (list.1.map write))
      ∧ Behind text taken.2 list.2) (dottedList read back) (identifiers text strict pos) := by
  rw [identifiers]
  refine (pieces_follows hreads h).andThen ?_
  rintro ⟨xs, rest⟩ stop hlist hstop
  obtain ⟨hne, rfl, -⟩ := (dottedList_eq_some_iff hreads.read_iff hreads.word).1 hlist
  refine .lift (slice_ends h hstop) ?_
  rintro _ rfl
  exact .pure ⟨hne, rfl, hstop⟩

theorem identifiersBehind_follows {m : Char} (hm : m.toNat < 128)
    (hreads : ReadsPieces strict read write) (h : Behind text pos back) :
    Follows (fun list taken => taken.1 = (if list.1.isEmpty then none
        else some (String.ofList (dotted (list.1.map write)))) ∧ Behind text taken.2 list.2)
      (markedList m read back) (identifiersBehind text m strict pos) := by
  rw [identifiersBehind, markedList]
  refine .attempt (eat_follows hm h) (fun hmark => ?_) fun rest next hmark hnext => ?_
  · rw [hmark]
    exact .pure ⟨rfl, h⟩
  · rw [hmark]
    refine (identifiers_follows hreads hnext).andThen ?_
    rintro ⟨xs, rest⟩ ⟨_, stop⟩ - ⟨hne, rfl, hstop⟩
    refine .pure ⟨?_, hstop⟩
    rw [if_neg (by simpa using hne)]

end Lists

end Steps

/-! ## Versions -/

/-- Read the fields of a version, to the end of the text. -/
def fields (text : String) : OptionT Traced Version.Fields := do
  let (major, pos) ← number text 0
  let ⟨pos, _⟩ ← eat text '.' pos
  let (minor, pos) ← number text pos
  let ⟨pos, _⟩ ← eat text '.' pos
  let (patch, pos) ← number text pos
  let (preRelease, pos) ← identifiersBehind text '-' true pos
  let (build, pos) ← identifiersBehind text '+' false pos
  if pos = text.utf8ByteSize then return ⟨major, minor, patch, preRelease, build⟩ else failure

theorem fields_follows (text : String) :
    Follows (fun v t => t = v.fields) (version? text.toList) (fields text) := by
  rw [version?, fields]
  refine (number_follows (behind_zero text)).bind ?_
  rintro ⟨major, rest⟩ ⟨_, pos⟩ - ⟨rfl, hpos⟩
  refine (eat_follows (by decide) hpos).bind ?_
  rintro rest ⟨pos, _⟩ - hpos
  refine (number_follows hpos).bind ?_
  rintro ⟨minor, rest⟩ ⟨_, pos⟩ - ⟨rfl, hpos⟩
  refine (eat_follows (by decide) hpos).bind ?_
  rintro rest ⟨pos, _⟩ - hpos
  refine (number_follows hpos).bind ?_
  rintro ⟨patch, rest⟩ ⟨_, pos⟩ - ⟨rfl, hpos⟩
  refine (identifiersBehind_follows (by decide) readsPieces_identifier hpos).bind ?_
  rintro ⟨preRelease, rest⟩ ⟨_, pos⟩ - ⟨rfl, hpos⟩
  refine (identifiersBehind_follows (by decide) readsPieces_word hpos).bind ?_
  rintro ⟨build, rest⟩ ⟨_, pos⟩ - ⟨rfl, hpos⟩
  have hend : rest.isEmpty = true ↔ pos = text.utf8ByteSize := by
    rw [hpos.eq_size_iff, List.isEmpty_iff]
  simp only [hend]
  split
  · exact .pure rfl
  · exact .failure

/-- Read a version strictly. -/
def parse (text : String) : Traced (Except Fault Version.Fields) := do
  if text.utf8ByteSize > maxVersionBytes then return .error .tooLong
  else
    match ← (fields (Version.trimmed text)).run with
    | some t => return .ok t
    | none => return .error .malformed

/-- **Reading a version strictly is safe**, and gives the fields of the version. -/
theorem parse_ends (text : String) :
    (parse text).Ends (· = (Version.parse text).map Version.fields) := by
  have hfields := fields_follows (Version.trimmed text)
  rw [Version.trimmed, String.toList_ofList] at hfields
  rw [parse, Version.parse]
  split
  · exact .pure rfl
  · refine hfields.ends (fun hnone => ?_) ?_
    · rw [hnone]
      exact .pure rfl
    · rintro v _ hsome rfl
      rw [hsome]
      exact .pure rfl

/-- Read a version behind blanks and a run of tag marks. -/
def parseTagged (text : String) : Traced (Except Fault Version.Fields) := do
  let rest := String.ofList (Version.untagged text)
  if (byte? rest 0).any AsciiClass.digit.isByte then parse rest else return .error .malformed

/-- **Reading a version as a tag is safe**, and gives the fields of the version. -/
theorem parseTagged_ends (text : String) :
    (parseTagged text).Ends (· = (Version.parseTagged text).map Version.fields) := by
  have hbyte : (byte? (String.ofList (Version.untagged text)) 0).any AsciiClass.digit.isByte
      = (Version.untagged text).head?.any Char.isDigit := by
    rw [(behind_zero _).byte?, String.toList_ofList, Option.any_map]
    exact congrArg (Option.any · _) (funext AsciiClass.digit.isByte_leadByte)
  rw [parseTagged, Version.parseTagged_eq]
  simp only [hbyte]
  split
  · exact parse_ends _
  · exact .pure rfl

/-! ## Pre-releases -/

/-- Whether a text is the pre-release of a version. -/
def isPreRelease (text : String) : Traced Bool := do
  match ← (identifiers text true 0).run with
  | some (_, stop) => return stop == text.utf8ByteSize
  | none => return false

/-- **Testing a pre-release is safe**, and tells whether its identifiers can be read. -/
theorem isPreRelease_ends (text : String) : (isPreRelease text).Ends
    (· = ((text.toList.splitOn '.').mapM Identifier.ofChars?).isSome) := by
  have hwhole : ∀ {xs}, dottedList Identifier.ofChars? text.toList = some (xs, [])
      ↔ (text.toList.splitOn '.').mapM Identifier.ofChars? = some xs :=
    dottedList_eq_nil_iff readsPieces_identifier.read_iff readsPieces_identifier.word
  refine (identifiers_follows readsPieces_identifier (behind_zero text)).ends
    (fun hnone => .pure ?_) ?_
  · rw [eq_comm, Option.isSome_eq_false_iff, Option.isNone_iff_eq_none,
      Option.eq_none_iff_forall_ne_some]
    intro xs hxs
    rw [← hwhole, hnone] at hxs
    cases hxs
  · rintro ⟨xs, rest⟩ ⟨_, stop⟩ hlist ⟨-, -, hstop⟩
    refine .pure ?_
    rw [Bool.eq_iff_iff, beq_iff_eq, hstop.eq_size_iff, Option.isSome_iff_exists]
    simp only [← hwhole, hlist, Option.some.injEq, Prod.mk.injEq, exists_eq_left']

end Scanner

end Versioning
