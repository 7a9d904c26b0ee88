import Versioning.Proofs.Between
import Versioning.Proofs.Covering
import Versioning.Range.Basic

set_option autoImplicit false

/-! # Readings that cannot fail

A range is read with a scanner for the pre-releases of its operands, and by counting up components
of the operands for its upper bounds. Which component that is depends on how many are given, and a
place among them is found by subtracting one from their number or by a search. The traced reader of
ranges does this act by act. An operand never has more than three components, and its bounds are
only asked for where there is one at all, so every place that is counted up is in reach.

No text makes any reader fail: whatever is given to be read, strictly, as a tag or as a range, all
acts are safe and the result is that of `Version.parse`, `Version.parseTagged` or `Range.parse`
(`readings_are_safe`). -/

namespace Versioning

open Text

namespace Range

/-! ## Upper bounds -/

namespace Operand

variable {p : Operand} {place : Nat}

/-- The ceiling at a place; an operand without components has none, but does not fail. -/
def bound? (p : Operand) (place : Nat) : Option (Option Version) :=
  if p.isAny then some none else (p.ceiling? place).map some

theorem bound?_of_nil (h : p.components = []) : p.bound? place = some none := by
  rw [bound?, isAny, h]
  rfl

theorem bound?_of_ne_nil (h : p.components ≠ []) :
    p.bound? place = (p.ceiling? place).map some := by
  rw [bound?, if_neg (by simpa [isAny] using h)]

/-- From the floor up to a bound, if there is one. -/
def withBound (p : Operand) (bound : Option Version) : List Comparator :=
  ⟨.greaterOrEqual, p.floor⟩ :: (bound.map (⟨.less, ·⟩)).toList

theorem upTo?_eq (p : Operand) (place : Nat) :
    p.upTo? place = (p.bound? place).map p.withBound := by
  rw [upTo?, bound?]
  split
  · rfl
  · cases p.ceiling? place <;> rfl

theorem lastPlace_lt (h : p.components ≠ []) : p.lastPlace < p.components.length :=
  Nat.sub_lt (List.length_pos_of_ne_nil h) Nat.one_pos

theorem leadingPlace_lt (h : p.components ≠ []) : p.leadingPlace < p.components.length := by
  rw [leadingPlace]
  cases hfind : p.components.findIdx? (· != .zero) with
  | none => exact lastPlace_lt h
  | some i =>
      obtain ⟨hlt, -⟩ := List.findIdx?_eq_some_iff_getElem.1 hfind
      exact hlt

end Operand

namespace Reader

open Traced (act attempt subtractOne subtractOne_ends)

/-- The bound that counts up the component at a place. -/
def boundAt (p : Operand) (place : Nat) : OptionT Traced (Option Version) := do
  act (.countUp p place)
  let top ← (p.ceiling? place).getM
  return some top

/-- The bound of an operand behind `^`. The last place is computed even if it is not needed. -/
def caretBound (p : Operand) : OptionT Traced (Option Version) := do
  if p.isAny then return none
  else
    let last ← subtractOne p.components.length
    boundAt p ((p.components.findIdx? (· != .zero)).getD last)

/-- The bound of an operand behind `~`. -/
def tildeBound (p : Operand) : OptionT Traced (Option Version) :=
  match p.components.length with
  | 0 => return none
  | 1 => boundAt p 0
  | _ => boundAt p 1

/-- The bound of an operand alone, which is not full. -/
def spanBound (p : Operand) : OptionT Traced (Option Version) :=
  match p.components.length with
  | 0 => return none
  | n => do
      let last ← subtractOne n
      boundAt p last

section Bounds

variable {p : Operand} (hp : p.components.length ≤ 3)

include hp

theorem boundAt_follows {place : Nat} (h : place < p.components.length) :
    Follows Eq (p.bound? place) (boundAt p place) := by
  have hplace : place ≤ 2 := Nat.le_of_lt_succ (Nat.lt_of_lt_of_le h hp)
  rw [Operand.bound?_of_ne_nil (List.ne_nil_of_length_pos (Nat.zero_lt_of_lt h))]
  exact .act ⟨hplace, h⟩ ((Follows.getM _).mapped some)

theorem caretBound_follows : Follows Eq (p.bound? p.leadingPlace) (caretBound p) := by
  rw [caretBound]
  split
  · next hany =>
      rw [Operand.bound?_of_nil (List.isEmpty_iff.1 hany)]
      exact .pure rfl
  · next hany =>
      have hne : p.components ≠ [] := by simpa [Operand.isAny] using hany
      refine .lift (subtractOne_ends (List.length_pos_of_ne_nil hne)) ?_
      rintro _ rfl
      exact boundAt_follows hp (Operand.leadingPlace_lt hne)

theorem tildeBound_follows : Follows Eq (p.bound? p.minorPlace) (tildeBound p) := by
  rw [tildeBound, Operand.minorPlace, Operand.lastPlace]
  split
  · next hlength =>
      rw [Operand.bound?_of_nil (List.length_eq_zero_iff.1 hlength)]
      exact .pure rfl
  · next hlength =>
      rw [hlength]
      exact boundAt_follows hp (by omega)
  · next hzero hone =>
      have hlength : 2 ≤ p.components.length := (Nat.two_le_iff _).2 ⟨hzero, hone⟩
      rw [Nat.min_eq_right (Nat.le_sub_one_of_lt hlength)]
      exact boundAt_follows hp hlength

theorem spanBound_follows : Follows Eq (p.bound? p.lastPlace) (spanBound p) := by
  rw [spanBound]
  split
  · next hlength =>
      rw [Operand.bound?_of_nil (List.length_eq_zero_iff.1 hlength)]
      exact .pure rfl
  · next hzero =>
      have hne : p.components ≠ [] := fun hnil => hzero (congrArg List.length hnil)
      refine .lift (subtractOne_ends (List.length_pos_of_ne_nil hne)) ?_
      rintro _ rfl
      exact boundAt_follows hp (Operand.lastPlace_lt hne)

end Bounds

/-- The place of the first component that is not zero is counted up. -/
example : (caretBound ⟨[.zero, .ofNat 2], [], []⟩).run.acts
    = [.subtractOne 2, .countUp ⟨[.zero, .ofNat 2], [], []⟩ 1] := rfl

/-! ## Operands -/

/-- Read the pre-release of an operand, which the scanner has to accept. -/
def preRelease : Option (List Char) → OptionT Traced (List Identifier)
  | none => return []
  | some cs => do
      if ← Scanner.isPreRelease (String.ofList cs) then
        ((cs.splitOn '.').mapM Identifier.ofChars?).getM
      else failure

/-- Read an operand. -/
def operand (cs : List Char) : OptionT Traced Operand := do
  let (front, build) := cut '+' (Operand.unmarked cs)
  let (core, pre) := cut '-' front
  let components ← ((core.splitOn '.').mapM Operand.component?).getM
  let preRelease ← preRelease pre
  let build ← (Operand.pieces? Word.ofChars? build).getM
  if components.length ≤ 3 then
    let p : Operand := ⟨Operand.given components, preRelease, build⟩
    act (.build p)
    return p
  else failure

theorem preRelease_follows (pre : Option (List Char)) :
    Follows Eq (Operand.pieces? Identifier.ofChars? pre) (preRelease pre) := by
  cases pre with
  | none => exact .pure rfl
  | some cs =>
      refine .lift (Scanner.isPreRelease_ends (String.ofList cs)) ?_
      rintro _ rfl
      rw [String.toList_ofList, Operand.pieces?]
      cases (cs.splitOn '.').mapM Identifier.ofChars? with
      | none => exact .failure
      | some xs => exact .pure rfl

theorem operand_follows (cs : List Char) : Follows Eq (Operand.ofChars? cs) (operand cs) := by
  rw [Operand.ofChars?, operand]
  refine (Follows.getM _).bind ?_
  rintro components _ - rfl
  refine (preRelease_follows _).bind ?_
  rintro pre _ - rfl
  refine (Follows.getM _).bind ?_
  rintro build _ - rfl
  split
  · next hlength =>
      exact .act (Nat.le_trans (Operand.length_given_le components) hlength) (.pure rfl)
  · exact .failure

/-! ## Items -/

/-- The versions that an operand alone stands for. -/
def span (p : Operand) : OptionT Traced (List Comparator) := do
  if p.isFull then return [⟨.equal, p.floor⟩]
  else
    match ← spanBound p with
    | some top => return p.withBound (some top)
    | none => return []

/-- What an operand behind a sigil asks for. -/
def comparators (p : Operand) : Sigil → OptionT Traced (List Comparator)
  | .compare o => return [⟨o, p.floor⟩]
  | .same => span p
  | .caret => return p.withBound (← caretBound p)
  | .tilde => return p.withBound (← tildeBound p)

/-- Read an item, with what it asks for. -/
def item (word : List Char) : OptionT Traced (Item × List Comparator) := do
  let (sigil, rest) := Sigil.split word
  match sigil, ← attempt (operand rest) with
  | none, none => return (⟨none, none⟩, [])
  | some _, none => failure
  | none, some p => return (⟨none, some p⟩, ← span p)
  | some s, some p => return (⟨some s, some p⟩, ← comparators p s)

section Items

variable {p : Operand} (hp : p.components.length ≤ 3)

include hp

theorem span_follows : Follows Eq p.span? (span p) := by
  have hspan : p.span? = if p.isFull then some [⟨.equal, p.floor⟩]
      else (p.bound? p.lastPlace).bind fun bound =>
        some (bound.elim [] fun top => p.withBound (some top)) := by
    rw [Operand.span?, Operand.upTo?_eq, Operand.bound?]
    split
    · rfl
    · split
      · rfl
      · cases p.ceiling? p.lastPlace <;> rfl
  rw [hspan, span]
  split
  · exact .pure rfl
  · refine (spanBound_follows hp).bind ?_
    rintro bound _ - rfl
    cases bound with
    | none => exact .pure rfl
    | some top => exact .pure rfl

theorem comparators_follows (s : Sigil) :
    Follows Eq (Item.comparators? ⟨some s, some p⟩) (comparators p s) := by
  cases s with
  | compare o => exact .pure rfl
  | same => exact span_follows hp
  | caret =>
      rw [Item.comparators?, Operand.upTo?_eq]
      exact (caretBound_follows hp).mapped p.withBound
  | tilde =>
      rw [Item.comparators?, Operand.upTo?_eq]
      exact (tildeBound_follows hp).mapped p.withBound

end Items

theorem item_follows (word : List Char) :
    Follows (fun cs read => read = (Item.ofChars word, cs)) (Item.ofChars word).comparators?
      (item word) := by
  rw [item, Item.ofChars]
  obtain ⟨sigil, rest⟩ := Sigil.split word
  refine .attempt (operand_follows rest) (fun hnone => ?_) ?_
  · dsimp only
    rw [hnone]
    cases sigil with
    | none => exact .pure rfl
    | some s => exact .failure
  · rintro p _ hsome rfl
    have hp : p.components.length ≤ 3 := Operand.length_components_le hsome
    dsimp only
    rw [hsome]
    cases sigil with
    | none =>
        refine (span_follows hp).andThen ?_
        rintro cs _ - rfl
        exact .pure rfl
    | some s =>
        refine (comparators_follows hp s).andThen ?_
        rintro cs _ - rfl
        exact .pure rfl

theorem items_follows (ws : List (List Char)) :
    Follows (fun css read => read.unzip = (ws.map Item.ofChars, css))
      ((ws.map Item.ofChars).mapM Item.comparators?) (ws.mapM item) := by
  induction ws with
  | nil => exact .pure rfl
  | cons w ws ih =>
      rw [List.map_cons, List.mapM_cons, List.mapM_cons]
      refine (item_follows w).bind ?_
      rintro cs _ - rfl
      refine ih.bind ?_
      rintro css read - hread
      refine .pure ?_
      rw [List.unzip_cons, hread]

/-! ## Branches -/

/-- Read a branch as a list of items. -/
def ofItems (cs : List Char) : OptionT Traced Conjunction := do
  let (items, comparators) := (← (words (glue false cs)).mapM item).unzip
  if items.any (·.sigil.isSome) then
    if items.any Item.isLoose then failure else return .ofComparators comparators.flatten none
  else
    let found ← (Version.findInChars? cs).getM
    if items.any Item.isLoose then return .ofComparators [⟨.equal, found⟩] (some found)
    else return .ofComparators comparators.flatten (some found)

/-- Up to an operand as the end of an interval. -/
def upToEnd (p : Operand) : OptionT Traced (List Comparator) := do
  if p.isFull then return [⟨.lessOrEqual, p.floor⟩]
  else return ((← spanBound p).map (⟨.less, ·⟩)).toList

/-- Read a branch between two ends, each of which is an operand. -/
def between (start stop : List Char) : OptionT Traced Conjunction := do
  let first ← operand start
  let last ← operand stop
  let upper ← upToEnd last
  let found ← (Version.findInChars? start).getM
  return .ofComparators (⟨.greaterOrEqual, first.floor⟩ :: upper) (some found)

/-- Read a branch: in the form `A - B`, or as a list of items. -/
def conjunction (cs : List Char) : OptionT Traced Conjunction :=
  match Conjunction.dashEnds? cs with
  | some (start, stop) => between start stop
  | none => ofItems cs

theorem ofItems_follows (cs : List Char) : Follows Eq (Conjunction.ofItems? cs) (ofItems cs) := by
  rw [Conjunction.ofItems?, ofItems]
  refine (items_follows (words (glue false cs))).bind ?_
  rintro css read - hread
  rw [hread]
  dsimp only
  rw [← items]
  split
  · split
    · exact .failure
    · exact .pure rfl
  · refine (Follows.getM _).bind ?_
    rintro found _ - rfl
    split
    · exact .pure rfl
    · exact .pure rfl

theorem upToEnd_follows {p : Operand} (hp : p.components.length ≤ 3) :
    Follows Eq p.upToEnd? (upToEnd p) := by
  have hend : p.upToEnd? = if p.isFull then some [⟨.lessOrEqual, p.floor⟩]
      else (p.bound? p.lastPlace).map fun bound => (bound.map (⟨.less, ·⟩)).toList := by
    rw [Operand.upToEnd?, Operand.bound?]
    split
    · rfl
    · split
      · rfl
      · cases p.ceiling? p.lastPlace <;> rfl
  rw [hend, upToEnd]
  split
  · exact .pure rfl
  · exact (spanBound_follows hp).mapped _

theorem between_follows (start stop : List Char) :
    Follows Eq (Conjunction.between? start stop) (between start stop) := by
  rw [Conjunction.between?, between]
  refine (operand_follows start).bind ?_
  rintro first _ - rfl
  refine (operand_follows stop).bind ?_
  rintro last _ hlast rfl
  refine (upToEnd_follows (Operand.length_components_le hlast)).bind ?_
  rintro upper _ - rfl
  refine (Follows.getM _).bind ?_
  rintro found _ - rfl
  exact .pure rfl

theorem conjunction_follows (cs : List Char) :
    Follows Eq (Conjunction.ofChars? cs) (conjunction cs) := by
  rw [Conjunction.ofChars?, conjunction]
  cases Conjunction.dashEnds? cs with
  | some ends => exact between_follows ends.1 ends.2
  | none => exact ofItems_follows cs

/-! ## Ranges -/

/-- Whether all words are operands without any component. The first that is not ends the search. -/
def allWildcards (words : List (List Char)) : Traced Bool :=
  words.allM fun word => return (← (operand word).run).any Operand.isAny

/-- Read a branch without blanks around it. -/
def shape (cs : List Char) : Traced (Except Shape.Defect Shape) := do
  if cs.isEmpty then return .error .blank
  else if ← allWildcards (words cs) then return .ok .everything
  else
    match ← (conjunction cs).run with
    | some c => return .ok (.conjunction c)
    | none => return .error (.unreadable (String.ofList cs))

/-- Read a branch, and keep how it was written. -/
def branch (piece : List Char) : Traced Branch := do
  let cs := trim isBlank piece
  return ⟨Shape.ofReading (← shape cs), some (String.ofList cs)⟩

/-- Read a range. -/
def range (text : String) : Traced (Except Fault Range) := do
  let cs := trim isBlank text.toList
  if cs.isEmpty then return .error .empty
  else
    let branches ← (alternatives cs).mapM branch
    return .ok ⟨branches, text⟩

theorem allWildcards_ends (ws : List (List Char)) :
    (allWildcards ws).Ends (· = ws.all fun w => (Operand.ofChars? w).any Operand.isAny) := by
  induction ws with
  | nil => exact .pure rfl
  | cons w ws ih =>
      have hw : ((operand w).run >>= fun p? => Pure.pure (p?.any Operand.isAny)).Ends
          (· = (Operand.ofChars? w).any Operand.isAny) := by
        refine (operand_follows w).ends (fun hnone => .pure ?_) ?_
        · rw [hnone]
        · rintro p _ hsome rfl
          rw [hsome]
          exact .pure rfl
      rw [allWildcards, List.allM, List.all_cons]
      refine hw.bind ?_
      rintro _ rfl
      cases (Operand.ofChars? w).any Operand.isAny with
      | true => exact ih
      | false => exact .pure rfl

theorem shape_ends (cs : List Char) : (shape cs).Ends (· = Shape.read cs) := by
  rw [shape, Shape.read]
  split
  · exact .pure rfl
  · refine (allWildcards_ends (words cs)).bind ?_
    rintro _ rfl
    rw [Shape.allWildcards]
    split
    · exact .pure rfl
    · refine (conjunction_follows cs).ends (fun hnone => ?_) ?_
      · rw [hnone]
        exact .pure rfl
      · rintro c _ hsome rfl
        rw [hsome]
        exact .pure rfl

theorem branch_ends (piece : List Char) : (branch piece).Ends
    (· = ⟨Shape.ofReading (Shape.read (trim isBlank piece)),
      some (String.ofList (trim isBlank piece))⟩) := by
  refine (shape_ends _).bind ?_
  rintro _ rfl
  exact .pure rfl

/-- **Reading a range is safe**, and gives the range. -/
theorem range_ends (text : String) : (range text).Ends (· = Range.parse text) := by
  rw [range, Range.parse, Range.readings]
  dsimp only
  split
  · exact .pure rfl
  · refine (Traced.Ends.mapM branch_ends _).bind ?_
    rintro _ rfl
    refine .pure (congrArg Except.ok (congrArg (Range.mk · text) ?_))
    rw [List.map_map]
    rfl

end Reader

end Range

/-! ## All readings -/

/-- **No text makes a reader fail.** Whatever is given to be read, the scanner is always on a
    boundary between characters and within the text, it steps over bytes of ASCII characters only,
    and it takes slices between boundaries; operands have at most three components; what is counted
    up is one of them; and one is never subtracted from zero. The results are those of the readers
    of characters, and a version is not read without stepping over every byte of it. -/
theorem readings_are_safe (text : String) :
    let version := Scanner.parse text
    let tagged := Scanner.parseTagged text
    let range := Range.Reader.range text
    let acts := version.acts ++ tagged.acts ++ range.acts
    (version.result = (Version.parse text).map Version.fields
      ∧ tagged.result = (Version.parseTagged text).map Version.fields
      ∧ range.result = Range.parse text)
    ∧ (∀ t, version.result = .ok t → ∀ pos < (Version.trimmed text).utf8ByteSize,
        .step (Version.trimmed text) pos ∈ version.acts)
    ∧ (∀ t pos, .look t pos ∈ acts → pos ≤ t.utf8ByteSize ∧ IsBoundary t pos)
    ∧ (∀ t pos, .step t pos ∈ acts → pos + 1 ≤ t.utf8ByteSize ∧ IsBoundary t pos
        ∧ IsBoundary t (pos + 1) ∧ ∃ b ∈ byte? t pos, b.toNat < 128)
    ∧ (∀ t start stop, .slice t start stop ∈ acts → start ≤ stop ∧ stop ≤ t.utf8ByteSize
        ∧ IsBoundary t start ∧ IsBoundary t stop)
    ∧ (∀ p, .build p ∈ acts → p.components.length ≤ 3)
    ∧ (∀ p place, .countUp p place ∈ acts → place ≤ 2 ∧ place < p.components.length)
    ∧ (∀ n, .subtractOne n ∈ acts → 0 < n) := by
  intro version tagged range acts
  have hversion := Scanner.parse_ends text
  have htagged := Scanner.parseTagged_ends text
  have hrange := Range.Reader.range_ends text
  have hsafe : ∀ a ∈ acts, a.IsSafe := by
    intro a ha
    rcases List.mem_append.1 ha with ha | ha
    · exact (List.mem_append.1 ha).elim (hversion.safe a) (htagged.safe a)
    · exact hrange.safe a ha
  refine ⟨⟨hversion.result, htagged.result, hrange.result⟩,
    fun t ht pos hpos => Scanner.step_mem_acts_parse ht hpos, fun t pos h => ?_,
    fun t pos h => ?_, fun t start stop h => ?_, fun p h => hsafe _ h,
    fun p place h => hsafe _ h, fun n h => hsafe _ h⟩
  · have hlook : IsBoundary t pos := hsafe _ h
    exact ⟨hlook.le, hlook⟩
  · obtain ⟨hpos, hnext, hbyte⟩ := hsafe _ h
    exact ⟨hnext.le, hpos, hnext, hbyte⟩
  · obtain ⟨hle, hstart, hstop⟩ := hsafe _ h
    exact ⟨hle, hstop.le, hstart, hstop⟩

end Versioning
