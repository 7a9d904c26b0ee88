import Mathlib.Data.List.Basic
import Mathlib.Data.List.DropRight
import Mathlib.Data.List.TakeWhile
import Versioning.Range.Item

set_option autoImplicit false

/-! # Blanks between words

A range expression may be laid out with blanks in many ways. This file says how each step of reading
treats a gap, that is a text of blanks: `trim` drops the gaps at both ends, `words` drops the gaps
between words, and `glue` drops a gap behind a sigil character and keeps every other one. -/

namespace Versioning

namespace Text

/-! ## Gaps -/

/-- A text of blanks; it may be empty. -/
def IsGap (cs : List Char) : Prop := ∀ c ∈ cs, isBlank c = true

instance (cs : List Char) : Decidable (IsGap cs) :=
  decidable_of_iff (cs.all isBlank = true) List.all_eq_true

/-- A text that is not empty and has no blanks. -/
def IsSolid (cs : List Char) : Prop := cs ≠ [] ∧ ∀ c ∈ cs, isBlank c = false

instance (cs : List Char) : Decidable (IsSolid cs) :=
  decidable_of_iff (cs ≠ [] ∧ cs.all (!isBlank ·) = true) (by simp [IsSolid])

/-- A text that is not empty and has no blank at either end. -/
structure IsFramed (cs : List Char) : Prop where
  ne_nil : cs ≠ []
  first : ∀ c ∈ cs.head?, isBlank c = false
  last : ∀ c ∈ cs.getLast?, isBlank c = false

theorem isGap_nil : IsGap [] := fun _ hc => absurd hc List.not_mem_nil

theorem IsGap.append {cs ds : List Char} (hc : IsGap cs) (hd : IsGap ds) : IsGap (cs ++ ds) := by
  intro c hmem
  exact (List.mem_append.1 hmem).elim (hc c) (hd c)

theorem bar_notMem_gap {gap : List Char} (h : IsGap gap) : '|' ∉ gap := by
  intro hbar
  have hblank := h '|' hbar
  exact absurd hblank (by decide)

theorem IsSolid.isFramed {cs : List Char} (h : IsSolid cs) : IsFramed cs :=
  ⟨h.1, fun c hc => h.2 c (List.mem_of_head? hc), fun c hc => h.2 c (List.mem_of_getLast? hc)⟩

/-- Whatever stands between them, two framed texts make a framed text. -/
theorem IsFramed.append {cs ds : List Char} (hc : IsFramed cs) (hd : IsFramed ds)
    (between : List Char) : IsFramed (cs ++ (between ++ ds)) where
  ne_nil := List.append_ne_nil_of_left_ne_nil hc.ne_nil _
  first := by
    rw [List.head?_append_of_ne_nil cs hc.ne_nil]
    exact hc.first
  last := by
    rw [← List.append_assoc, List.getLast?_append_of_ne_nil _ hd.ne_nil]
    exact hd.last

/-- There is no gap at the front of a framed text. -/
theorem IsFramed.eq_nil_of_gap_append {gap cs : List Char} (h : IsFramed (gap ++ cs))
    (hgap : IsGap gap) : gap = [] := by
  by_contra hne
  obtain ⟨c, rest, rfl⟩ := List.exists_cons_of_ne_nil hne
  cases (h.first c rfl).symm.trans (hgap c List.mem_cons_self)

/-- There is no gap at the end of a framed text. -/
theorem IsFramed.eq_nil_of_append_gap {gap cs : List Char} (h : IsFramed (cs ++ gap))
    (hgap : IsGap gap) : gap = [] := by
  by_contra hne
  have hlast : gap.getLast hne ∈ (cs ++ gap).getLast? := by
    rw [List.getLast?_append_of_ne_nil _ hne, List.getLast?_eq_some_getLast hne]
    rfl
  cases (h.last _ hlast).symm.trans (hgap _ (List.getLast_mem hne))

/-- Framed texts stay framed when they are joined. -/
theorem isFramed_intercalate {sep : List Char} {texts : List (List Char)} (hne : texts ≠ [])
    (h : ∀ cs ∈ texts, IsFramed cs) : IsFramed (sep.intercalate texts) := by
  induction texts with
  | nil => exact absurd rfl hne
  | cons cs texts ih =>
      rw [List.forall_mem_cons] at h
      cases texts with
      | nil =>
          rw [List.intercalate_singleton]
          exact h.1
      | cons ds texts =>
          rw [List.intercalate_cons_cons, List.append_assoc]
          exact h.1.append (ih (List.cons_ne_nil _ _) h.2) sep

/-! ## Trimming -/

theorem trim_append_left {lead : List Char} (h : IsGap lead) (cs : List Char) :
    trim isBlank (lead ++ cs) = trim isBlank cs := by
  rw [trim, List.dropWhile_append_of_pos h, trim]

theorem trim_append_right {tail : List Char} (h : IsGap tail) (cs : List Char) :
    trim isBlank (cs ++ tail) = trim isBlank cs := by
  rw [trim, trim, List.dropWhile_append]
  split
  · next hempty =>
      rw [List.isEmpty_iff.1 hempty, List.dropWhile_eq_nil_iff.2 h]
  · rw [List.reverse_append,
      List.dropWhile_append_of_pos (fun c hc => h c (List.mem_reverse.1 hc))]

theorem dropWhile_eq_self {p : Char → Bool} {cs : List Char} (h : ∀ c ∈ cs.head?, p c = false) :
    cs.dropWhile p = cs := by
  cases cs with
  | nil => rfl
  | cons c cs => exact List.dropWhile_cons_of_neg (ne_true_of_eq_false (h c rfl))

/-- There is nothing to trim where neither end is of the class. -/
theorem trim_eq_self {p : Char → Bool} {cs : List Char} (hfirst : ∀ c ∈ cs.head?, p c = false)
    (hlast : ∀ c ∈ cs.getLast?, p c = false) : trim p cs = cs := by
  rw [← List.head?_reverse] at hlast
  rw [trim, dropWhile_eq_self hfirst, dropWhile_eq_self hlast, List.reverse_reverse]

theorem IsFramed.trim_eq_self {cs : List Char} (h : IsFramed cs) : trim isBlank cs = cs :=
  Text.trim_eq_self h.first h.last

/-- What is left after dropping a class does not begin with it. -/
theorem head?_dropWhile {p : Char → Bool} {cs : List Char} :
    ∀ c ∈ (cs.dropWhile p).head?, p c = false := by
  intro c hc
  have hnot := List.head?_dropWhile_not p cs
  rwa [Option.mem_def.1 hc] at hnot

theorem trim_eq_nil_iff {cs : List Char} : trim isBlank cs = [] ↔ IsGap cs := by
  show (cs.dropWhile isBlank).rdropWhile isBlank = [] ↔ _
  rw [List.rdropWhile_eq_nil_iff]
  constructor
  · intro h
    rw [IsGap, ← List.dropWhile_eq_nil_iff, ← List.head?_eq_none_iff,
      Option.eq_none_iff_forall_not_mem]
    intro c hc
    have hblank := h c (List.mem_of_head? hc)
    rw [head?_dropWhile c hc] at hblank
    cases hblank
  · intro h c hc
    exact h c ((List.dropWhile_sublist _).mem hc)

theorem IsFramed.not_isGap {cs : List Char} (h : IsFramed cs) : ¬ IsGap cs := by
  intro hgap
  rw [← trim_eq_nil_iff, h.trim_eq_self] at hgap
  exact h.ne_nil hgap

/-- Neither end of a trimmed text is of the class. -/
theorem head?_trim {p : Char → Bool} {cs : List Char} : ∀ c ∈ (trim p cs).head?, p c = false := by
  intro c hc
  obtain ⟨tail, htail⟩ : trim p cs <+: cs.dropWhile p := List.rdropWhile_prefix p _
  have hhead : c ∈ (cs.dropWhile p).head? := by
    rw [← htail]
    exact List.mem_head?_append_of_mem_head? hc
  exact head?_dropWhile c hhead

theorem getLast?_trim {p : Char → Bool} {cs : List Char} :
    ∀ c ∈ (trim p cs).getLast?, p c = false := by
  intro c hc
  rw [trim, List.getLast?_reverse] at hc
  exact head?_dropWhile c hc

/-- A trimmed text starts with the first character that is not of the class. -/
theorem exists_trim_eq_cons {p : Char → Bool} {lead : List Char} {c : Char}
    (hlead : ∀ d ∈ lead, p d = true) (hc : p c = false) (cs : List Char) :
    ∃ core, trim p (lead ++ c :: cs) = c :: core := by
  rw [trim, List.dropWhile_append_of_pos hlead,
    List.dropWhile_cons_of_neg (ne_true_of_eq_false hc), List.reverse_cons, List.dropWhile_append]
  split
  · rw [List.dropWhile_cons_of_neg (ne_true_of_eq_false hc)]
    exact ⟨[], rfl⟩
  · rw [List.reverse_append]
    exact ⟨_, rfl⟩

theorem isFramed_trim {cs : List Char} (h : ¬ IsGap cs) : IsFramed (trim isBlank cs) :=
  ⟨fun hnil => h (trim_eq_nil_iff.1 hnil), head?_trim, getLast?_trim⟩

theorem trim_trim (cs : List Char) : trim isBlank (trim isBlank cs) = trim isBlank cs := by
  by_cases h : IsGap cs
  · rw [trim_eq_nil_iff.2 h, trim_nil]
  · exact (isFramed_trim h).trim_eq_self

theorem trim_isInfix {p : Char → Bool} {cs : List Char} : trim p cs <:+: cs :=
  (List.rdropWhile_prefix p (cs.dropWhile p)).isInfix.trans (List.dropWhile_suffix p).isInfix

/-- Trimming takes a run of the class off each end. -/
theorem exists_ends (p : Char → Bool) (cs : List Char) : ∃ lead tail,
    (∀ c ∈ lead, p c = true) ∧ (∀ c ∈ tail, p c = true) ∧ cs = lead ++ (trim p cs ++ tail) := by
  let core := cs.dropWhile p
  refine ⟨cs.takeWhile p, (core.reverse.takeWhile p).reverse, ?_, ?_, ?_⟩
  · exact List.all_eq_true.1 List.all_takeWhile
  · intro c hc
    exact List.all_eq_true.1 List.all_takeWhile c (List.mem_reverse.1 hc)
  · rw [trim, ← List.reverse_append, List.takeWhile_append_dropWhile, List.reverse_reverse,
      List.takeWhile_append_dropWhile]

theorem exists_gaps (cs : List Char) :
    ∃ lead tail, IsGap lead ∧ IsGap tail ∧ cs = lead ++ (trim isBlank cs ++ tail) :=
  exists_ends isBlank cs

/-! ## Words -/

theorem words_cons_of_isBlank {c : Char} {cs : List Char} (h : isBlank c = true) :
    words (c :: cs) = words cs := by
  rw [words, List.splitOnP_cons_eq_if_modifyHead, if_pos h, List.filter_cons_of_neg (by simp)]
  rfl

theorem words_gap_append {gap : List Char} (h : IsGap gap) (cs : List Char) :
    words (gap ++ cs) = words cs := by
  induction gap with
  | nil => rfl
  | cons c gap ih =>
      rw [List.cons_append, words_cons_of_isBlank (h c List.mem_cons_self)]
      exact ih (fun d hd => h d (List.mem_cons_of_mem _ hd))

/-- A solid text is the first word where a blank or nothing is behind it. -/
theorem words_solid_append {w cs : List Char} (hw : IsSolid w)
    (hcs : ∀ c ∈ cs.head?, isBlank c = true) : words (w ++ cs) = w :: words cs := by
  have hfilter : ∀ ws, (w :: ws).filter (!·.isEmpty) = w :: ws.filter (!·.isEmpty) :=
    fun _ => List.filter_cons_of_pos (by simpa using hw.1)
  cases cs with
  | nil =>
      rw [List.append_nil, words, List.splitOnP_eq_singleton hw.2, hfilter]
      rfl
  | cons c cs =>
      have hc : isBlank c = true := hcs c rfl
      rw [words_cons_of_isBlank hc, words, List.splitOnP_append_cons_of_forall_mem hw.2 c hc,
        hfilter]
      rfl

/-- A text that is not a gap is a gap, the first word and what is behind the word. -/
theorem exists_first_word {cs : List Char} (h : ¬ IsGap cs) :
    ∃ gap w rest, IsGap gap ∧ IsSolid w ∧ (∀ c ∈ rest.head?, isBlank c = true)
      ∧ cs = gap ++ (w ++ rest) := by
  let core := cs.dropWhile isBlank
  have hne : core ≠ [] := fun hnil => h (List.dropWhile_eq_nil_iff.1 hnil)
  obtain ⟨c, tail, hcons⟩ := List.exists_cons_of_ne_nil hne
  have hc : isBlank c = false := head?_dropWhile c (hcons ▸ rfl : c ∈ core.head?)
  refine ⟨cs.takeWhile isBlank, core.takeWhile (!isBlank ·), core.dropWhile (!isBlank ·),
    List.all_eq_true.1 List.all_takeWhile, ⟨?_, fun d hd => ?_⟩, fun d hd => ?_, ?_⟩
  · rw [hcons, List.takeWhile_cons_of_pos (by simp [hc])]
    exact List.cons_ne_nil _ _
  · simpa using List.all_eq_true.1 List.all_takeWhile d hd
  · simpa using head?_dropWhile d hd
  · rw [List.takeWhile_append_dropWhile, List.takeWhile_append_dropWhile]

theorem words_eq_nil_iff {cs : List Char} : words cs = [] ↔ IsGap cs := by
  constructor
  · intro h
    by_contra hgap
    obtain ⟨gap, w, rest, hlead, hw, hrest, rfl⟩ := exists_first_word hgap
    rw [words_gap_append hlead, words_solid_append hw hrest] at h
    cases h
  · intro h
    have hwords := words_gap_append h []
    rwa [List.append_nil, words_nil] at hwords

/-- The first word of a text stands behind a gap, and the other words stand behind it. -/
theorem words_eq_cons_iff {cs w : List Char} {ws : List (List Char)} :
    words cs = w :: ws ↔ ∃ gap rest, IsGap gap ∧ IsSolid w ∧ (∀ c ∈ rest.head?, isBlank c = true)
      ∧ cs = gap ++ (w ++ rest) ∧ words rest = ws := by
  constructor
  · intro h
    have hgap : ¬ IsGap cs := by
      rw [← words_eq_nil_iff, h]
      exact List.cons_ne_nil _ _
    obtain ⟨gap, u, rest, hlead, hu, hrest, rfl⟩ := exists_first_word hgap
    rw [words_gap_append hlead, words_solid_append hu hrest] at h
    obtain ⟨rfl, hws⟩ := List.cons.inj h
    exact ⟨gap, rest, hlead, hu, hrest, rfl, hws⟩
  · rintro ⟨gap, rest, hgap, hw, hrest, rfl, rfl⟩
    rw [words_gap_append hgap, words_solid_append hw hrest]

end Text

namespace Range

open Text

/-! ## Gaps behind sigil characters -/

/-- A class without any sigil character. -/
theorem isSigilChar_eq_false {p : Char → Bool} (hp : ['>', '<', '=', '^', '~'].any p = false)
    {c : Char} (h : p c = true) : isSigilChar c = false := by
  rw [Bool.eq_false_iff]
  intro hsigil
  simp only [isSigilChar, Bool.or_eq_true, beq_iff_eq] at hsigil
  rcases hsigil with (((rfl | rfl) | rfl) | rfl) | rfl <;> simp [h] at hp

theorem isSigilChar_of_isBlank {c : Char} (h : isBlank c = true) : isSigilChar c = false :=
  isSigilChar_eq_false (by decide) h

/-- A gap behind a sigil character disappears. -/
theorem glue_gap_append {gap : List Char} (h : IsGap gap) (cs : List Char) :
    glue true (gap ++ cs) = glue true cs := by
  induction gap with
  | nil => rfl
  | cons c gap ih =>
      rw [List.cons_append, glue, if_pos (by simp [h c List.mem_cons_self])]
      exact ih (fun d hd => h d (List.mem_cons_of_mem _ hd))

/-- Text without blanks stays. What is behind it is read as behind its last character. -/
theorem glue_append {w : List Char} (h : ∀ c ∈ w, isBlank c = false) (b : Bool) (cs : List Char) :
    glue b (w ++ cs) = w ++ glue ((w.getLast?.map isSigilChar).getD b) cs := by
  -- The flag is general, since behind the first character it is that of this character.
  induction w generalizing b with
  | nil => rfl
  | cons c w ih =>
      have hc : isBlank c = false := h c List.mem_cons_self
      have htail := ih (fun d hd => h d (List.mem_cons_of_mem _ hd)) (isSigilChar c)
      rw [List.cons_append, glue, if_neg (by simp [hc]), htail, List.cons_append]
      cases w with
      | nil => rfl
      | cons d w => rw [List.getLast?_cons_cons, List.getLast?_cons]; rfl

/-- A gap that is not behind a sigil character stays. -/
theorem glue_false_gap_append {gap : List Char} (h : IsGap gap) (cs : List Char) :
    glue false (gap ++ cs) = gap ++ glue false cs := by
  induction gap with
  | nil => rfl
  | cons c gap ih =>
      have hc : isSigilChar c = false := isSigilChar_of_isBlank (h c List.mem_cons_self)
      rw [List.cons_append, glue, if_neg (by simp), hc,
        ih (fun d hd => h d (List.mem_cons_of_mem _ hd))]
      rfl

end Range

end Versioning
