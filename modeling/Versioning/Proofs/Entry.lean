import Versioning.Proofs.Operand
import Versioning.Range.Branch

set_option autoImplicit false

/-! # Written branches

An entry is a sign, which may be empty, with an operand behind it. `Written es cs` says that the
text `cs` writes the entries `es` one after another, with gaps between them and with or without a
gap behind a sign. However a list of entries is laid out, it is read as the same items
(`items_of_written`), and as nothing but a list of items: it is no branch of the form `A - B`, and
it stands for all versions only if no entry has a sign or gives a component. -/

namespace Versioning.Range

open Text

/-! ## Entries -/

/-- The signs that may stand in front of an operand. The empty one stands for none. -/
def signs : List (List Char) :=
  [[], ['>', '='], ['<', '='], ['>'], ['<'], ['='], ['^'], ['~']]

/-- A part of a branch as it is written. -/
structure Entry where
  /-- The sign in front; empty if there is none. -/
  sign : List Char
  text : List Char
  operand : Operand
  sign_mem : sign ∈ signs
  reads : Operand.ofChars? text = some operand

namespace Entry

/-- The text of an entry without a gap. -/
def chars (e : Entry) : List Char := e.sign ++ e.text

/-- The sigil that the sign writes. -/
def sigil (e : Entry) : Option Sigil := (Sigil.split e.sign).1

/-- The item that is read from an entry. -/
def item (e : Entry) : Item := ⟨e.sigil, some e.operand⟩

theorem isSigilChar_of_mem_sign {e : Entry} : ∀ c ∈ e.sign, isSigilChar c = true := by
  have hall : ∀ s ∈ signs, s.all isSigilChar = true := by decide
  exact List.all_eq_true.1 (hall e.sign e.sign_mem)

theorem isOperandChar_of_mem_text {e : Entry} : ∀ c ∈ e.text, isOperandChar c = true :=
  fun _ hc => Operand.isOperandChar_of_mem e.reads hc

theorem text_ne_nil (e : Entry) : e.text ≠ [] := Operand.ne_nil e.reads

theorem sigil_isNone_iff (e : Entry) : e.sigil = none ↔ e.sign = [] := by
  have hall : ∀ s ∈ signs, (Sigil.split s).1 = none ↔ s = [] := by decide
  exact hall e.sign e.sign_mem

theorem split_append {s : List Char} (hs : s ∈ signs) {c : Char} (hc : isSigilChar c = false)
    (cs : List Char) : Sigil.split (s ++ c :: cs) = ((Sigil.split s).1, c :: cs) := by
  simp only [isSigilChar, Bool.or_eq_false_iff, beq_eq_false_iff_ne] at hc
  obtain ⟨⟨⟨⟨hgt, hlt⟩, heq⟩, hcaret⟩, htilde⟩ := hc
  simp only [signs, List.mem_cons, List.not_mem_nil, or_false] at hs
  rcases hs with rfl | rfl | rfl | rfl | rfl | rfl | rfl | rfl <;>
    simp [Sigil.split, hgt, hlt, heq, hcaret, htilde]

theorem ofChars_chars (e : Entry) : Item.ofChars e.chars = e.item := by
  obtain ⟨c, cs, hcons⟩ := List.exists_cons_of_ne_nil e.text_ne_nil
  have hc : isSigilChar c = false := isSigilChar_of_isOperandChar
    (e.isOperandChar_of_mem_text c (hcons ▸ List.mem_cons_self))
  have hsplit := split_append e.sign_mem hc cs
  rw [← hcons] at hsplit
  rw [Item.ofChars, chars, hsplit]
  show Item.mk e.sigil (Operand.ofChars? e.text) = e.item
  rw [e.reads, item]

end Entry

/-! ## Layout -/

/-- The gaps that may stand behind the sign of an entry: none if there is no sign. -/
def Entry.Allows (e : Entry) (gap : List Char) : Prop :=
  IsGap gap ∧ (e.sign = [] → gap = [])

instance (e : Entry) (gap : List Char) : Decidable (e.Allows gap) :=
  inferInstanceAs (Decidable (IsGap gap ∧ (e.sign = [] → gap = [])))

/-- The text of an entry with a gap behind its sign. -/
def Entry.spaced (e : Entry) (gap : List Char) : List Char := e.sign ++ (gap ++ e.text)

/-- A text writes some entries: one after another, with gaps that are not empty between them. -/
inductive Written : List Entry → List Char → Prop
  | single {e : Entry} {gap : List Char} : e.Allows gap → Written [e] (e.spaced gap)
  | cons {e : Entry} {gap sep : List Char} {es : List Entry} {cs : List Char} :
      e.Allows gap → IsGap sep → sep ≠ [] → Written es cs →
      Written (e :: es) (e.spaced gap ++ (sep ++ cs))

/-- An entry alone is written without a gap behind its sign. -/
theorem written_chars (e : Entry) : Written [e] e.chars :=
  @Written.single e [] ⟨isGap_nil, fun _ => rfl⟩

namespace Entry

theorem solid_text (e : Entry) : IsSolid e.text :=
  ⟨e.text_ne_nil, fun c hc => isBlank_of_isOperandChar (e.isOperandChar_of_mem_text c hc)⟩

theorem isBlank_of_mem_sign {e : Entry} : ∀ c ∈ e.sign, isBlank c = false := by
  intro c hc
  cases hblank : isBlank c with
  | false => rfl
  | true => exact absurd (e.isSigilChar_of_mem_sign c hc) (by simp [isSigilChar_of_isBlank hblank])

theorem solid_chars (e : Entry) : IsSolid e.chars := by
  refine ⟨List.append_ne_nil_of_right_ne_nil _ e.text_ne_nil, fun c hc => ?_⟩
  exact (List.mem_append.1 hc).elim (e.isBlank_of_mem_sign c) (e.solid_text.2 c)

/-- A text has a kind of characters up to its end. -/
theorem last_eq {p : Char → Bool} {w : List Char} {v : Bool} (h : ∀ c ∈ w, p c = v) (hne : w ≠ [])
    (b : Bool) : (w.getLast?.map p).getD b = v := by
  rw [List.getLast?_eq_some_getLast hne]
  exact h _ (List.getLast_mem hne)

/-- Gluing removes the gap behind the sign, and what is behind the operand is not glued to it. -/
theorem glue_spaced_append {e : Entry} {gap : List Char} (h : e.Allows gap) (cs : List Char) :
    glue false (e.spaced gap ++ cs) = e.chars ++ glue false cs := by
  have htext : ∀ b, glue b (e.text ++ cs) = e.text ++ glue false cs := by
    intro b
    have hlast := last_eq (v := false)
      (fun c hc => isSigilChar_of_isOperandChar (e.isOperandChar_of_mem_text c hc)) e.text_ne_nil b
    rw [glue_append e.solid_text.2, hlast]
  -- Only a sign ends in a sigil character, so a gap without one in front must be empty.
  by_cases hs : e.sign = []
  · rw [spaced, chars, hs, h.2 hs, List.nil_append, List.nil_append, htext]
  · have hlast := last_eq e.isSigilChar_of_mem_sign hs false
    rw [spaced, chars, List.append_assoc, List.append_assoc, List.append_assoc,
      glue_append e.isBlank_of_mem_sign, hlast, glue_gap_append h.1, htext]

end Entry

theorem head?_gap_append {sep cs : List Char} (hsep : IsGap sep) (hne : sep ≠ []) :
    ∀ c ∈ (sep ++ cs).head?, isBlank c = true := by
  cases sep with
  | nil => exact absurd rfl hne
  | cons d sep =>
      intro c hc
      cases hc
      exact hsep d List.mem_cons_self

theorem words_glue_of_written {es : List Entry} {cs : List Char} (h : Written es cs) :
    words (glue false cs) = es.map Entry.chars := by
  -- An entry ends in a character of its operand, so what is behind it is glued as at the start.
  induction h with
  | @single e gap hgap =>
      have hglue := Entry.glue_spaced_append hgap []
      rw [List.append_nil] at hglue
      rw [hglue, words_solid_append e.solid_chars (by simp [glue])]
      rfl
  | @cons e gap sep es cs hgap hsep hne _ ih =>
      rw [Entry.glue_spaced_append hgap, glue_false_gap_append hsep,
        words_solid_append e.solid_chars (head?_gap_append hsep hne), words_gap_append hsep, ih,
        List.map_cons]

/-- **However entries are laid out, they are read as the same items.** -/
theorem items_of_written {es : List Entry} {cs : List Char} (h : Written es cs) :
    items cs = es.map Entry.item := by
  rw [items, words_glue_of_written h, List.map_map]
  exact List.map_congr_left fun e _ => e.ofChars_chars

/-! ## Words of the text itself

Before items are read, the text is tested for two forms: a list of wildcards and a branch `A - B`.
Both tests take the words of the text as it is, where a sign with a gap behind it is a word. -/

namespace Entry

/-- The words of an entry with a gap behind its sign. -/
def rawWords (e : Entry) (gap : List Char) : List (List Char) :=
  if gap = [] then [e.chars] else [e.sign, e.text]

theorem words_spaced_append {e : Entry} {gap cs : List Char} (h : e.Allows gap)
    (hcs : ∀ c ∈ cs.head?, isBlank c = true) :
    words (e.spaced gap ++ cs) = e.rawWords gap ++ words cs := by
  by_cases hgap : gap = []
  · rw [spaced, rawWords, if_pos hgap, hgap, List.nil_append]
    exact words_solid_append e.solid_chars hcs
  · have hsign : e.sign ≠ [] := fun hs => hgap (h.2 hs)
    have hsolid : IsSolid e.sign := ⟨hsign, e.isBlank_of_mem_sign⟩
    rw [spaced, rawWords, if_neg hgap, List.append_assoc, List.append_assoc,
      words_solid_append hsolid (head?_gap_append h.1 hgap), words_gap_append h.1,
      words_solid_append e.solid_text hcs]
    rfl

theorem words_spaced {e : Entry} {gap : List Char} (h : e.Allows gap) :
    words (e.spaced gap) = e.rawWords gap := by
  have hwords : words (e.spaced gap ++ []) = e.rawWords gap ++ words [] :=
    words_spaced_append h (by simp)
  rwa [List.append_nil, words_nil, List.append_nil] at hwords

/-- A word that starts with a sign is no operand. -/
theorem ofChars?_sign_append {e : Entry} (hs : e.sign ≠ []) (cs : List Char) :
    Operand.ofChars? (e.sign ++ cs) = none := by
  obtain ⟨c, hc⟩ := List.exists_mem_of_ne_nil _ hs
  refine Option.eq_none_iff_forall_ne_some.2 fun p hp => ?_
  have hoperand := Operand.isOperandChar_of_mem hp (List.mem_append_left cs hc)
  have hsigil := e.isSigilChar_of_mem_sign c hc
  rw [isSigilChar_of_isOperandChar hoperand] at hsigil
  cases hsigil

/-- The words of an entry are all wildcards exactly if the entry is a wildcard. -/
theorem all_rawWords {e : Entry} {gap : List Char} (h : e.Allows gap) :
    ((e.rawWords gap).all fun w => (Operand.ofChars? w).any Operand.isAny) = e.item.isWildcard := by
  by_cases hs : e.sign = []
  · have hsigil : e.sigil = none := e.sigil_isNone_iff.2 hs
    rw [rawWords, if_pos (h.2 hs), chars, hs, List.nil_append, List.all_cons, List.all_nil,
      Bool.and_true, e.reads, Item.isWildcard, item, hsigil]
    rfl
  · have hsigil : e.sigil.isNone = false := by
      rw [Bool.eq_false_iff, Ne, Option.isNone_iff_eq_none]
      exact fun hnone => hs (e.sigil_isNone_iff.1 hnone)
    have hleft : e.item.isWildcard = false := by
      rw [Item.isWildcard, item, hsigil, Bool.false_and]
    have hsign := ofChars?_sign_append hs []
    rw [List.append_nil] at hsign
    rw [rawWords, hleft]
    split
    · rw [chars, List.all_cons, ofChars?_sign_append hs]
      rfl
    · rw [List.all_cons, hsign]
      rfl

/-- No word of an entry is a dash. -/
theorem dash_notMem_rawWords (e : Entry) (gap : List Char) : ['-'] ∉ e.rawWords gap := by
  have htext : e.text ≠ ['-'] := by
    intro h
    have hreads := e.reads
    rw [h] at hreads
    cases hreads
  have hsign : ∀ w ∈ signs, ['-'] ≠ w := by decide
  have hchars : ['-'] ≠ e.chars := by
    intro h
    have hmem := e.text_ne_nil
    cases hs : e.sign with
    | nil => exact htext (by rw [h, chars, hs, List.nil_append])
    | cons c cs =>
        have hsigil := e.isSigilChar_of_mem_sign c (hs ▸ List.mem_cons_self)
        rw [chars, hs, List.cons_append] at h
        rw [← (List.cons.inj h).1] at hsigil
        exact absurd hsigil (by decide)
  rw [rawWords]
  split
  · simpa using hchars
  · simpa using ⟨hsign e.sign e.sign_mem, htext.symm⟩

end Entry

/-- **A written branch stands for all versions exactly if all its entries are wildcards.** -/
theorem allWildcards_of_written {es : List Entry} {cs : List Char} (h : Written es cs) :
    Shape.allWildcards cs = es.all (·.item.isWildcard) := by
  rw [Shape.allWildcards]
  induction h with
  | @single e gap hgap =>
      rw [Entry.words_spaced hgap, Entry.all_rawWords hgap, List.all_cons, List.all_nil,
        Bool.and_true]
  | @cons e gap sep es cs hgap hsep hne _ ih =>
      rw [Entry.words_spaced_append hgap (head?_gap_append hsep hne), words_gap_append hsep,
        List.all_append, Entry.all_rawWords hgap, ih, List.all_cons]

/-- A written branch has no dash between its words. -/
theorem dash_notMem_words {es : List Entry} {cs : List Char} (h : Written es cs) :
    ['-'] ∉ words cs := by
  induction h with
  | @single e gap hgap =>
      rw [Entry.words_spaced hgap]
      exact e.dash_notMem_rawWords gap
  | @cons e gap sep es cs hgap hsep hne _ ih =>
      rw [Entry.words_spaced_append hgap (head?_gap_append hsep hne), words_gap_append hsep,
        List.mem_append, not_or]
      exact ⟨e.dash_notMem_rawWords gap, ih⟩

/-! ## Characters of a written branch -/

theorem mem_spaced {e : Entry} {gap : List Char} {c : Char} :
    c ∈ e.spaced gap ↔ c ∈ e.sign ∨ c ∈ gap ∨ c ∈ e.text := by
  rw [Entry.spaced, List.mem_append, List.mem_append]

theorem text_mem_of_written {es : List Entry} {cs : List Char} (h : Written es cs) {e : Entry}
    (he : e ∈ es) {c : Char} (hc : c ∈ e.text) : c ∈ cs := by
  induction h with
  | single _ =>
      rw [List.mem_singleton] at he
      exact mem_spaced.2 (Or.inr (Or.inr (he ▸ hc)))
  | cons _ _ _ _ ih =>
      rw [List.mem_append, List.mem_append]
      rcases List.mem_cons.1 he with rfl | he
      · exact Or.inl (mem_spaced.2 (Or.inr (Or.inr hc)))
      · exact Or.inr (Or.inr (ih he))

theorem bar_notMem_spaced {e : Entry} {gap : List Char} (h : e.Allows gap) :
    '|' ∉ e.spaced gap := by
  rw [mem_spaced, not_or, not_or]
  refine ⟨fun hbar => ?_, bar_notMem_gap h.1, fun hbar => ?_⟩
  · have hsigil := e.isSigilChar_of_mem_sign '|' hbar
    exact absurd hsigil (by decide)
  · exact ne_bar_of_isOperandChar (e.isOperandChar_of_mem_text '|' hbar) rfl

theorem bar_notMem_of_written {es : List Entry} {cs : List Char} (h : Written es cs) :
    '|' ∉ cs := by
  induction h with
  | single hgap => exact bar_notMem_spaced hgap
  | cons hgap hsep _ _ ih =>
      rw [List.mem_append, List.mem_append, not_or, not_or]
      exact ⟨bar_notMem_spaced hgap, bar_notMem_gap hsep, ih⟩

theorem isFramed_spaced {e : Entry} {gap : List Char} (h : e.Allows gap) :
    IsFramed (e.spaced gap) := by
  by_cases hs : e.sign = []
  · rw [Entry.spaced, hs, h.2 hs]
    exact e.solid_text.isFramed
  · have hsolid : IsSolid e.sign := ⟨hs, e.isBlank_of_mem_sign⟩
    exact hsolid.isFramed.append e.solid_text.isFramed gap

/-- There is no blank at either end of a written branch. -/
theorem isFramed_of_written {es : List Entry} {cs : List Char} (h : Written es cs) :
    IsFramed cs := by
  induction h with
  | single hgap => exact isFramed_spaced hgap
  | cons hgap _ _ _ ih => exact (isFramed_spaced hgap).append ih _

end Versioning.Range
