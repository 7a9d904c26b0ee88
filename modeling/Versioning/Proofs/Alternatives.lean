import Versioning.Proofs.Layout
import Versioning.Range.Basic

set_option autoImplicit false

/-! # Texts of several branches

A range is written as branches with bars between them. Two texts that are joined by bars are read as
the branches of the first and then those of the second, whatever bars and gaps they have themselves
(`branchesOf_append`). Framed texts without bars are therefore found again as the branches of what
they are joined to, whatever gaps stand at both ends of the whole (`parse_joined`). -/

namespace Versioning.Range

open Text

/-! ## Alternatives -/

theorem alternatives_cons {c : Char} (h : c ≠ '|') (cs : List Char) :
    alternatives (c :: cs) = pushFront c (alternatives cs) := by
  rw [alternatives]
  intro ds hc
  exact absurd hc h

/-- A text without the mark is the only alternative. -/
theorem alternatives_of_not_isInfix {cs : List Char} (h : ¬ ['|', '|'] <:+: cs) :
    alternatives cs = [cs] := by
  fun_induction alternatives cs with
  | case1 => rfl
  | case2 cs _ => exact absurd (List.prefix_append ['|', '|'] cs).isInfix h
  | case3 c cs _ ih =>
      rw [ih fun hmark => h (hmark.trans (List.suffix_cons c cs).isInfix)]
      rfl

theorem alternatives_of_notMem {cs : List Char} (h : '|' ∉ cs) : alternatives cs = [cs] :=
  alternatives_of_not_isInfix fun hmark => h (hmark.subset List.mem_cons_self)

theorem alternatives_ne_nil (cs : List Char) : alternatives cs ≠ [] := by
  fun_induction alternatives cs with
  | case1 => exact List.cons_ne_nil _ _
  | case2 cs _ => exact List.cons_ne_nil _ _
  | case3 c cs _ ih =>
      cases hcs : alternatives cs with
      | nil => exact absurd hcs ih
      | cons piece pieces => exact List.cons_ne_nil _ _

theorem pushFront_append (c : Char) {ps : List (List Char)} (h : ps ≠ [])
    (qs : List (List Char)) : pushFront c (ps ++ qs) = pushFront c ps ++ qs := by
  cases ps with
  | nil => exact absurd rfl h
  | cons p ps => rfl

/-- A character that begins no mark does not begin one either when text is added behind, unless it
    is a bar that the added text completes. -/
theorem alternatives_cons_append {c : Char} {cs ds : List Char}
    (hmark : ∀ es, c = '|' → cs = '|' :: es → False)
    (hseam : cs = [] → c = '|' → '|' ∉ ds.head?) :
    alternatives (c :: (cs ++ ds)) = pushFront c (alternatives (cs ++ ds)) := by
  rw [alternatives]
  intro es hc hes
  cases cs with
  | nil => exact hseam rfl hc (List.head?_eq_some_iff.2 ⟨es, hes⟩)
  | cons d cs =>
      cases hes
      exact hmark cs hc rfl

/-- **A mark divides a text whose last character is no bar from what is behind it.** A bar would
    make the mark be found one place further left. -/
theorem alternatives_append_mark {cs : List Char} (h : '|' ∉ cs.getLast?) (ds : List Char) :
    alternatives (cs ++ '|' :: '|' :: ds) = alternatives cs ++ alternatives ds := by
  fun_induction alternatives cs with
  | case1 => rfl
  | case2 cs ih =>
      have hlast : '|' ∉ cs.getLast? :=
        fun hmem => h (List.mem_getLast?_cons (List.mem_getLast?_cons hmem))
      rw [List.cons_append, List.cons_append, alternatives, ih hlast, List.cons_append]
  | case3 c cs hmark ih =>
      have hlast : '|' ∉ cs.getLast? := fun hmem => h (List.mem_getLast?_cons hmem)
      have hseam : cs = [] → c = '|' → '|' ∉ ('|' :: '|' :: ds).head? := by
        rintro rfl rfl
        exact absurd rfl h
      rw [List.cons_append, alternatives_cons_append hmark hseam, ih hlast,
        pushFront_append c (alternatives_ne_nil cs)]

/-- Text without bars is added to the last alternative. -/
theorem alternatives_append_of_notMem {tail : List Char} (h : '|' ∉ tail) (cs : List Char) :
    ∃ init last, alternatives cs = init ++ [last]
      ∧ alternatives (cs ++ tail) = init ++ [last ++ tail] := by
  fun_induction alternatives cs with
  | case1 => exact ⟨[], [], rfl, alternatives_of_notMem h⟩
  | case2 cs ih =>
      obtain ⟨init, last, hcs, htail⟩ := ih
      refine ⟨[] :: init, last, congrArg _ hcs, ?_⟩
      rw [List.cons_append, List.cons_append, alternatives, htail, List.cons_append]
  | case3 c cs hmark ih =>
      obtain ⟨init, last, hcs, htail⟩ := ih
      have hpush : alternatives (c :: (cs ++ tail)) = pushFront c (alternatives (cs ++ tail)) :=
        alternatives_cons_append hmark fun _ _ hmem => h (List.mem_of_head? hmem)
      rw [List.cons_append, hpush, hcs, htail]
      cases init with
      | nil => exact ⟨[], c :: last, rfl, rfl⟩
      | cons piece init => exact ⟨(c :: piece) :: init, last, rfl, rfl⟩

/-! ## Gaps around alternatives -/

theorem map_trim_gap_append {gap : List Char} (h : IsGap gap) (cs : List Char) :
    (alternatives (gap ++ cs)).map (trim isBlank) = (alternatives cs).map (trim isBlank) := by
  induction gap with
  | nil => rfl
  | cons c gap ih =>
      have hc : isBlank c = true := h c List.mem_cons_self
      have hbar : c ≠ '|' := by
        rintro rfl
        exact bar_notMem_gap h List.mem_cons_self
      rw [List.cons_append, alternatives_cons hbar,
        ← ih fun d hd => h d (List.mem_cons_of_mem _ hd)]
      cases hpieces : alternatives (gap ++ cs) with
      | nil => exact absurd hpieces (alternatives_ne_nil _)
      | cons piece pieces =>
          have hgap : IsGap [c] := List.forall_mem_singleton.2 hc
          have htrim : trim isBlank (c :: piece) = trim isBlank piece := trim_append_left hgap piece
          rw [pushFront, List.map_cons, List.map_cons, htrim]

theorem map_trim_append_gap {gap : List Char} (h : IsGap gap) (cs : List Char) :
    (alternatives (cs ++ gap)).map (trim isBlank) = (alternatives cs).map (trim isBlank) := by
  obtain ⟨init, last, hcs, hgap⟩ := alternatives_append_of_notMem (bar_notMem_gap h) cs
  rw [hcs, hgap, List.map_append, List.map_append, List.map_singleton, List.map_singleton,
    trim_append_right h]

/-- What stands between two branches. -/
def bars : List Char := [' ', '|', '|', ' ']

/-- Bars with gaps around them divide the alternatives of what they join. -/
theorem map_trim_bars {tail lead : List Char} (htail : IsGap tail) (hlead : IsGap lead)
    (cs ds : List Char) :
    (alternatives (cs ++ (tail ++ (bars ++ (lead ++ ds))))).map (trim isBlank)
      = (alternatives cs).map (trim isBlank) ++ (alternatives ds).map (trim isBlank) := by
  have hblank : IsGap [' '] := by decide
  have hseam : '|' ∉ (cs ++ (tail ++ [' '])).getLast? := by
    rw [← List.append_assoc, List.getLast?_concat]
    decide
  have hsplit : cs ++ (tail ++ (bars ++ (lead ++ ds)))
      = (cs ++ (tail ++ [' '])) ++ '|' :: '|' :: (([' '] ++ lead) ++ ds) := by
    simp [bars]
  rw [hsplit, alternatives_append_mark hseam, List.map_append,
    map_trim_append_gap (htail.append hblank), map_trim_gap_append (hblank.append hlead)]

/-! ## Branches of a text -/

/-- The branch that a text without bars is read as. -/
def branchOf (cs : List Char) : Branch :=
  ⟨Shape.ofReading (Shape.read cs), some (String.ofList cs)⟩

/-- The branches of a text, blanks around them left out. -/
def branchesOf (cs : List Char) : List Branch :=
  ((alternatives (trim isBlank cs)).map (trim isBlank)).map branchOf

theorem branchesOf_ne_nil (cs : List Char) : branchesOf cs ≠ [] := by
  simpa [branchesOf] using alternatives_ne_nil (trim isBlank cs)

/-- **Blank texts are no ranges, and any other text is the range of its branches.** -/
theorem parse_eq (text : String) :
    parse text = if IsGap text.toList then .error .empty
      else .ok ⟨branchesOf text.toList, text⟩ := by
  have hempty : (trim isBlank text.toList).isEmpty = true ↔ IsGap text.toList := by
    rw [List.isEmpty_iff, trim_eq_nil_iff]
  rw [parse, readings]
  by_cases hgap : IsGap text.toList
  · rw [if_pos hgap, if_pos (hempty.2 hgap)]
    rfl
  · rw [if_neg hgap, if_neg (hempty.not.2 hgap)]
    refine congrArg (fun branches => Except.ok (Range.mk branches text)) ?_
    rw [branchesOf, List.map_map, List.map_map]
    rfl

theorem parse_eq_ok_iff {text : String} {r : Range} :
    parse text = .ok r ↔ ¬ IsGap text.toList ∧ r = ⟨branchesOf text.toList, text⟩ := by
  rw [parse_eq]
  split
  · next hgap => simp [hgap]
  · next hgap => simp [hgap, eq_comm]

theorem parse_eq_error_iff {text : String} {f : Fault} :
    parse text = .error f ↔ IsGap text.toList ∧ f = .empty := by
  rw [parse_eq]
  split
  · next hgap => simp [hgap]
  · next hgap => simp [hgap]

/-- **The branches of texts that are joined by bars are those of the one and then those of the
    other.** -/
theorem branchesOf_append {cs ds : List Char} (hc : ¬ IsGap cs) (hd : ¬ IsGap ds) :
    branchesOf (cs ++ (bars ++ ds)) = branchesOf cs ++ branchesOf ds := by
  obtain ⟨clead, ctail, hclead, hctail, hcs⟩ := exists_gaps cs
  obtain ⟨dlead, dtail, hdlead, hdtail, hds⟩ := exists_gaps ds
  generalize hccore : trim isBlank cs = ccore at hcs
  generalize hdcore : trim isBlank ds = dcore at hds
  have hframed : IsFramed (ccore ++ ((ctail ++ (bars ++ dlead)) ++ dcore)) := by
    rw [← hccore, ← hdcore]
    exact (isFramed_trim hc).append (isFramed_trim hd) _
  -- The whole is trimmed to what stands between the two ends that are framed.
  have hcore : trim isBlank (cs ++ (bars ++ ds))
      = ccore ++ (ctail ++ (bars ++ (dlead ++ dcore))) := by
    have htext : cs ++ (bars ++ ds)
        = clead ++ ((ccore ++ ((ctail ++ (bars ++ dlead)) ++ dcore)) ++ dtail) := by
      rw [hcs, hds]
      simp only [List.append_assoc]
    rw [htext, trim_append_left hclead, trim_append_right hdtail, hframed.trim_eq_self]
    simp only [List.append_assoc]
  rw [branchesOf, hcore, map_trim_bars hctail hdlead, List.map_append, branchesOf, branchesOf,
    hccore, hdcore]

/-- A text without the mark is one branch. -/
theorem branchesOf_of_not_isInfix {cs : List Char} (h : ¬ ['|', '|'] <:+: cs) :
    branchesOf cs = [branchOf (trim isBlank cs)] := by
  rw [branchesOf, alternatives_of_not_isInfix fun hmark => h (hmark.trans trim_isInfix),
    List.map_singleton, List.map_singleton, trim_trim]

/-- A framed text without bars is a branch of its own. -/
theorem branchesOf_of_isFramed {cs : List Char} (h : IsFramed cs) (hbar : '|' ∉ cs) :
    branchesOf cs = [branchOf cs] := by
  rw [branchesOf_of_not_isInfix fun hmark => hbar (hmark.subset List.mem_cons_self),
    h.trim_eq_self]

theorem branchesOf_intercalate {texts : List (List Char)} (hne : texts ≠ [])
    (h : ∀ cs ∈ texts, IsFramed cs ∧ '|' ∉ cs) :
    branchesOf (bars.intercalate texts) = texts.map branchOf := by
  induction texts with
  | nil => exact absurd rfl hne
  | cons cs texts ih =>
      rw [List.forall_mem_cons] at h
      cases texts with
      | nil =>
          rw [List.intercalate_singleton, branchesOf_of_isFramed h.1.1 h.1.2]
          rfl
      | cons ds texts =>
          have hrest : IsFramed (bars.intercalate (ds :: texts)) :=
            isFramed_intercalate (List.cons_ne_nil _ _) fun es hes => (h.2 es hes).1
          rw [List.intercalate_cons_cons, List.append_assoc,
            branchesOf_append h.1.1.not_isGap hrest.not_isGap, branchesOf_of_isFramed h.1.1 h.1.2,
            ih (List.cons_ne_nil _ _) h.2]
          rfl

/-- **Texts that are joined by bars are read as the branches of a range.** -/
theorem parse_joined {texts : List (List Char)} (hne : texts ≠ [])
    (h : ∀ cs ∈ texts, IsFramed cs ∧ '|' ∉ cs) {text : String} {lead tail : List Char}
    (hlead : IsGap lead) (htail : IsGap tail)
    (htext : text.toList = lead ++ (bars.intercalate texts ++ tail)) :
    parse text = .ok ⟨texts.map branchOf, text⟩ := by
  have hframed : IsFramed (bars.intercalate texts) :=
    isFramed_intercalate hne fun cs hcs => (h cs hcs).1
  have hcore : trim isBlank text.toList = trim isBlank (bars.intercalate texts) := by
    rw [htext, trim_append_left hlead, trim_append_right htail]
  have hgap : ¬ IsGap text.toList := by
    rw [← trim_eq_nil_iff, hcore, trim_eq_nil_iff]
    exact hframed.not_isGap
  rw [parse_eq_ok_iff.2 ⟨hgap, rfl⟩, branchesOf, hcore, ← branchesOf,
    branchesOf_intercalate hne h]

end Versioning.Range
