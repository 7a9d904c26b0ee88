set_option autoImplicit false

/-! # Texts put together from pieces

Versions and operands are pieces joined by a dot, framed by marks that introduce the pre-release and
the build. `dotted` joins pieces; `List.splitOn` takes them apart again, which core proves. `cut`
finds the first mark and gives the text on either side of it: `cut_append_cons` and `cut_of_notMem`
say which. -/

namespace Versioning.Text

/-- Pieces joined by dots. -/
def dotted (pieces : List (List Char)) : List Char :=
  ['.'].intercalate pieces

/-- A mark followed by dotted pieces, or nothing at all when there is no piece. -/
def marked (mark : Char) : List (List Char) → List Char
  | [] => []
  | piece :: pieces => mark :: dotted (piece :: pieces)

/-- The text before the first `mark` and, if the mark occurs, the text after it. -/
def cut (mark : Char) (cs : List Char) : List Char × Option (List Char) :=
  (cs.takeWhile (· != mark), (cs.dropWhile (· != mark)).tail?)

theorem cut_of_notMem {mark : Char} {cs : List Char} (h : mark ∉ cs) :
    cut mark cs = (cs, none) := by
  induction cs with
  | nil => rfl
  | cons c cs ih =>
      have hc : c ≠ mark := fun e => h (e ▸ List.mem_cons_self)
      have ih := ih (fun hm => h (List.mem_cons_of_mem _ hm))
      simp only [cut, Prod.mk.injEq] at ih
      simp [cut, hc, ih.1, ih.2]

theorem cut_append_cons {mark : Char} {front : List Char} (back : List Char) (h : mark ∉ front) :
    cut mark (front ++ mark :: back) = (front, some back) := by
  induction front with
  | nil => simp [cut]
  | cons c cs ih =>
      have hc : c ≠ mark := fun e => h (e ▸ List.mem_cons_self)
      have ih := ih (fun hm => h (List.mem_cons_of_mem _ hm))
      simp only [cut, Prod.mk.injEq] at ih
      simp [cut, hc, ih.1, ih.2]

end Versioning.Text
