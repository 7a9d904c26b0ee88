import Mathlib.Data.List.Basic

set_option autoImplicit false

/-! # Patterns and the match that is preferred

A pattern matches the front of a text in several ways. They are listed here in the order in which a
search with backtracking tries them: a repetition prefers more characters to fewer, and an optional
part prefers to be there (`Pattern.ways`). The way that counts is the first one, at the first place
of the text where there is one (`Pattern.first`, `Pattern.search`).

The laws below give the first way of a pattern from the first ways of its parts. A sequence may have
to go back to another way of its first part. It has not if its second part matches every text, as an
optional part does, or if its first part is a single character, which leaves no choice. -/

namespace Versioning.Text

/-! ## Patterns -/

/-- A pattern for the front of a text. -/
inductive Pattern
  /-- One character of a class. -/
  | one (p : Char → Bool)
  /-- Characters of a class, at least one and as many as possible. -/
  | many (p : Char → Bool)
  /-- A pattern, and another one behind it. -/
  | seq (a b : Pattern)
  /-- A pattern, or else nothing. -/
  | optional (a : Pattern)
  /-- A pattern whose text is kept. -/
  | group (a : Pattern)

/-- A way in which a pattern matches the front of a text. -/
structure Match where
  taken : List Char
  /-- The text of each group, in the order in which they are opened; none for a group that was left
      out. -/
  groups : List (Option (List Char))
  rest : List Char

/-- One match behind another. -/
def Match.append (m n : Match) : Match := ⟨m.taken ++ n.taken, m.groups ++ n.groups, n.rest⟩

/-- The runs of a class at the front of a text, the longest first, each with the text behind. -/
def runs (p : Char → Bool) : List Char → List (List Char × List Char)
  | [] => []
  | c :: cs => if p c then (runs p cs).map (fun r => (c :: r.1, r.2)) ++ [([c], cs)] else []

namespace Pattern

/-- How many groups a pattern has. -/
def groupCount : Pattern → ℕ
  | one _ | many _ => 0
  | seq a b => a.groupCount + b.groupCount
  | optional a => a.groupCount
  | group a => a.groupCount + 1

/-- The ways to match the front of a text, those first that are tried first. -/
def ways : Pattern → List Char → List Match
  | one _, [] => []
  | one p, c :: cs => if p c then [⟨[c], [], cs⟩] else []
  | many p, cs => (runs p cs).map fun r => ⟨r.1, [], r.2⟩
  | seq a b, cs => (a.ways cs).flatMap fun m => (b.ways m.rest).map m.append
  | optional a, cs => a.ways cs ++ [⟨[], List.replicate a.groupCount none, cs⟩]
  | group a, cs => (a.ways cs).map fun m => { m with groups := some m.taken :: m.groups }

theorem ways_many (p : Char → Bool) (cs : List Char) :
    (many p).ways cs = (runs p cs).map fun r => ⟨r.1, [], r.2⟩ := rfl

theorem ways_group (a : Pattern) (cs : List Char) :
    (group a).ways cs = (a.ways cs).map fun m => { m with groups := some m.taken :: m.groups } :=
  rfl

theorem ways_optional (a : Pattern) (cs : List Char) :
    (optional a).ways cs = a.ways cs ++ [⟨[], List.replicate a.groupCount none, cs⟩] := rfl

theorem ways_seq (a b : Pattern) (cs : List Char) :
    (seq a b).ways cs = (a.ways cs).flatMap fun m => (b.ways m.rest).map m.append := rfl

theorem ways_one (p : Char → Bool) (c : Char) (cs : List Char) :
    (one p).ways (c :: cs) = if p c then [⟨[c], [], cs⟩] else [] := rfl

/-- The match at the front of a text. -/
def first (a : Pattern) (cs : List Char) : Option Match := (a.ways cs).head?

/-- The match at the first place of a text where there is one. -/
def search (a : Pattern) : List Char → Option Match
  | [] => a.first []
  | c :: cs => (a.first (c :: cs)).or (a.search cs)

/-! ## First ways -/

variable {a b : Pattern} {p : Char → Bool} {cs : List Char} {m n : Match}

theorem first_eq_none_iff : a.first cs = none ↔ a.ways cs = [] := List.head?_eq_none_iff

/-- The longest run of a class is tried first. -/
theorem head?_runs (p : Char → Bool) (cs : List Char) : (runs p cs).head?
    = if cs.takeWhile p = [] then none else some (cs.takeWhile p, cs.dropWhile p) := by
  induction cs with
  | nil => rfl
  | cons c cs ih =>
      rw [runs]
      cases hc : p c with
      | false => simp [hc]
      | true =>
          rw [if_pos rfl, List.head?_append, List.head?_map, ih]
          by_cases hnil : cs.takeWhile p = []
          · -- Nothing of the class is behind `c`, so the text behind it is left.
            have hself : cs.dropWhile p = cs := by
              have happend := List.takeWhile_append_dropWhile (p := p) (l := cs)
              rwa [hnil, List.nil_append] at happend
            simp [hc, hnil, hself]
          · simp [hc, hnil]

theorem first_many (h : cs.takeWhile p ≠ []) :
    (many p).first cs = some ⟨cs.takeWhile p, [], cs.dropWhile p⟩ := by
  rw [first, ways_many, List.head?_map, head?_runs, if_neg h]
  rfl

theorem first_many_eq_none (h : cs.takeWhile p = []) : (many p).first cs = none := by
  rw [first, ways_many, List.head?_map, head?_runs, if_pos h]
  rfl

theorem first_group (a : Pattern) (cs : List Char) : (group a).first cs
    = (a.first cs).map fun m => { m with groups := some m.taken :: m.groups } := by
  rw [first, ways_group, List.head?_map]
  rfl

theorem first_optional (h : a.first cs = some m) : (optional a).first cs = some m := by
  rw [first] at h
  rw [first, ways_optional, List.head?_append, h]
  rfl

theorem first_optional_eq (h : a.first cs = none) :
    (optional a).first cs = some ⟨[], List.replicate a.groupCount none, cs⟩ := by
  rw [first, ways_optional, first_eq_none_iff.1 h]
  rfl

/-- The first way of a sequence, if its second part matches behind the first way of the first. -/
theorem first_seq (ha : a.first cs = some m) (hb : b.first m.rest = some n) :
    (seq a b).first cs = some (m.append n) := by
  obtain ⟨others, ha⟩ := List.head?_eq_some_iff.1 ha
  rw [first] at hb
  rw [first, ways_seq, ha, List.flatMap_cons, List.head?_append, List.head?_map, hb]
  rfl

theorem first_seq_eq_none (h : a.first cs = none) : (seq a b).first cs = none := by
  rw [first, ways_seq, first_eq_none_iff.1 h]
  rfl

/-- Where a single character does not match, or nothing behind it does, there is no other way. -/
theorem first_one_seq_eq_none
    (h : ∀ c back, cs = c :: back → p c = true → b.first back = none) :
    (seq (one p) b).first cs = none := by
  rw [first_eq_none_iff, ways_seq]
  cases cs with
  | nil => rfl
  | cons c back =>
      rw [ways_one]
      split
      · next hc => simp [first_eq_none_iff.1 (h c back rfl hc)]
      · rfl

theorem first_one {c : Char} (hc : p c = true) (back : List Char) :
    (one p).first (c :: back) = some ⟨[c], [], back⟩ := by
  rw [first, ways_one, if_pos hc]
  rfl

/-! ## Searches -/

/-- A search passes over the places where there is no match. -/
theorem search_append {before : List Char}
    (h : ∀ c ∈ before, ∀ back, a.first (c :: back) = none) (cs : List Char) :
    a.search (before ++ cs) = a.search cs := by
  induction before with
  | nil => rfl
  | cons c before ih =>
      rw [List.cons_append, search, h c List.mem_cons_self, Option.none_or]
      exact ih fun d hd => h d (List.mem_cons_of_mem _ hd)

theorem search_of_first (h : a.first cs = some m) : a.search cs = some m := by
  cases cs with
  | nil => exact h
  | cons c cs => rw [search, h, Option.some_or]

end Pattern

end Versioning.Text
