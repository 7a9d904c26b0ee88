import Mathlib.Data.List.Induction
import Versioning.Proofs.Precedence

set_option autoImplicit false

/-! # Precedence is a total order

As the order of ranks is total and versions compare as their ranks, so is precedence. Two versions
are equal in precedence exactly if they have the same `key`, the texts that hashing looks at: a
number and a pre-release have one spelling each, so equal ranks come from equal texts. Where a list
has several highest versions, they are therefore told apart by their builds alone. -/

namespace Versioning

namespace Version

/-! ## Order and rank -/

theorem lt_iff_rank_lt {a b : Version} : a < b ↔ a.rank < b.rank :=
  (compares_rank a b).eq_lt

theorem le_iff_rank_le {a b : Version} : a ≤ b ↔ a.rank ≤ b.rank := by
  rw [← (compares_rank a b).ne_gt]
  exact Ordering.isLE_iff_ne_gt

theorem equivalent_iff_rank_eq {a b : Version} : a.Equivalent b ↔ a.rank = b.rank :=
  (compares_rank a b).eq_eq

instance : Preorder Version where
  le_refl _ := le_iff_rank_le.2 le_rfl
  le_trans _ _ _ hab hbc := le_iff_rank_le.2 ((le_iff_rank_le.1 hab).trans (le_iff_rank_le.1 hbc))
  lt_iff_le_not_ge a b := by
    rw [lt_iff_rank_lt, le_iff_rank_le, le_iff_rank_le]
    exact lt_iff_le_not_ge

theorem le_or_le (a b : Version) : a ≤ b ∨ b ≤ a := by
  rw [le_iff_rank_le, le_iff_rank_le]
  exact le_total a.rank b.rank

theorem not_lt_iff_le {a b : Version} : ¬ a < b ↔ b ≤ a := by
  rw [lt_iff_rank_lt, le_iff_rank_le]
  exact not_lt

theorem not_le_iff_lt {a b : Version} : ¬ a ≤ b ↔ b < a := by
  rw [lt_iff_rank_lt, le_iff_rank_le]
  exact not_le

theorem equivalent_iff_le_and_le {a b : Version} : a.Equivalent b ↔ a ≤ b ∧ b ≤ a := by
  rw [equivalent_iff_rank_eq, le_iff_rank_le, le_iff_rank_le]
  exact le_antisymm_iff

theorem compare_swap (a b : Version) : compare b a = (compare a b).swap :=
  (compares_rank b a).inj (compares_rank a b).swap

/-! ## Ranks and texts -/

/-- Words have their characters back from their bytes. -/
theorem utf8_inj {v w : Word} (h : utf8 v.chars = utf8 w.chars) : v = w := by
  rw [utf8_eq_map_toNat v.isWord.2, utf8_eq_map_toNat w.isWord.2] at h
  exact Word.ext (List.map_injective_iff.2 (fun _ _ => Char.toNat_inj.1) h)

theorem pieceRank_inj {i j : Identifier} (h : pieceRank i.chars = pieceRank j.chars) : i = j := by
  cases i with
  | numeric m =>
      simp only [Identifier.chars, pieceRank_digits] at h
      cases j with
      | numeric n =>
          simp only [pieceRank_digits] at h
          rw [Numeral.value_inj.1 (Sum.inl.inj (toLex.injective h))]
      | alphanumeric w hw =>
          simp only [pieceRank_word hw] at h
          cases toLex.injective h
  | alphanumeric v hv =>
      simp only [Identifier.chars, pieceRank_word hv] at h
      cases j with
      | numeric n =>
          simp only [pieceRank_digits] at h
          cases toLex.injective h
      | alphanumeric w hw =>
          simp only [pieceRank_word hw] at h
          cases utf8_inj (Sum.inr.inj (toLex.injective h))
          rfl

theorem preRelease_eq_of_rank_eq {a b : Version}
    (h : preReleaseRank a.preReleaseText? = preReleaseRank b.preReleaseText?) :
    a.preRelease = b.preRelease := by
  by_cases ha : a.preRelease = []
  · by_cases hb : b.preRelease = []
    · rw [ha, hb]
    · rw [preReleaseRank_of_eq_nil ha, preReleaseRank_of_ne_nil hb] at h
      exact absurd h (WithTop.top_ne_coe)
  · by_cases hb : b.preRelease = []
    · rw [preReleaseRank_of_ne_nil ha, preReleaseRank_of_eq_nil hb] at h
      exact absurd h WithTop.coe_ne_top
    · rw [preReleaseRank_of_ne_nil ha, preReleaseRank_of_ne_nil hb] at h
      exact List.map_injective_iff.2 (fun _ _ => pieceRank_inj) (WithTop.coe_injective h)

theorem numeral_eq_of_toString_eq {m n : Numeral} (h : toString m = toString n) : m = n :=
  Numeral.ext (String.ofList_injective h)

/-- The rank of a version and all its parts but the build determine each other. -/
theorem rank_eq_iff {a b : Version} :
    a.rank = b.rank ↔ a.major = b.major ∧ a.minor = b.minor ∧ a.patch = b.patch
      ∧ a.preRelease = b.preRelease := by
  simp only [rank, EmbeddingLike.apply_eq_iff_eq, Prod.mk.injEq, Numeral.value_inj]
  refine and_congr_right fun _ => and_congr_right fun _ => and_congr_right fun _ => ?_
  refine ⟨preRelease_eq_of_rank_eq, fun h => ?_⟩
  rw [preReleaseText?, preReleaseText?, h]

/-- The rank of a version and the texts that count in it determine each other. -/
theorem rank_eq_iff_key_eq {a b : Version} : a.rank = b.rank ↔ a.key = b.key := by
  constructor
  · intro h
    obtain ⟨hmajor, hminor, hpatch, hpre⟩ := rank_eq_iff.1 h
    rw [key, key, hmajor, hminor, hpatch, preReleaseText?, preReleaseText?, hpre]
  · intro h
    simp only [key, Prod.mk.injEq] at h
    obtain ⟨hmajor, hminor, hpatch, hpre⟩ := h
    rw [rank, rank, numeral_eq_of_toString_eq hmajor, numeral_eq_of_toString_eq hminor,
      numeral_eq_of_toString_eq hpatch, hpre]

theorem release_eq_of_equivalent {a b : Version} (h : a.Equivalent b) : a.release = b.release := by
  obtain ⟨hmajor, hminor, hpatch, -⟩ := rank_eq_iff.1 (equivalent_iff_rank_eq.1 h)
  rw [release, release, hmajor, hminor, hpatch]

theorem isPreRelease_eq_of_equivalent {a b : Version} (h : a.Equivalent b) :
    a.isPreRelease = b.isPreRelease := by
  obtain ⟨-, -, -, hpre⟩ := rank_eq_iff.1 (equivalent_iff_rank_eq.1 h)
  rw [isPreRelease, isPreRelease, hpre]

theorem equivalent_iff_key_eq {a b : Version} : a.Equivalent b ↔ a.key = b.key := by
  rw [equivalent_iff_rank_eq, rank_eq_iff_key_eq]

/-! ## Collections without repetition -/

/-- A version is new to a collection exactly if its key is. -/
theorem insertNew_eq_self_iff {v : Version} {vs : List Version} :
    insertNew v vs = vs ↔ ∃ w ∈ vs, w.key = v.key := by
  unfold insertNew
  split
  · next h =>
      simp only [List.any_eq_true, decide_eq_true_eq, equivalent_iff_key_eq] at h
      exact ⟨fun _ => h, fun _ => rfl⟩
  · next h =>
      simp only [List.any_eq_true, decide_eq_true_eq, equivalent_iff_key_eq] at h
      exact ⟨fun he => absurd he (by simp), fun hw => absurd hw h⟩

/-! ## Extremes of a list

`champion?` is a fold that keeps the version preferred so far. What it has passed stands in front of
the version that it keeps or behind it, and that is all that matters for whom to prefer next. -/

section Champion

variable {better : Version → Version → Bool}

theorem champion?_cons (v : Version) (vs : List Version) :
    champion? better (v :: vs) = some (vs.foldl (fun b w => if better w b then w else b) v) := by
  show vs.foldl _ (some v) = _
  induction vs generalizing v with
  | nil => rfl
  | cons w vs ih =>
      rw [List.foldl_cons, List.foldl_cons, ← ih]
      by_cases hw : better w v = true <;> simp only [hw, if_true, if_false, Bool.false_eq_true]

theorem champion?_eq_none_iff {vs : List Version} : champion? better vs = none ↔ vs = [] := by
  cases vs with
  | nil => exact ⟨fun _ => rfl, fun _ => rfl⟩
  | cons v vs => simp [champion?_cons]

theorem champion?_concat (vs : List Version) (v : Version) :
    champion? better (vs ++ [v])
      = some ((champion? better vs).elim v fun b => if better v b then v else b) := by
  rw [champion?, List.foldl_append]
  show List.foldl _ (champion? better vs) [v] = _
  cases champion? better vs with
  | none => rfl
  | some b => cases h : better v b <;> simp [h]

/-- **Where a list has its champion**: what is in front of it is related to it by `P`, and what is
    behind it by `Q`, if this holds of whoever is preferred. -/
theorem exists_eq_append_of_champion? {P Q : Version → Version → Prop}
    (hbetter : ∀ v b, better v b = true → P b v ∧ ∀ u, P u b ∨ Q b u → P u v)
    (hstay : ∀ v b, better v b = false → Q b v) {vs : List Version} {m : Version}
    (h : champion? better vs = some m) :
    ∃ front back, vs = front ++ m :: back ∧ (∀ u ∈ front, P u m) ∧ ∀ u ∈ back, Q m u := by
  -- The fold sees the list from the front, so its last step is the one for the last element.
  induction vs using List.reverseRecOn generalizing m with
  | nil => cases h
  | append_singleton vs v ih =>
      rw [champion?_concat, Option.some.injEq] at h
      subst h
      cases hb : champion? better vs with
      | none => exact ⟨[], [], by simp [champion?_eq_none_iff.1 hb], nofun, nofun⟩
      | some b =>
          obtain ⟨front, back, rfl, hfront, hback⟩ := ih hb
          rw [Option.elim_some]
          cases hv : better v b with
          | true =>
              obtain ⟨hbv, hpassed⟩ := hbetter v b hv
              refine ⟨front ++ b :: back, [], rfl, fun u hu => ?_, nofun⟩
              rcases List.mem_append.1 hu with hu | hu
              · exact hpassed u (Or.inl (hfront u hu))
              · rcases List.mem_cons.1 hu with rfl | hu
                · exact hbv
                · exact hpassed u (Or.inr (hback u hu))
          | false =>
              refine ⟨front, back ++ [v], by simp, hfront, fun u hu => ?_⟩
              rcases List.mem_append.1 hu with hu | hu
              · exact hback u hu
              · rw [List.mem_singleton.1 hu]
                exact hstay v b hv

end Champion

/-- All versions in front of the first highest one are below it. -/
theorem exists_eq_append_of_firstHighest? {vs : List Version} {m : Version}
    (h : firstHighest? vs = some m) :
    ∃ front back, vs = front ++ m :: back ∧ (∀ u ∈ front, u < m) ∧ ∀ u ∈ back, u ≤ m := by
  refine exists_eq_append_of_champion? (P := fun u m => u < m) (Q := fun m u => u ≤ m)
    (fun v b hv => ?_) (fun v b hv => ?_) h
  · have hlt : b < v := of_decide_eq_true hv
    exact ⟨hlt, fun u hu => hu.elim hlt.trans' fun hub => hub.trans_lt hlt⟩
  · exact not_lt_iff_le.1 (of_decide_eq_false hv)

theorem firstHighest?_spec {vs : List Version} {m : Version} (h : firstHighest? vs = some m) :
    m ∈ vs ∧ ∀ v ∈ vs, v ≤ m := by
  obtain ⟨front, back, rfl, hfront, hback⟩ := exists_eq_append_of_firstHighest? h
  refine ⟨List.mem_append_right _ List.mem_cons_self, fun v hv => ?_⟩
  rcases List.mem_append.1 hv with hv | hv
  · exact (hfront v hv).le
  · rcases List.mem_cons.1 hv with rfl | hv
    · exact le_rfl
    · exact hback v hv

/-- The highest version does not depend on the order of the list, but for its build. -/
theorem firstHighest?_perm {vs ws : List Version} (h : vs.Perm ws) :
    Option.Rel Equivalent (firstHighest? vs) (firstHighest? ws) := by
  cases hv : firstHighest? vs with
  | none =>
      have hw : ws = [] := (champion?_eq_none_iff.1 hv ▸ h).nil_eq.symm
      rw [hw]
      exact Option.Rel.none
  | some m =>
      cases hw : firstHighest? ws with
      | none =>
          have hvs : vs = [] := (champion?_eq_none_iff.1 hw ▸ h).eq_nil
          rw [hvs] at hv
          cases hv
      | some n =>
          obtain ⟨hm, hvm⟩ := firstHighest?_spec hv
          obtain ⟨hn, hwn⟩ := firstHighest?_spec hw
          exact Option.Rel.some (equivalent_iff_le_and_le.2
            ⟨hwn m (h.mem_iff.1 hm), hvm n (h.mem_iff.2 hn)⟩)

/-! ## The lower of two versions -/

/-- The lower of two versions; of equal ones, the first. -/
def lower (v w : Version) : Version := if w < v then w else v

theorem lower_of_lt {v w : Version} (h : w < v) : lower v w = w := if_pos h

theorem lower_of_le {v w : Version} (h : v ≤ w) : lower v w = v := if_neg (not_lt_iff_le.2 h)

/-- Of three versions, either way gives the first that is not above the others. -/
theorem lower_assoc (u v w : Version) : lower (lower u v) w = lower u (lower v w) := by
  by_cases huv : v < u
  · by_cases hvw : w < v
    · rw [lower_of_lt huv, lower_of_lt hvw, lower_of_lt (hvw.trans huv)]
    · rw [lower_of_lt huv, lower_of_le (not_lt_iff_le.1 hvw), lower_of_lt huv]
  · have hle := not_lt_iff_le.1 huv
    by_cases hvw : w < v
    · rw [lower_of_le hle, lower_of_lt hvw]
    · have hle' := not_lt_iff_le.1 hvw
      rw [lower_of_le hle, lower_of_le hle', lower_of_le hle, lower_of_le (hle.trans hle')]

instance : Std.Associative lower := ⟨lower_assoc⟩

theorem firstLowest?_cons (v : Version) (vs : List Version) :
    firstLowest? (v :: vs) = some (vs.foldl lower v) := by
  rw [firstLowest?, champion?_cons]
  simp only [decide_eq_true_eq]
  rfl

/-- **The lowest version of a list may be found part by part.** -/
theorem firstLowest?_append (vs ws : List Version) :
    firstLowest? (vs ++ ws) = (firstLowest? vs).merge lower (firstLowest? ws) := by
  cases vs with
  | nil => cases h : firstLowest? ws <;> rw [List.nil_append, h] <;> rfl
  | cons v vs =>
      cases ws with
      | nil =>
          rw [List.append_nil, firstLowest?_cons]
          rfl
      | cons w ws =>
          rw [List.cons_append, firstLowest?_cons, firstLowest?_cons, firstLowest?_cons,
            List.foldl_append, List.foldl_cons, List.foldl_assoc]
          rfl

/-! ## Laws -/

/-- Of two versions one is the lower, or they are equal in precedence, but never both. -/
theorem lt_or_equivalent_or_gt (a b : Version) :
    (a < b ∧ ¬ a.Equivalent b ∧ ¬ b < a) ∨ (¬ a < b ∧ a.Equivalent b ∧ ¬ b < a)
      ∨ (¬ a < b ∧ ¬ a.Equivalent b ∧ b < a) := by
  simp only [lt_iff_rank_lt, equivalent_iff_rank_eq]
  rcases lt_trichotomy a.rank b.rank with h | h | h
  · exact Or.inl ⟨h, h.ne, h.asymm⟩
  · exact Or.inr (Or.inl ⟨h.not_lt, h, h.symm.not_lt⟩)
  · exact Or.inr (Or.inr ⟨h.asymm, h.ne', h⟩)

/-- Equal in precedence are the versions whose texts are the same, the build apart. -/
theorem equivalent_iff_texts {a b : Version} :
    a.Equivalent b ↔ toString a.major = toString b.major ∧ toString a.minor = toString b.minor
      ∧ toString a.patch = toString b.patch ∧ a.preReleaseText? = b.preReleaseText? := by
  rw [equivalent_iff_key_eq]
  simp only [key, Prod.mk.injEq]

theorem hash_eq_of_equivalent {a b : Version} (h : a.Equivalent b) : hash a = hash b := by
  show hash a.key = hash b.key
  rw [equivalent_iff_key_eq.1 h]

/-- **Precedence is a total order, and its equality is that of the texts that are hashed.** The
    first part has the laws of the order, totality and transitivity for sorting among them. The
    second says that the order relations are what `compare` says, and the third that equal versions
    are those with the same texts, so that they have one hash and one place in a collection without
    repetition. -/
theorem precedence_total (a b c : Version) :
    (compare b a = (compare a b).swap
      ∧ (a ≤ b → b ≤ c → a ≤ c) ∧ (a < b → b ≤ c → a < c) ∧ (a ≤ b → b < c → a < c)
      ∧ (a ≤ b ∨ b ≤ a)
      ∧ ((a < b ∧ ¬ a.Equivalent b ∧ ¬ b < a) ∨ (¬ a < b ∧ a.Equivalent b ∧ ¬ b < a)
        ∨ (¬ a < b ∧ ¬ a.Equivalent b ∧ b < a)))
    ∧ ((a < b ↔ compare a b = .lt) ∧ (a ≤ b ↔ compare a b ≠ .gt)
      ∧ (b < a ↔ compare a b = .gt) ∧ (b ≤ a ↔ compare a b ≠ .lt)
      ∧ (a.Equivalent b ↔ compare a b = .eq))
    ∧ ((compare a b = .eq ↔ toString a.major = toString b.major
        ∧ toString a.minor = toString b.minor ∧ toString a.patch = toString b.patch
        ∧ a.preReleaseText? = b.preReleaseText?)
      ∧ hash a = hash (toString a.major, toString a.minor, toString a.patch, a.preReleaseText?)
      ∧ (a.Equivalent b → hash a = hash b)
      ∧ ∀ vs, insertNew a vs = vs ↔ ∃ w ∈ vs, w.Equivalent a) := by
  have hrank := compares_rank a b
  refine ⟨⟨compare_swap a b, le_trans, lt_of_lt_of_le, lt_of_le_of_lt, le_or_le a b,
    lt_or_equivalent_or_gt a b⟩, ⟨Iff.rfl, ?_, ?_, ?_, Iff.rfl⟩,
    equivalent_iff_texts, rfl, hash_eq_of_equivalent, fun vs => ?_⟩
  · rw [hrank.ne_gt, le_iff_rank_le]
  · rw [hrank.eq_gt, lt_iff_rank_lt]
  · rw [hrank.ne_lt, le_iff_rank_le]
  · simp only [insertNew_eq_self_iff, equivalent_iff_key_eq]

/-- Numbers rank by value and below words, also where their texts would compare the other way, and
    the build does not count. -/
theorem precedence_total_numbers_words :
    let a : Version := ⟨.ofNat 1, .zero, .zero, [.numeric (.ofNat 9)], []⟩
    let b : Version := ⟨.ofNat 1, .zero, .zero, [.numeric (.ofNat 10), .zero], []⟩
    let c : Version :=
      ⟨.ofNat 1, .zero, .zero, [.alphanumeric ⟨['-', '1'], by decide⟩ (by decide)], []⟩
    let d : Version := { c with build := [⟨['0', '1'], by decide⟩] }
    (a ≤ b ∧ b ≤ c ∧ a ≤ c) ∧ (a < b ∧ b ≤ c ∧ a < c) ∧ (a ≤ b ∧ b < c ∧ a < c)
      ∧ (c.Equivalent d ∧ c ≠ d ∧ hash c = hash d) := by
  intro a b c d
  have hab : a < b := by decide
  have hbc : b < c := by decide
  have hcd : c.Equivalent d := by decide
  obtain ⟨⟨-, hle, hlt, hlt', -⟩, -⟩ := precedence_total a b c
  obtain ⟨-, -, -, -, hhash, -⟩ := precedence_total c d d
  exact ⟨⟨hab.le, hbc.le, hle hab.le hbc.le⟩, ⟨hab, hbc.le, hlt hab hbc.le⟩,
    ⟨hab.le, hbc, hlt' hab.le hbc⟩, hcd, by decide, hhash hcd⟩

end Version

end Versioning
