import Mathlib.Order.Nat
import Versioning.Proofs.Order
import Versioning.Release.Step

set_option autoImplicit false

/-! # Releases and their pre-releases

Versions with the same three numbers stand together in the order: their pre-releases first, from the
pre-release `0` upwards, and their release last. The next patch of a version is therefore the lowest
release above it, and all that lies between the two are pre-releases of the next patch
(`le_or_of_advance_patch`). -/

namespace Versioning.Version

/-! ## Triples -/

/-- The three numbers of a version, the most significant first. -/
def triple (v : Version) : ℕ ×ₗ ℕ ×ₗ ℕ :=
  toLex (v.major.value, toLex (v.minor.value, v.patch.value))

variable {v w s : Version}

theorem lt_iff_triple : v < w ↔ v.triple < w.triple
    ∨ v.triple = w.triple
      ∧ preReleaseRank v.preReleaseText? < preReleaseRank w.preReleaseText? := by
  rw [lt_iff_rank_lt]
  simp only [rank, triple, Prod.Lex.toLex_lt_toLex, EmbeddingLike.apply_eq_iff_eq, Prod.mk.injEq]
  tauto

theorem triple_eq_iff : v.triple = w.triple ↔ v.release = w.release := by
  simp only [triple, release, EmbeddingLike.apply_eq_iff_eq, Prod.mk.injEq, Numeral.value_inj,
    Version.mk.injEq, and_true]

theorem lt_of_triple_lt (h : v.triple < w.triple) : v < w := lt_iff_triple.2 (Or.inl h)

theorem triple_le_of_le (h : v ≤ w) : v.triple ≤ w.triple := by
  by_contra hlt
  exact not_lt_iff_le.2 h (lt_of_triple_lt (not_le.1 hlt))

/-! ## Both ends of a triple -/

theorem preReleaseRank_of_release (h : v.isPreRelease = false) :
    preReleaseRank v.preReleaseText? = ⊤ :=
  preReleaseRank_of_eq_nil (by simpa [isPreRelease] using h)

theorem preReleaseRank_lt_top (h : v.isPreRelease = true) :
    preReleaseRank v.preReleaseText? < ⊤ := by
  rw [preReleaseRank_of_ne_nil (by simpa [isPreRelease] using h)]
  exact WithTop.coe_lt_top _

theorem le_of_triple_eq (h : v.triple = w.triple) (hw : w.isPreRelease = false) : v ≤ w := by
  rw [← not_lt_iff_le, lt_iff_triple, preReleaseRank_of_release hw]
  rintro (hlt | ⟨-, htop⟩)
  · exact hlt.ne h.symm
  · exact not_top_lt htop

theorem lt_of_triple_eq (h : v.triple = w.triple) (hv : v.isPreRelease = true)
    (hw : w.isPreRelease = false) : v < w := by
  rw [lt_iff_triple, preReleaseRank_of_release hw]
  exact Or.inr ⟨h, preReleaseRank_lt_top hv⟩

/-- A release is at or below all that does not rank below its triple, but for its pre-releases. -/
theorem le_or_of_triple_le (hs : s.release = s) (h : s.triple ≤ w.triple) :
    s ≤ w ∨ w.isPreRelease = true ∧ w.release = s := by
  rcases h.lt_or_eq with hlt | heq
  · exact Or.inl (lt_of_triple_lt hlt).le
  · cases hw : w.isPreRelease with
    | true => exact Or.inr ⟨rfl, (triple_eq_iff.1 heq).symm.trans hs⟩
    | false => exact Or.inl (le_of_triple_eq heq hw)

/-- Above a version, releases are at or above its release. -/
theorem release_le_of_le (h : v ≤ w) (hw : w.isPreRelease = false) : v.release ≤ w := by
  have htriple : v.release.triple ≤ w.triple := triple_le_of_le (v := v) h
  rcases le_or_of_triple_le rfl htriple with hle | ⟨hpre, -⟩
  · exact hle
  · rw [hw] at hpre
    cases hpre

theorem le_release (v : Version) : v ≤ v.release := le_of_triple_eq rfl rfl

theorem release_equivalent_iff : v.release.Equivalent v ↔ v.isPreRelease = false := by
  rw [equivalent_iff_rank_eq, rank_eq_iff]
  simp only [release, isPreRelease, true_and]
  cases v.preRelease <;> simp

/-- No piece of a pre-release ranks below the number `0`. -/
theorem pieceRank_zero_le (x : ℕ ⊕ₗ List ℕ) : pieceRank Identifier.zero.chars ≤ x := by
  have hzero : pieceRank Identifier.zero.chars = ⊥ := pieceRank_digits .zero
  rw [hzero]
  exact bot_le

/-- The pre-release `0` opens its triple. -/
theorem openPreRelease_le (h : v.triple ≤ w.triple) : v.openPreRelease ≤ w := by
  rw [← not_lt_iff_le, lt_iff_triple]
  rintro (hlt | ⟨-, hrank⟩)
  · exact hlt.not_ge h
  · have hopen : v.openPreRelease.preRelease ≠ [] := List.cons_ne_nil _ _
    rw [preReleaseRank_of_ne_nil hopen] at hrank
    cases hw : w.preRelease with
    | nil =>
        rw [preReleaseRank_of_eq_nil hw] at hrank
        exact not_top_lt hrank
    | cons i is =>
        rw [preReleaseRank_of_ne_nil (hw ▸ List.cons_ne_nil i is), hw, WithTop.coe_lt_coe] at hrank
        rcases List.cons_lt_cons_iff.1 hrank with hlt | ⟨-, hnil⟩
        · exact hlt.not_ge (pieceRank_zero_le _)
        · exact List.not_lt_nil _ hnil

theorem zero_triple_le (v : Version) : zero.triple ≤ v.triple := by
  have hzero : zero.triple = ⊥ := rfl
  rw [hzero]
  exact bot_le

/-- Every version is at or above `0.0.0-0`. -/
theorem lowest_le (v : Version) : lowest ≤ v := openPreRelease_le (zero_triple_le v)

theorem zero_le_or (v : Version) : zero ≤ v ∨ v.isPreRelease = true ∧ v.release = zero :=
  le_or_of_triple_le rfl (zero_triple_le v)

/-! ## The next patch -/

theorem advance_patch_of_isPreRelease (h : v.isPreRelease = true) :
    v.advance .patch = .ok v.release := if_pos h

theorem advance_patch_of_release (h : v.isPreRelease = false) :
    v.advance .patch = if v.patch.value + 1 < Numeral.wordSize
      then .ok ⟨v.major, v.minor, .ofNat (v.patch.value + 1), [], []⟩ else .error .patch := by
  rw [advance, if_neg (ne_true_of_eq_false h), nextPatch, raise, Numeral.next?]
  by_cases hfits : v.patch.value + 1 < Numeral.wordSize
  · rw [if_pos hfits, if_pos hfits]
    rfl
  · rw [if_neg hfits, if_neg hfits]
    rfl

/-- There is no next patch only if the patch number is at the limit. -/
theorem toOption_advance_patch_eq_none_iff : (v.advance .patch).toOption = none
    ↔ v.isPreRelease = false ∧ Numeral.wordSize ≤ v.patch.value + 1 := by
  cases h : v.isPreRelease with
  | true => simp [advance_patch_of_isPreRelease h, Except.toOption]
  | false =>
      rw [advance_patch_of_release h]
      split
      · next hfits => simp [Except.toOption, Nat.not_le.2 hfits]
      · next hfits => simp [Except.toOption, Nat.le_of_not_lt hfits]

/-- **The next patch is the lowest release above a version.** -/
theorem of_advance_patch (h : v.advance .patch = .ok s) :
    s.release = s ∧ v < s ∧ ∀ w, v < w → s.triple ≤ w.triple := by
  cases hv : v.isPreRelease with
  | true =>
      rw [advance_patch_of_isPreRelease hv] at h
      cases h
      exact ⟨rfl, lt_of_triple_eq rfl hv rfl, fun w hw => triple_le_of_le (v := v) hw.le⟩
  | false =>
      rw [advance_patch_of_release hv] at h
      split at h
      · cases h
        refine ⟨rfl, lt_of_triple_lt ?_, fun w hw => ?_⟩
        · simp [triple, Prod.Lex.toLex_lt_toLex]
        · have hlt : v.triple < w.triple := by
            refine (triple_le_of_le hw.le).lt_of_ne fun heq => ?_
            exact not_lt_iff_le.2 (le_of_triple_eq heq.symm hv) hw
          simp only [triple, Prod.Lex.toLex_lt_toLex, Prod.Lex.toLex_le_toLex, Numeral.value_ofNat]
            at hlt ⊢
          omega
      · cases h

/-- What lies above a version but below its next patch is a pre-release of that patch. -/
theorem le_or_of_advance_patch (h : v.advance .patch = .ok s) (hw : v < w) :
    s ≤ w ∨ w.isPreRelease = true ∧ w.release = s := by
  obtain ⟨hs, -, hleast⟩ := of_advance_patch h
  exact le_or_of_triple_le hs (hleast w hw)

end Versioning.Version
