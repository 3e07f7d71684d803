import Linkage.Proofs.Similarity.Score

/-
# Longer shared beginnings

A longer shared beginning takes more of the distance to 1.  But the reward for length depends on the
beginning, too: it asks that enough characters agree after the beginning, and its amount is the share
of these.  As long as both beginnings leave enough of them, or both too few, the longer one is the
better one.  Where the shorter one still gets the reward for length and the longer one does not, the
gain of a tenth for each character may be less than what is lost, and there is an exact condition for
this in whole numbers.
-/

namespace Linkage.Similarity

/-! ## Texts that begin alike -/

theorem exists_first_of_beginning {limit : Nat} {s1 s2 : List Char} (h : 0 < beginning limit s1 s2) :
    ∃ c, s1[0]? = some c ∧ s2[0]? = some c := by
  unfold beginning at h
  split at h
  case h_1 limit c s1 d s2 =>
    split at h
    case isTrue hsame =>
      obtain ⟨hcd, -⟩ := Bool.and_eq_true_iff.mp hsame
      exact ⟨c, rfl, congrArg some (eq_of_beq hcd).symm⟩
    case isFalse => cases h
  case h_2 => cases h

theorem common_pos_of_beginning {limit : Nat} {s1 s2 : List Char}
    (h : 0 < beginning limit s1 s2) (hlength : 4 ≤ max s1.length s2.length) :
    0 < (marks s1 s2).common := by
  have hradius : 0 < radius s1.length s2.length := by
    rw [radius]
    omega
  exact common_pos (i := 0) (j := 0) ⟨⟨by omega, by omega⟩, exists_first_of_beginning h⟩

/-- Lookalikes alone do not make texts of less than four characters look alike. -/
theorem Counts.Sound.credited_mean_of_short {n : Counts} (h : n.Sound) (a : Adjustments)
    (hcommon : n.common = 0) (hshort : max n.length1 n.length2 < 4) :
    n.mean (n.credited a : ℝ) ≤ 7 / 10 := by
  have hsimilar : n.similar ≤ n.length1 := by
    have hle := h.common_add_similar_le
    omega
  have hcredited : (n.credited a : ℝ) ≤ 3 / 10 * n.similar := by
    rw [credited_eq, hcommon]
    split <;> norm_num
  have hsimilar' : (n.similar : ℝ) ≤ n.length1 := Nat.cast_le.mpr hsimilar
  have hthree : (n.length1 : ℝ) ≤ 3 := by exact_mod_cast (by omega : n.length1 ≤ 3)
  have hshare1 : (n.credited a : ℝ) / n.length1 ≤ 3 / 10 :=
    div_le_of_le_mul₀ (Nat.cast_nonneg _) (by norm_num) (by linarith)
  have hshare2 : (n.credited a : ℝ) / n.length2 ≤ 9 / 10 := by
    rcases Nat.eq_zero_or_pos n.length2 with hzero | hpos
    · rw [hzero, Nat.cast_zero, div_zero]
      norm_num
    · have hone : (1 : ℝ) ≤ n.length2 := Nat.one_le_cast.mpr hpos
      exact div_le_of_le_mul₀ (by linarith) (by norm_num) (by linarith)
  have horder : ((n.common - n.transposed : ℕ) : ℝ) / n.common = 0 := by
    rw [hcommon, Nat.cast_zero, div_zero]
  rw [mean_eq, horder]
  linarith

/-- Texts with a shared beginning and a base above 0.7 have characters in common, however short they
are. -/
theorem common_pos_of_credited_mean {limit : Nat} {a : Adjustments} {s1 s2 : List Char}
    (h : 0 < beginning limit s1 s2)
    (hlow : 7 / 10 < (Counts.ofTexts s1 s2).mean ((Counts.ofTexts s1 s2).credited a : ℝ)) :
    0 < (Counts.ofTexts s1 s2).common := by
  rcases Nat.lt_or_ge (max s1.length s2.length) 4 with hshort | hlength
  · by_contra hnone
    have hzero : (Counts.ofTexts s1 s2).common = 0 := Nat.eq_zero_of_not_pos hnone
    have hle := (sound_ofTexts s1 s2).credited_mean_of_short a hzero hshort
    exact absurd hlow (not_lt.mpr hle)
  · exact common_pos_of_beginning h hlength

/-! ## What a longer beginning leaves -/

namespace Counts

variable {n : Counts} {p q : Nat}

/-- With one more character at the beginning less is left, in real numbers.  That the length is
rewarded for the longer beginning says that `c` is at least `p + 3` and at least half of `p + 7`. -/
theorem kept_step {p c l : ℝ} (hthree : p + 3 ≤ c) (hseven : p + 7 ≤ 2 * c) (hl : 2 * c ≤ l) :
    (1 - (p + 1) / 10) * (1 - (c - (p + 1) - 1) / (l - 2 * (p + 1) + 2)) <
      (1 - p / 10) * (1 - (c - p - 1) / (l - 2 * p + 2)) := by
  have hlow : 0 < l - 2 * (p + 1) + 2 := by linarith
  have hhigh : 0 < l - 2 * p + 2 := by linarith
  -- Multiplied by both denominators, the tenth more is worth the right side of `hgain` and the lesser
  -- reward for length the left side of `hbound`.
  have hbound : (9 - p) * (l - 2 * c + 4) ≤ (2 * (c - p) + 2) * (l - 2 * c + 4) :=
    mul_le_mul_of_nonneg_right (by linarith) (by linarith)
  have hgain : (2 * (c - p) + 2) * (l - 2 * c + 4) < (l - p - c + 3) * (l - 2 * p) := by
    nlinarith [mul_nonneg (sub_nonneg.mpr hl) (sub_nonneg.mpr hthree)]
  rw [one_sub_div hlow.ne', one_sub_div hhigh.ne', mul_div_assoc', mul_div_assoc',
    div_lt_div_iff₀ hlow hhigh]
  linarith

theorem Sound.keptByLength_eq (h : n.Sound) (hp : p + 1 < n.common) :
    n.keptByLength p =
      1 - ((n.common : ℝ) - p - 1) / ((n.length1 : ℝ) + n.length2 - 2 * p + 2) := by
  have hfirst := h.common_add_similar_le
  have hsecond := h.common_le
  have hagree : ((n.common - p - 1 : ℕ) : ℝ) = n.common - p - 1 := by
    rw [Nat.sub_sub, Nat.cast_sub hp.le]
    push_cast
    ring
  have hall : ((n.length1 + n.length2 - 2 * p + 2 : ℕ) : ℝ) =
      n.length1 + n.length2 - 2 * p + 2 := by
    rw [Nat.cast_add, Nat.cast_sub (by omega)]
    push_cast
    ring
  rw [keptByLength, hagree, hall]

theorem isLong_of_le (hpq : p ≤ q) (h : n.isLong q true = true) : n.isLong p true = true := by
  obtain ⟨hmin, hagree, hmore, -⟩ := isLong_iff.mp h
  exact isLong_iff.mpr ⟨hmin, by omega, by omega, rfl⟩

theorem Sound.kept_succ_lt (h : n.Sound) (hlong : n.isLong (p + 1) true = true) :
    keptByBeginning (p + 1) * n.keptByLength (p + 1) < keptByBeginning p * n.keptByLength p := by
  obtain ⟨hmin, hagree, hmore, -⟩ := isLong_iff.mp hlong
  have hfirst := h.common_add_similar_le
  have hsecond := h.common_le
  have hthree : (p : ℝ) + 3 ≤ n.common := by exact_mod_cast (by omega : p + 3 ≤ n.common)
  have hseven : (p : ℝ) + 7 ≤ 2 * n.common := by exact_mod_cast (by omega : p + 7 ≤ 2 * n.common)
  have hlength : 2 * (n.common : ℝ) ≤ n.length1 + n.length2 := by
    exact_mod_cast (by omega : 2 * n.common ≤ n.length1 + n.length2)
  rw [keptByBeginning, keptByBeginning, h.keptByLength_eq hagree, h.keptByLength_eq (by omega),
    Nat.cast_succ]
  exact kept_step hthree hseven hlength

theorem Sound.kept_lt_of_isLong (h : n.Sound) (hpq : p < q) (hlong : n.isLong q true = true) :
    keptByBeginning q * n.keptByLength q < keptByBeginning p * n.keptByLength p := by
  induction q, hpq using Nat.le_induction with
  | base => exact h.kept_succ_lt hlong
  | succ q hpq ih => exact (h.kept_succ_lt hlong).trans (ih (isLong_of_le (Nat.le_succ q) hlong))

/-- A tenth for each further character against a share of what the shorter beginning leaves. -/
theorem tenths_lt_iff (agree : Nat) {rest : Nat} (hpq : p ≤ q) (hq : q ≤ 10) (hrest : 0 < rest) :
    (1 - q / 10 : ℝ) < (1 - p / 10) * (1 - agree / rest) ↔
      (10 - p) * agree < (q - p) * rest := by
  have hpos : (0 : ℝ) < 10 * rest := by positivity
  have hdiff : ((1 - p / 10) * (1 - agree / rest) - (1 - q / 10) : ℝ) =
      ((q - p) * rest - (10 - p) * agree) / (10 * rest) := by
    field_simp
    ring
  rw [← sub_pos, hdiff, div_pos_iff_of_pos_right hpos, sub_pos, ← Nat.cast_lt (α := ℝ),
    Nat.cast_mul, Nat.cast_mul, Nat.cast_sub hpq, Nat.cast_sub (hpq.trans hq)]
  rfl

/-- When a longer beginning leaves less of the distance to 1. -/
theorem Sound.kept_lt_iff (h : n.Sound) (hpq : p < q) (hq : q ≤ maxBeginning) :
    n.kept {} q true < n.kept {} p true ↔
      ¬ (n.isLong p true = true ∧ n.isLong q true = false ∧
        (q - p) * (n.length1 + n.length2 - 2 * p + 2) ≤ (10 - p) * (n.common - p - 1)) := by
  have hkept : ∀ shared, n.kept {} shared true =
      keptByBeginning shared * n.keptWhen (n.isLong shared true) shared := fun _ => rfl
  rw [hkept, hkept]
  cases hshort : n.isLong p true with
  | false =>
      have hlong : n.isLong q true = false := by
        rw [← Bool.not_eq_true] at hshort ⊢
        exact fun hq => hshort (isLong_of_le hpq.le hq)
      have hless : keptByBeginning q < keptByBeginning p :=
        sub_lt_sub_left (div_lt_div_of_pos_right (Nat.cast_lt.mpr hpq) (by norm_num)) 1
      simp [hlong, keptWhen, hless]
  | true =>
      cases hlong : n.isLong q true with
      | false =>
          have hrest : 0 < n.length1 + n.length2 - 2 * p + 2 := Nat.succ_pos _
          have htenths := tenths_lt_iff (n.common - p - 1) hpq.le (hq.trans (by decide)) hrest
          simpa [keptWhen, keptByBeginning, keptByLength] using htenths
      | true => simpa [keptWhen] using h.kept_lt_of_isLong hpq hlong

end Counts

/-! ## The similarity of texts with longer beginnings -/

/-- Of two pairs of texts with the same counts, whose base lies between 0.7 and 1, the one with the
longer shared beginning is more similar, except where the shorter beginning alone gets the reward for
length and a tenth for each further character is not more than this reward. -/
theorem similarity_lt_iff_of_longer_beginning {s1 s2 t1 t2 : String} {n : Counts} {p q : Nat}
    (hs : Counts.ofTexts (normalize s1) (normalize s2) = n)
    (ht : Counts.ofTexts (normalize t1) (normalize t2) = n)
    (hlow : (7 / 10 : ℝ) < n.base {}) (hhigh : (n.base {} : ℝ) < 1)
    (hsa : beginsAlphabetic (normalize s1) = true) (hta : beginsAlphabetic (normalize t1) = true)
    (hp : beginning maxBeginning (normalize s1) (normalize s2) = p)
    (hq : beginning maxBeginning (normalize t1) (normalize t2) = q) (hpq : p < q) :
    (similarity {} s1 s2 : ℝ) < similarity {} t1 t2 ↔
      ¬ (n.isLong p true = true ∧ n.isLong q true = false ∧
        (q - p) * (n.length1 + n.length2 - 2 * p + 2) ≤ (10 - p) * (n.common - p - 1)) := by
  have hsound : n.Sound := hs ▸ sound_ofTexts _ _
  have hbase : (n.base {} : ℝ) = n.mean (n.credited {}) := by
    rw [Counts.base_eq, hsound.matched_eq]
  rw [hbase] at hlow hhigh
  have hpos : 0 < n.common := by
    subst ht
    exact common_pos_of_credited_mean (hq ▸ Nat.zero_lt_of_lt hpq) hlow
  have hq4 : q ≤ maxBeginning := hq ▸ beginning_le maxBeginning _ _
  rw [similarity_of_counts {} n p true hs hpos hp hsa, similarity_of_counts {} n q true ht hpos hq hta,
    Counts.raise_eq, Counts.raise_eq, if_pos hlow, if_pos hlow, sub_lt_sub_iff_left,
    mul_lt_mul_iff_right₀ (sub_pos.mpr hhigh), hsound.kept_lt_iff hpq hq4]

/-- Two letters that change places do more harm at the beginning than at the end. -/
theorem similarity_lt_iff_of_margaret :
    Counts.ofTexts (normalize "Margaret") (normalize "Amrgaret") = ⟨8, 8, 8, 1, 0⟩ ∧
      Counts.ofTexts (normalize "Margaret") (normalize "Margarte") = ⟨8, 8, 8, 1, 0⟩ ∧
      (7 / 10 : ℝ) < Counts.base ⟨8, 8, 8, 1, 0⟩ {} ∧
      (Counts.base ⟨8, 8, 8, 1, 0⟩ {} : ℝ) < 1 ∧
      (similarity {} "Margaret" "Amrgaret" : ℝ) < similarity {} "Margaret" "Margarte" := by
  have hfirst : Counts.ofTexts (normalize "Margaret") (normalize "Amrgaret") = ⟨8, 8, 8, 1, 0⟩ := by
    decide
  have hsecond : Counts.ofTexts (normalize "Margaret") (normalize "Margarte") = ⟨8, 8, 8, 1, 0⟩ := by
    decide
  have hbase : (Counts.base ⟨8, 8, 8, 1, 0⟩ {} : ℝ) = 23 / 24 := by
    norm_num [Counts.base_eq, Counts.mean_eq, Counts.matched, Counts.minLength]
  have hlow : (7 / 10 : ℝ) < Counts.base ⟨8, 8, 8, 1, 0⟩ {} := by norm_num [hbase]
  have hhigh : (Counts.base ⟨8, 8, 8, 1, 0⟩ {} : ℝ) < 1 := by norm_num [hbase]
  have hless := similarity_lt_iff_of_longer_beginning hfirst hsecond hlow hhigh (by decide)
    (by decide) (p := 0) (by decide) (q := 4) (by decide) (by decide)
  exact ⟨hfirst, hsecond, hlow, hhigh, hless.mpr (by decide)⟩

/-- The second names agree in their first letter, the first ones in none; but only with the first
ones the three letters in common are more than half of what remains. -/
theorem longer_beginning_less_similar :
    Counts.ofTexts (normalize "Barry") (normalize "Hardy") = ⟨5, 5, 3, 0, 0⟩ ∧
      Counts.ofTexts (normalize "Chris") (normalize "Craig") = ⟨5, 5, 3, 0, 0⟩ ∧
      (7 / 10 : ℝ) < Counts.base ⟨5, 5, 3, 0, 0⟩ {} ∧
      (Counts.base ⟨5, 5, 3, 0, 0⟩ {} : ℝ) < 1 ∧
      beginsAlphabetic (normalize "Barry") = true ∧ beginsAlphabetic (normalize "Chris") = true ∧
      beginning maxBeginning (normalize "Barry") (normalize "Hardy") = 0 ∧
      beginning maxBeginning (normalize "Chris") (normalize "Craig") = 1 ∧
      (similarity {} "Chris" "Craig" : ℝ) < similarity {} "Barry" "Hardy" := by
  have hfirst : Counts.ofTexts (normalize "Barry") (normalize "Hardy") = ⟨5, 5, 3, 0, 0⟩ := by
    decide
  have hsecond : Counts.ofTexts (normalize "Chris") (normalize "Craig") = ⟨5, 5, 3, 0, 0⟩ := by
    decide
  have hbase : (Counts.base ⟨5, 5, 3, 0, 0⟩ {} : ℝ) = 11 / 15 := by
    norm_num [Counts.base_eq, Counts.mean_eq, Counts.matched, Counts.minLength]
  refine ⟨hfirst, hsecond, by norm_num [hbase], by norm_num [hbase], by decide, by decide, by decide,
    by decide, ?_⟩
  rw [similarity_of_counts _ _ 1 true hsecond (by decide) (by decide) (by decide),
    similarity_of_counts _ _ 0 true hfirst (by decide) (by decide) (by decide)]
  norm_num [Counts.raise_eq, Counts.mean_eq, Counts.credited_eq, Counts.kept_eq]

end Linkage.Similarity
