import Linkage.Proofs.Exact.Extended
import Linkage.Proofs.Similarity.Partners
import Linkage.Similarity.Score
import Mathlib.Order.Monotone.Basic
import Mathlib.Tactic.FieldSimp
import Mathlib.Tactic.Linarith
import Mathlib.Tactic.NormNum.OfScientific
import Mathlib.Tactic.Ring

/-
# The similarity in exact arithmetic

The base is the mean of three shares, and the lookalikes can only raise it.  What comes after the
base leaves it alone up to 0.7 and above this takes away a part of the distance to 1.  So the
similarity grows strictly with the base, is 0 where the base is 0 and 1 where the base is 1, and all
that is asked about the range of the similarity is asked about the base.

The base can be above 1: lookalikes are counted in the first text alone, and a first text that is
long has more of them than the second has characters.
-/

namespace Linkage.Similarity

/-! ## The counts of two texts -/

/-- What the counts of any two texts satisfy. -/
structure Counts.Sound (n : Counts) : Prop where
  common_le : n.common ≤ n.length2
  common_add_similar_le : n.common + n.similar ≤ n.length1
  two_mul_transposed_le : 2 * n.transposed ≤ n.common
  similar_eq_zero : n.minLength ≤ n.common → n.similar = 0

theorem sound_ofTexts (s1 s2 : List Char) : (Counts.ofTexts s1 s2).Sound := by
  have hfirst := length_first_marks s1 s2
  have hsecond := length_second_marks s1 s2
  have hcommon := count_second_marks s1 s2
  constructor
  case common_le =>
    calc (marks s1 s2).common = (marks s1 s2).second.count true := hcommon.symm
      _ ≤ (marks s1 s2).second.length := List.count_le_length
      _ = s2.length := hsecond
  case common_add_similar_le =>
    have hsimilar : (marks s1 s2).similar s1 s2 ≤ (marks s1 s2).first.count false :=
      List.countP_le_length.trans (length_select hfirst.symm false).le
    have hall := List.count_false_add_count_true (marks s1 s2).first
    change (marks s1 s2).first.count true + (marks s1 s2).similar s1 s2 ≤ s1.length
    omega
  case two_mul_transposed_le =>
    have hplaces : ((select true s1 (marks s1 s2).first).zip
        (select true s2 (marks s1 s2).second)).length ≤ (marks s1 s2).common := by
      rw [List.length_zip, length_select hfirst.symm]
      exact Nat.min_le_left _ _
    exact (Nat.mul_div_le _ 2).trans (List.countP_le_length.trans hplaces)
  case similar_eq_zero =>
    -- All characters of one of the texts are marked, and none is left for the others to be like.
    intro hmin
    have hside : s1.length ≤ (marks s1 s2).common ∨ s2.length ≤ (marks s1 s2).common := by
      simp only [Counts.minLength, Counts.ofTexts] at hmin
      omega
    change (marks s1 s2).similar s1 s2 = 0
    rw [Marks.similar]
    rcases hside with h | h
    · have hall : (marks s1 s2).first.count true = s1.length :=
        Nat.le_antisymm (List.count_le_length.trans hfirst.le) h
      rw [select_false_eq_nil hfirst.symm hall]
      rfl
    · have hall : (marks s1 s2).second.count true = s2.length :=
        Nat.le_antisymm (List.count_le_length.trans hsecond.le) (hcommon ▸ h)
      rw [select_false_eq_nil hsecond.symm hall]
      simp

/-! ## The base -/

section

variable {α : Type} [Arithmetic α] (n : Counts) (a : Adjustments)

/-- The common characters and all lookalikes, also when one of the texts has no other characters. -/
def Counts.credited : α :=
  if a.similarCharacters then (n.common : α) + 0.3 * (n.similar : α) else (n.common : α)

/-- The mean of the three shares of an amount of matched characters. -/
def Counts.mean (matched : α) : α :=
  (matched / (n.length1 : α) + matched / (n.length2 : α) +
    ((n.common - n.transposed : Nat) : α) / (n.common : α)) / 3.0

/-- What becomes of a base. -/
def Counts.raise (shared : Nat) (alphabetic : Bool) (base : α) : α :=
  if 0.7 < base then
    let shared := if a.sharedBeginning then shared else 0
    let weight := if a.sharedBeginning then raiseByBeginning shared base else base
    if a.longTexts && n.isLong shared alphabetic then n.raiseByLength shared weight else weight
  else base

theorem Counts.base_eq : (n.base a : α) = n.mean (n.matched a) := rfl

theorem Counts.weigh_eq (shared : Nat) (alphabetic : Bool) :
    (n.weigh a shared alphabetic : α) = n.raise a shared alphabetic (n.base a) := rfl

end

namespace Counts

variable {n : Counts}

theorem Sound.matched_eq (h : n.Sound) (a : Adjustments) :
    (n.matched a : ℝ) = n.credited a := by
  rw [matched, credited]
  rcases Nat.lt_or_ge n.common n.minLength with hlt | hge
  · simp [hlt]
  · simp [Nat.not_lt.mpr hge, h.similar_eq_zero hge]

theorem credited_eq (n : Counts) (a : Adjustments) :
    (n.credited a : ℝ) = n.common + if a.similarCharacters then 3 / 10 * (n.similar : ℝ) else 0 := by
  rw [credited]
  split <;> norm_num

theorem mean_eq (n : Counts) (x : ℝ) :
    n.mean x = (x / n.length1 + x / n.length2 + (n.common - n.transposed : ℕ) / n.common) / 3 := by
  rw [mean]
  norm_num

theorem Sound.length_pos (h : n.Sound) (hcommon : 0 < n.common) :
    0 < n.length1 ∧ 0 < n.length2 := by
  have hfirst := h.common_add_similar_le
  have hsecond := h.common_le
  omega

theorem Sound.mean_strictMono (h : n.Sound) (hcommon : 0 < n.common) :
    StrictMono (n.mean : ℝ → ℝ) := by
  obtain ⟨hfirst, hsecond⟩ := h.length_pos hcommon
  intro x y hxy
  have hshare1 : x / n.length1 < y / n.length1 :=
    div_lt_div_of_pos_right hxy (Nat.cast_pos.mpr hfirst)
  have hshare2 : x / n.length2 < y / n.length2 :=
    div_lt_div_of_pos_right hxy (Nat.cast_pos.mpr hsecond)
  rw [mean_eq, mean_eq]
  linarith

theorem mean_nonneg (n : Counts) {x : ℝ} (hx : 0 ≤ x) : 0 ≤ n.mean x := by
  rw [mean_eq]
  positivity

theorem mean_le_one (n : Counts) {x : ℝ} (h1 : x ≤ n.length1) (h2 : x ≤ n.length2) :
    n.mean x ≤ 1 := by
  have hshare1 : x / n.length1 ≤ 1 := div_le_one_of_le₀ h1 (Nat.cast_nonneg _)
  have hshare2 : x / n.length2 ≤ 1 := div_le_one_of_le₀ h2 (Nat.cast_nonneg _)
  have horder : ((n.common - n.transposed : ℕ) : ℝ) / n.common ≤ 1 :=
    div_le_one_of_le₀ (Nat.cast_le.mpr (Nat.sub_le _ _)) (Nat.cast_nonneg _)
  rw [mean_eq]
  linarith

/-- Multiplied by the lengths and the common characters. -/
theorem Sound.mean_le_one_iff (h : n.Sound) (hcommon : 0 < n.common) (x : ℝ) :
    n.mean x ≤ 1 ↔
      x * (n.length1 + n.length2) * n.common ≤
        n.length1 * n.length2 * (2 * n.common + n.transposed) := by
  obtain ⟨hfirst, hsecond⟩ := h.length_pos hcommon
  have hle : n.transposed ≤ n.common := by
    have htwo := h.two_mul_transposed_le
    omega
  have hc : (0 : ℝ) < n.common := Nat.cast_pos.mpr hcommon
  have h1 : (0 : ℝ) < n.length1 := Nat.cast_pos.mpr hfirst
  have h2 : (0 : ℝ) < n.length2 := Nat.cast_pos.mpr hsecond
  have hsum : x / n.length1 + x / n.length2 + ((n.common : ℝ) - n.transposed) / n.common =
      (x * (n.length1 + n.length2) * n.common +
        n.length1 * n.length2 * (n.common - n.transposed)) /
          (n.length1 * n.length2 * n.common) := by
    field_simp
    ring
  rw [mean_eq, Nat.cast_sub hle, div_le_one three_pos, hsum, div_le_iff₀ (by positivity)]
  constructor <;> intro hx <;> linarith

theorem Sound.credited_le (h : n.Sound) (a : Adjustments) : (n.credited a : ℝ) ≤ n.length1 := by
  have hle : (n.common : ℝ) + n.similar ≤ n.length1 := by
    exact_mod_cast h.common_add_similar_le
  have hnonneg : (0 : ℝ) ≤ n.similar := Nat.cast_nonneg _
  rw [credited_eq]
  split <;> linarith

theorem Sound.credited_mean_le_one (h : n.Sound) {a : Adjustments}
    (hoff : a.similarCharacters = false) : n.mean (n.credited a : ℝ) ≤ 1 := by
  have hcredited : (n.credited a : ℝ) = n.common := by simp [credited_eq, hoff]
  refine n.mean_le_one (h.credited_le a) ?_
  rw [hcredited]
  exact Nat.cast_le.mpr h.common_le

/-- When the base is not above 1, in whole numbers. -/
theorem Sound.credited_mean_le_one_iff (h : n.Sound) (a : Adjustments) :
    n.common = 0 ∨ n.mean (n.credited a : ℝ) ≤ 1 ↔
      a.similarCharacters = false ∨
        (10 * n.common + 3 * n.similar) * (n.length1 + n.length2) * n.common ≤
          10 * n.length1 * n.length2 * (2 * n.common + n.transposed) := by
  cases ha : a.similarCharacters with
  | false => simp [h.credited_mean_le_one ha]
  | true =>
      rcases Nat.eq_zero_or_pos n.common with hzero | hpos
      · simp [hzero]
      · have hcredited : (n.credited a : ℝ) = n.common + 3 / 10 * n.similar := by
          simp [credited_eq, ha]
        rw [h.mean_le_one_iff hpos, hcredited, ← Nat.cast_le (α := ℝ)]
        push_cast
        simp only [hpos.ne', false_or]
        constructor <;> intro hle <;> linarith

end Counts

/-! ## The raises -/

theorem beginning_le (limit : Nat) (s1 s2 : List Char) : beginning limit s1 s2 ≤ limit := by
  fun_induction beginning limit s1 s2 with
  | case1 limit c s1 d s2 hsame ih => exact Nat.succ_le_succ ih
  | case2 => exact Nat.zero_le _
  | case3 => exact Nat.zero_le _

/-- What the shared beginning leaves of the distance to 1. -/
noncomputable def keptByBeginning (shared : Nat) : ℝ :=
  1 - shared / 10

theorem raiseByBeginning_eq (shared : Nat) (weight : ℝ) :
    raiseByBeginning shared weight = 1 - (1 - weight) * keptByBeginning shared := by
  have htenth : (shared : ℝ) * 0.1 * (1 - weight) = shared * (1 / 10) * (1 - weight) := by norm_num
  rw [raiseByBeginning, keptByBeginning, htenth]
  ring

theorem keptByBeginning_pos {shared : Nat} (h : shared ≤ maxBeginning) :
    0 < keptByBeginning shared := by
  have hle : (shared : ℝ) ≤ 4 := by exact_mod_cast h
  rw [keptByBeginning]
  linarith

theorem keptByBeginning_le_one (shared : Nat) : keptByBeginning shared ≤ 1 := by
  have hnonneg : (0 : ℝ) ≤ shared := Nat.cast_nonneg shared
  rw [keptByBeginning]
  linarith

namespace Counts

variable {n : Counts} {a : Adjustments} {shared : Nat} {alphabetic : Bool}

/-- What the length leaves of the distance to 1. -/
noncomputable def keptByLength (n : Counts) (shared : Nat) : ℝ :=
  1 - (n.common - shared - 1 : ℕ) / (n.length1 + n.length2 - 2 * shared + 2 : ℕ)

theorem raiseByLength_eq (n : Counts) (shared : Nat) (weight : ℝ) :
    n.raiseByLength shared weight = 1 - (1 - weight) * n.keptByLength shared := by
  rw [raiseByLength, keptByLength]
  ring

theorem isLong_iff : n.isLong shared alphabetic = true ↔
    4 < n.minLength ∧ shared + 1 < n.common ∧ n.minLength + shared < 2 * n.common ∧
      alphabetic = true := by
  simp only [isLong, Bool.and_eq_true, decide_eq_true_eq, and_assoc]
  exact Iff.rfl

theorem Sound.keptByLength_pos (h : n.Sound) (hlong : n.isLong shared alphabetic = true) :
    0 < n.keptByLength shared := by
  obtain ⟨-, hshared, -, -⟩ := isLong_iff.mp hlong
  have hfirst := h.common_add_similar_le
  have hsecond := h.common_le
  have hlt : n.common - shared - 1 < n.length1 + n.length2 - 2 * shared + 2 := by omega
  have hcast : ((n.common - shared - 1 : ℕ) : ℝ) < (n.length1 + n.length2 - 2 * shared + 2 : ℕ) :=
    Nat.cast_lt.mpr hlt
  rw [keptByLength, sub_pos, div_lt_one (Nat.cast_pos.mpr (Nat.zero_lt_of_lt hlt))]
  exact hcast

theorem keptByLength_le_one (n : Counts) (shared : Nat) : n.keptByLength shared ≤ 1 := by
  rw [keptByLength, sub_le_self_iff]
  positivity

/-- What the length leaves of the distance to 1, where it may not be rewarded. -/
noncomputable def keptWhen (n : Counts) (long : Bool) (shared : Nat) : ℝ :=
  if long then n.keptByLength shared else 1

/-- What both raises leave of the distance to 1. -/
noncomputable def kept (n : Counts) (a : Adjustments) (shared : Nat) (alphabetic : Bool) : ℝ :=
  let shared := if a.sharedBeginning then shared else 0
  keptByBeginning shared * n.keptWhen (a.longTexts && n.isLong shared alphabetic) shared

theorem kept_eq (n : Counts) (a : Adjustments) (shared : Nat) (alphabetic : Bool) :
    n.kept a shared alphabetic =
      let shared := if a.sharedBeginning then shared else 0
      (1 - shared / 10) *
        if a.longTexts = true ∧ 4 < min n.length1 n.length2 ∧ shared + 1 < n.common ∧
            min n.length1 n.length2 + shared < 2 * n.common ∧ alphabetic = true then
          1 - ((n.common - shared - 1 : ℕ) : ℝ) / (n.length1 + n.length2 - 2 * shared + 2 : ℕ)
        else 1 := by
  simp only [kept, keptWhen, Bool.and_eq_true, isLong_iff]
  rfl

theorem raise_eq (n : Counts) (a : Adjustments) (shared : Nat) (alphabetic : Bool) (base : ℝ) :
    n.raise a shared alphabetic base =
      if 7 / 10 < base then 1 - (1 - base) * n.kept a shared alphabetic else base := by
  have hlevel : ((0.7 : ℝ) < base) = (7 / 10 < base) := by norm_num
  have hlength : ∀ (long : Bool) (shared : Nat) (weight : ℝ),
      (if long then n.raiseByLength shared weight else weight) =
        1 - (1 - weight) * n.keptWhen long shared := by
    intro long shared weight
    cases long with
    | false => simp [keptWhen]
    | true => exact raiseByLength_eq n shared weight
  simp only [raise, kept, hlevel, hlength]
  cases a.sharedBeginning with
  | false => simp [keptByBeginning]
  | true => simp [raiseByBeginning_eq, mul_assoc]

theorem Sound.keptWhen_pos (h : n.Sound) (a : Adjustments) (shared : Nat) (alphabetic : Bool) :
    0 < n.keptWhen (a.longTexts && n.isLong shared alphabetic) shared := by
  rw [keptWhen]
  split
  case isTrue hlong => exact h.keptByLength_pos (Bool.and_eq_true_iff.mp hlong).2
  case isFalse => exact one_pos

theorem keptWhen_le_one (n : Counts) (long : Bool) (shared : Nat) : n.keptWhen long shared ≤ 1 := by
  rw [keptWhen]
  split
  · exact keptByLength_le_one n shared
  · exact le_rfl

theorem Sound.kept_pos (h : n.Sound) (hshared : shared ≤ maxBeginning) :
    0 < n.kept a shared alphabetic := by
  refine mul_pos (keptByBeginning_pos ?_) (h.keptWhen_pos a _ alphabetic)
  split
  · exact hshared
  · exact Nat.zero_le _

theorem Sound.kept_le_one (h : n.Sound) : n.kept a shared alphabetic ≤ 1 :=
  mul_le_one₀ (keptByBeginning_le_one _) (h.keptWhen_pos a _ alphabetic).le (keptWhen_le_one n _ _)

/-- A higher base is a higher similarity: up to 0.7, above it, and across. -/
theorem Sound.raise_strictMono (h : n.Sound) (a : Adjustments) (hshared : shared ≤ maxBeginning)
    (alphabetic : Bool) : StrictMono (n.raise a shared alphabetic : ℝ → ℝ) := by
  intro x y hxy
  have hpos : 0 < n.kept a shared alphabetic := h.kept_pos hshared
  rw [raise_eq, raise_eq]
  split <;> split
  case isTrue.isTrue =>
    have hkept := mul_lt_mul_of_pos_right (sub_lt_sub_left hxy 1) hpos
    exact sub_lt_sub_left hkept 1
  case isTrue.isFalse hx hy => exact absurd (hx.trans hxy) hy
  case isFalse.isTrue hx hy =>
    -- Up to 1 the raise only adds.  What is above 1 it lowers, but not to 1.
    rcases le_or_gt y 1 with hle | hgt
    · have hkept : (1 - y) * n.kept a shared alphabetic ≤ 1 - y :=
        mul_le_of_le_one_right (sub_nonneg.mpr hle) h.kept_le_one
      linarith
    · have hkept : (1 - y) * n.kept a shared alphabetic ≤ 0 :=
        mul_nonpos_of_nonpos_of_nonneg (sub_nonpos.mpr hgt.le) hpos.le
      linarith
  case isFalse.isFalse => exact hxy

theorem raise_zero (n : Counts) (a : Adjustments) (shared : Nat) (alphabetic : Bool) :
    n.raise a shared alphabetic (0 : ℝ) = 0 := by
  rw [raise_eq, if_neg (by norm_num)]

theorem raise_one (n : Counts) (a : Adjustments) (shared : Nat) (alphabetic : Bool) :
    n.raise a shared alphabetic (1 : ℝ) = 1 := by
  rw [raise_eq, if_pos (by norm_num), sub_self, zero_mul, sub_zero]

end Counts

/-! ## The similarity -/

section

variable {α : Type} [Arithmetic α]

/-- The similarity of two normalized texts when all lookalikes are counted, without a look at whether
there are characters left for them. -/
def ofCredited (a : Adjustments) (s1 s2 : List Char) : α :=
  let n := Counts.ofTexts s1 s2
  if n.common = 0 then 0
  else n.raise a (beginning maxBeginning s1 s2) (beginsAlphabetic s1) (n.mean (n.credited a))

end

variable (a : Adjustments)

theorem similarity_eq_ofCredited (s1 s2 : String) :
    (similarity a s1 s2 : ℝ) = ofCredited a (normalize s1) (normalize s2) := by
  rw [similarity, ofChars, ofCredited]
  simp only [Counts.weigh_eq, Counts.base_eq, (sound_ofTexts _ _).matched_eq]

theorem raise_ofTexts_strictMono (s1 s2 : List Char) :
    StrictMono ((Counts.ofTexts s1 s2).raise a (beginning maxBeginning s1 s2)
      (beginsAlphabetic s1) : ℝ → ℝ) :=
  (sound_ofTexts s1 s2).raise_strictMono a (beginning_le maxBeginning s1 s2) (beginsAlphabetic s1)

theorem ofCredited_nonneg (s1 s2 : List Char) : 0 ≤ (ofCredited a s1 s2 : ℝ) := by
  rw [ofCredited]
  split
  · exact le_rfl
  · have hbase : 0 ≤ (Counts.ofTexts s1 s2).mean ((Counts.ofTexts s1 s2).credited a : ℝ) := by
      refine Counts.mean_nonneg _ ?_
      rw [Counts.credited_eq]
      positivity
    have hraised := (raise_ofTexts_strictMono a s1 s2).monotone hbase
    rwa [Counts.raise_zero] at hraised

/-- A similarity is above 1 just if its base is. -/
theorem ofCredited_le_one_iff (s1 s2 : List Char) :
    (ofCredited a s1 s2 : ℝ) ≤ 1 ↔
      let n := Counts.ofTexts s1 s2
      n.common = 0 ∨ n.mean (n.credited a : ℝ) ≤ 1 := by
  rw [ofCredited]
  split
  case isTrue hcommon => simp [hcommon]
  case isFalse hcommon =>
    have hraised := (raise_ofTexts_strictMono a s1 s2).le_iff_le
      (a := (Counts.ofTexts s1 s2).mean ((Counts.ofTexts s1 s2).credited a : ℝ)) (b := 1)
    rw [Counts.raise_one] at hraised
    simp [hcommon, hraised]

/-- The similarity of two texts of which the counts and the beginnings are known. -/
theorem similarity_of_counts (n : Counts) (shared : Nat) (alphabetic : Bool) {s1 s2 : String}
    (hcounts : Counts.ofTexts (normalize s1) (normalize s2) = n) (hpos : 0 < n.common)
    (hshared : beginning maxBeginning (normalize s1) (normalize s2) = shared)
    (halphabetic : beginsAlphabetic (normalize s1) = alphabetic) :
    (similarity a s1 s2 : ℝ) = n.raise a shared alphabetic (n.mean (n.credited a)) := by
  subst hcounts hshared halphabetic
  rw [similarity_eq_ofCredited, ofCredited, if_neg hpos.ne']

/-- The similarity with or without lookalikes, as it depends on what they are worth. -/
theorem similarity_switch (on : Bool) {s1 s2 : String}
    (h : 0 < (Counts.ofTexts (normalize s1) (normalize s2)).common) :
    (similarity { a with similarCharacters := on } s1 s2 : ℝ) =
      let n := Counts.ofTexts (normalize s1) (normalize s2)
      n.raise a (beginning maxBeginning (normalize s1) (normalize s2))
        (beginsAlphabetic (normalize s1))
        (n.mean (n.common + if on then 3 / 10 * (n.similar : ℝ) else 0)) := by
  rw [similarity_of_counts _ _ _ _ rfl h rfl rfl, Counts.credited_eq]
  rfl

/-! ## The range of the similarity, and lookalikes -/

/-- The similarity is never negative.  Without lookalikes it is not above 1 either, and with them it
is above 1 just if they make up for all that the shares lack; the first text is the longer one
then. -/
theorem similarity_le_one_iff (a : Adjustments) (s1 s2 : String) :
    let n := Counts.ofTexts (normalize s1) (normalize s2)
    0 ≤ (similarity a s1 s2 : ℝ) ∧
      ((similarity a s1 s2 : ℝ) ≤ 1 ↔ a.similarCharacters = false ∨
        (10 * n.common + 3 * n.similar) * (n.length1 + n.length2) * n.common ≤
          10 * n.length1 * n.length2 * (2 * n.common + n.transposed)) ∧
      (n.length1 ≤ n.length2 → (similarity a s1 s2 : ℝ) ≤ 1) := by
  intro n
  have hsound : n.Sound := sound_ofTexts _ _
  rw [similarity_eq_ofCredited, ofCredited_le_one_iff]
  refine ⟨ofCredited_nonneg a _ _, hsound.credited_mean_le_one_iff a, fun hlength => .inr ?_⟩
  have hcredited := hsound.credited_le a
  exact n.mean_le_one hcredited (hcredited.trans (Nat.cast_le.mpr hlength))

/-- The first text has nine characters that are like the one that the second has left. -/
theorem one_lt_similarity : 1 < (similarity {} "Emilie Eugenie" "My" : ℝ) := by
  have hcounts : Counts.ofTexts (normalize "Emilie Eugenie") (normalize "My") = ⟨14, 2, 1, 0, 9⟩ :=
    by decide
  have hsound := hcounts ▸ sound_ofTexts (normalize "Emilie Eugenie") (normalize "My")
  rw [← not_le, similarity_eq_ofCredited, ofCredited_le_one_iff, hcounts,
    hsound.credited_mean_le_one_iff]
  decide

/-- Lookalikes only ever raise the similarity, and they do so just if there are any.  That they are
looked for only while both texts have other characters makes no difference. -/
theorem similarity_mono_similarCharacters (a : Adjustments) (s1 s2 : String) :
    let n := Counts.ofTexts (normalize s1) (normalize s2)
    let off : ℝ := similarity { a with similarCharacters := false } s1 s2
    let on : ℝ := similarity { a with similarCharacters := true } s1 s2
    off ≤ on ∧ (0 < n.common → (off < on ↔ 0 < n.similar)) ∧
      (similarity a s1 s2 : ℝ) = ofCredited a (normalize s1) (normalize s2) := by
  intro n off on
  have hsame := similarity_eq_ofCredited a s1 s2
  rcases Nat.eq_zero_or_pos n.common with hzero | hpos
  · have hoff : off = 0 := (similarity_eq_ofCredited _ s1 s2).trans (if_pos hzero)
    have hon : on = 0 := (similarity_eq_ofCredited _ s1 s2).trans (if_pos hzero)
    exact ⟨(hoff.trans hon.symm).le, fun hpos => absurd hzero hpos.ne', hsame⟩
  · have hmono := (raise_ofTexts_strictMono a (normalize s1) (normalize s2)).comp
      ((sound_ofTexts (normalize s1) (normalize s2)).mean_strictMono hpos)
    have hoff : off = _ := similarity_switch a false hpos
    have hon : on = _ := similarity_switch a true hpos
    have hle : (n.common : ℝ) + 0 ≤ n.common + 3 / 10 * n.similar := by
      have hnonneg : (0 : ℝ) ≤ n.similar := Nat.cast_nonneg _
      linarith
    have hlt : (n.common : ℝ) + 0 < n.common + 3 / 10 * n.similar ↔ 0 < n.similar := by
      rw [← Nat.cast_pos (α := ℝ)]
      constructor <;> intro h <;> linarith
    refine ⟨?_, fun _ => ?_, hsame⟩
    · rw [hoff, hon]
      exact hmono.monotone hle
    · rw [hoff, hon]
      exact hmono.lt_iff_lt.trans hlt

end Linkage.Similarity
