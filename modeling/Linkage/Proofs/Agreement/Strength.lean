import Linkage.Proofs.Agreement.RecordComparator
import Linkage.Proofs.Exact.Extended
import Linkage.Proofs.Score.Order

/-
# A higher level is a stronger agreement

A level counts the conditions from the first that holds to the last.  Where each condition implies
the next, those are the conditions that hold.  The thresholds of a difference ascend and those of a
similarity descend, so that what is below a threshold, or above it, is so for all later ones.  The
checks see to that, and they are needed for it: without them a level can count conditions that fail.

The conditions of a prorated comparator need not imply each other.  The check orders them by slope,
and where the lesser number is negative a greater slope makes for a lower bound.  But every bound
depends on the lesser number alone.  With that number fixed, what holds of a gap holds of all smaller
gaps, and the first condition that holds can only come earlier.
-/

namespace Linkage

/-! ## Levels and conditions -/

theorem adjacent_iff_isChain {β : Type} {related : β → β → Bool} {xs : List β} :
    adjacent related xs = true ↔ xs.IsChain (related · · = true) := by
  fun_induction adjacent related xs with
  | case1 a b rest ih => rw [Bool.and_eq_true, List.isChain_cons_cons, ih]
  | case2 xs hshort =>
      refine iff_of_true rfl ?_
      cases xs with
      | nil => exact .nil
      | cons a rest =>
          cases rest with
          | nil => exact .singleton a
          | cons b rest => exact (hshort a b rest rfl).elim

namespace Agreement

section Conditions

variable {β : Type} {n : Nat} {holds holds' : β → Bool} {conditions : List β}

theorem levelOf_cons (x : β) :
    levelOf n holds (x :: conditions) =
      if holds x = true then n else levelOf (n - 1) holds conditions := by
  rw [levelOf, List.findIdx?_cons]
  cases hx : holds x with
  | true => rfl
  | false =>
      rw [levelOf]
      cases conditions.findIdx? holds with
      | none => rfl
      | some i => exact (Nat.sub_add_eq n i 1).trans (Nat.sub_right_comm n i 1)

theorem levelOf_eq_countP (h : conditions.Pairwise fun x y => holds x = true → holds y = true) :
    levelOf conditions.length holds conditions = conditions.countP holds := by
  induction conditions with
  | nil => rfl
  | cons x conditions ih =>
      obtain ⟨hx, htail⟩ := List.pairwise_cons.mp h
      rw [levelOf_cons]
      split
      case isTrue hhead =>
        have hall : conditions.countP holds = conditions.length :=
          List.countP_eq_length.mpr fun y hy => hx y hy hhead
        rw [List.countP_cons_of_pos hhead, hall, List.length_cons]
      case isFalse hhead =>
        rw [List.countP_cons_of_neg hhead, ← ih htail, List.length_cons, Nat.add_sub_cancel]

theorem levelOf_of_adjacent {related : β → β → Bool} (h : adjacent related conditions = true)
    (himp : ∀ x y, related x y = true → holds x = true → holds y = true) :
    levelOf conditions.length holds conditions = conditions.countP holds := by
  let implies : Trans (fun x y => holds x = true → holds y = true)
      (fun x y => holds x = true → holds y = true) (fun x y => holds x = true → holds y = true) :=
    ⟨fun hxy hyz hx => hyz (hxy hx)⟩
  exact levelOf_eq_countP (List.isChain_iff_pairwise.mp ((adjacent_iff_isChain.mp h).imp himp))

theorem levelOf_mono (h : ∀ x ∈ conditions, holds x = true → holds' x = true) :
    levelOf n holds conditions ≤ levelOf n holds' conditions := by
  induction conditions generalizing n with
  | nil => exact Nat.le_refl _
  | cons x conditions ih =>
      have htail := ih (n := n - 1) fun y hy => h y (List.mem_cons_of_mem x hy)
      rw [levelOf_cons, levelOf_cons]
      split
      case isTrue hx => rw [if_pos (h x List.mem_cons_self hx)]
      case isFalse =>
        split
        case isTrue => exact (levelOf_le (n - 1) holds conditions).trans (Nat.sub_le n 1)
        case isFalse => exact htail

end Conditions

/-- With the same lesser number, a gap that stays below every bound that a second gap stays below
gives a level that is no lower. -/
theorem proratedLevel_le {α : Type} [Arithmetic α] {slopes intercepts : List α} {a b a' b' : α}
    (hlow : Arithmetic.least a b = Arithmetic.least a' b')
    (hgap : ∀ bound, Arithmetic.abs (a' - b') < bound → Arithmetic.abs (a - b) < bound) :
    proratedLevel slopes intercepts a' b' ≤ proratedLevel slopes intercepts a b := by
  rw [proratedLevel, proratedLevel, hlow]
  refine levelOf_mono ?_
  rintro ⟨slope, intercept⟩ - h
  exact decide_eq_true (hgap _ (of_decide_eq_true h))

end Agreement

/-! ## Fixed thresholds -/

namespace FieldComparator

variable {thresholds levels : List Float} {adjustments : Adjustments}

theorem check_eq_ok_iff {c : FieldComparator} : c.check = .ok () ↔ c.flaw? = none := by
  rw [check]
  cases c.flaw? with
  | none => exact iff_of_true rfl rfl
  | some flaw => exact iff_of_false nofun nofun

theorem adjacent_of_unflawed {related : Float → Float → Bool} {xs : List Float}
    {missing unordered : ComparatorFlaw}
    (h : (if xs.isEmpty then some missing
      else if adjacent related xs then none else some unordered) = none) :
    adjacent related xs = true := by
  by_contra hnot
  split at h
  case isTrue hempty =>
    rw [List.isEmpty_iff.mp hempty] at hnot
    exact hnot rfl
  case isFalse => cases h

theorem ascending_of_check (h : (absoluteDifference thresholds).check = .ok ()) :
    adjacent (fun a b => decide (a < b)) thresholds = true :=
  adjacent_of_unflawed (check_eq_ok_iff.mp h)

theorem descending_of_check (h : (fuzzy levels adjustments).check = .ok ()) :
    adjacent (fun a b => decide (b < a)) levels = true :=
  adjacent_of_unflawed (check_eq_ok_iff.mp h)

end FieldComparator

namespace Agreement

theorem differenceLevel_eq_countP {thresholds : List Float}
    (h : adjacent (fun a b => decide (a < b)) thresholds = true) (a b : Float) :
    differenceLevel thresholds a b =
      thresholds.countP fun threshold => decide (Arithmetic.abs (a - b) ≤ threshold) := by
  refine levelOf_of_adjacent h ?_
  intro x y hxy hx
  exact decide_eq_true (Score.le_of_le_of_lt (of_decide_eq_true hx) (of_decide_eq_true hxy))

/-- Thresholds out of order: the second one does not hold and is counted. -/
example : differenceLevel [2, 1] (0 : Float) 1.5 = 2 := by decide

theorem similarityLevel_eq_countP {levels : List Float}
    (h : adjacent (fun a b => decide (b < a)) levels = true) (similarity : Float) :
    similarityLevel levels similarity =
      levels.countP fun level => decide (level < similarity) := by
  refine levelOf_of_adjacent h ?_
  intro x y hxy hx
  exact decide_eq_true (Score.lt_of_lt_of_lt (of_decide_eq_true hxy) (of_decide_eq_true hx))

end Agreement

/-! ## Thresholds that scale with the lesser number -/

namespace Agreement

section Real

variable {slopes intercepts : List ℝ} {a b a' b' : ℝ}

theorem proratedLevel_antitone (hlow : min a b = min a' b') (hgap : |a - b| ≤ |a' - b'|) :
    proratedLevel slopes intercepts a' b' ≤ proratedLevel slopes intercepts a b := by
  rw [← least_real, ← least_real] at hlow
  refine proratedLevel_le hlow fun bound h => ?_
  rw [abs_real] at h ⊢
  exact hgap.trans_lt h

end Real

section Extended

open Extended

variable {slopes intercepts : List Extended} {a b a' b' : ℝ}

theorem proratedLevel_number_antitone (hlow : min a b = min a' b') (hgap : |a - b| ≤ |a' - b'|) :
    proratedLevel slopes intercepts (number a') (number b') ≤
      proratedLevel slopes intercepts (number a) (number b) := by
  refine proratedLevel_le ?_ fun bound h => ?_
  · rw [least_number, least_number, least_real, least_real, hlow]
  · rw [number_sub, abs_number, abs_real] at h ⊢
    exact number_lt_of_le hgap h

end Extended

end Agreement

/-! ## Comparators -/

open Agreement Extended in
/-- A higher level is a stronger agreement: the level of a difference and that of a similarity are
how many thresholds they keep to, and the level of a prorated comparison, of numbers or of the years
to a base year, does not rise with the gap between two values of which the lesser one stays. -/
theorem FieldComparator.level_follows_agreement :
    (∀ (thresholds : List Float) (x y : Field) (a b : Float),
      (absoluteDifference thresholds).check = .ok () → x.asFloat = .ok a → y.asFloat = .ok b →
      (absoluteDifference thresholds).compare x y =
        .ok (thresholds.countP fun threshold => decide (Arithmetic.abs (a - b) ≤ threshold))) ∧
    (∀ (levels : List Float) (adjustments : Adjustments) (x y : Field),
      (fuzzy levels adjustments).check = .ok () →
      (fuzzy levels adjustments).compare x y =
        .ok (levels.countP fun level => decide (level < similarity adjustments x.text y.text))) ∧
    (∀ (slopes intercepts : List ℝ) (m d₁ d₂ : ℝ), 0 ≤ d₁ → d₁ ≤ d₂ →
      proratedLevel slopes intercepts m (m + d₂) ≤ proratedLevel slopes intercepts m (m + d₁)) ∧
    (∀ (slopes intercepts : List ℝ) (base year d₁ d₂ : ℝ), 0 ≤ d₁ → d₁ ≤ d₂ →
      proratedLevel slopes intercepts (base - year) (base - (year - d₂)) ≤
        proratedLevel slopes intercepts (base - year) (base - (year - d₁))) ∧
    ∀ (slopes intercepts : List Extended) (m d₁ d₂ : ℝ), 0 ≤ d₁ → d₁ ≤ d₂ →
      proratedLevel slopes intercepts (number m) (number (m + d₂)) ≤
        proratedLevel slopes intercepts (number m) (number (m + d₁)) := by
  have hlow : ∀ {m d₁ d₂ : ℝ}, 0 ≤ d₁ → d₁ ≤ d₂ → min m (m + d₁) = min m (m + d₂) := by
    intro m d₁ d₂ hpos hle
    rw [min_eq_left (le_add_of_nonneg_right hpos),
      min_eq_left (le_add_of_nonneg_right (hpos.trans hle))]
  have hgap : ∀ {m d₁ d₂ : ℝ}, 0 ≤ d₁ → d₁ ≤ d₂ → |m - (m + d₁)| ≤ |m - (m + d₂)| := by
    intro m d₁ d₂ hpos hle
    rw [sub_add_cancel_left, sub_add_cancel_left, abs_neg, abs_neg]
    exact abs_le_abs_of_nonneg hpos hle
  refine ⟨?_, ?_, ?_, ?_, ?_⟩
  · intro thresholds x y a b hcheck ha hb
    rw [compare, ha, hb]
    exact congrArg Except.ok (differenceLevel_eq_countP (ascending_of_check hcheck) a b)
  · intro levels adjustments x y hcheck
    exact congrArg Except.ok (similarityLevel_eq_countP (descending_of_check hcheck) _)
  · intro slopes intercepts m d₁ d₂ hpos hle
    exact proratedLevel_antitone (hlow hpos hle) (hgap hpos hle)
  · intro slopes intercepts base year d₁ d₂ hpos hle
    -- The earlier year is further from the base year by the gap.
    rw [← sub_add, ← sub_add]
    exact proratedLevel_antitone (hlow hpos hle) (hgap hpos hle)
  · intro slopes intercepts m d₁ d₂ hpos hle
    exact proratedLevel_number_antitone (hlow hpos hle) (hgap hpos hle)

open FieldComparator Agreement in
/-- Two ages, two names, and numbers whose lesser one is negative. -/
theorem FieldComparator.level_follows_agreement_martha :
    ((absoluteDifference [1, 2, 5]).check = .ok () ∧ Field.asFloat ⟨"34"⟩ = .ok 34 ∧
      Field.asFloat ⟨"36"⟩ = .ok 36 ∧
      (absoluteDifference [1, 2, 5]).compare ⟨"34"⟩ ⟨"36"⟩ = .ok 2) ∧
    ((fuzzy [0.95, 0.9, 0.8] .none).check = .ok () ∧
      (fuzzy [0.95, 0.9, 0.8] .none).compare ⟨"Martha"⟩ ⟨"Marhta"⟩ = .ok 2) ∧
    (0 : ℝ) ≤ 1 ∧ (1 : ℝ) ≤ 2 ∧
      proratedLevel [1, 2] [3, 3] (-1 : ℝ) (-1 + 2) ≤
        proratedLevel [1, 2] [3, 3] (-1 : ℝ) (-1 + 1) := by
  obtain ⟨hdifference, hfuzzy, hprorated, -⟩ := level_follows_agreement
  have hages : (absoluteDifference [1, 2, 5]).check = .ok () := rfl
  have hnames : (fuzzy [0.95, 0.9, 0.8] .none).check = .ok () := rfl
  have hleft : Field.asFloat ⟨"34"⟩ = .ok 34 := rfl
  have hright : Field.asFloat ⟨"36"⟩ = .ok 36 := rfl
  refine ⟨⟨hages, hleft, hright, ?_⟩, ⟨hnames, ?_⟩, zero_le_one, one_le_two, ?_⟩
  · rw [hdifference _ _ _ _ _ hages hleft hright]
    rfl
  · rw [hfuzzy _ _ _ _ hnames]
    rfl
  · exact hprorated _ _ _ _ _ zero_le_one one_le_two

end Linkage
