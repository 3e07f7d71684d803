import Linkage.Proofs.Estimation.Extension
import Linkage.Proofs.Mixture.Weights
import Mathlib.Algebra.BigOperators.Group.List.Basic
import Mathlib.Algebra.Order.BigOperators.Group.List
import Mathlib.Data.List.Nodup

/-
# Models of probability vectors

The check of a model lets the sum of a row be off by a little, for the sake of rounding.  With exact
numbers the rows that are learned sum to 1, so no model that is made of them is refused.  Reordering
the classes of such a model keeps its rows and permutes its priors.
-/

namespace Linkage

open Extended (number)

/-- A probability vector. -/
def Distribution (row : List Extended) : Prop :=
  ∃ xs : List ℝ, row = xs.map number ∧ (∀ x ∈ xs, 0 ≤ x ∧ x ≤ 1) ∧ xs.sum = 1

theorem distribution_map_number {xs : List ℝ} (hnonneg : ∀ x ∈ xs, 0 ≤ x) (hsum : xs.sum = 1) :
    Distribution (xs.map number) := by
  refine ⟨xs, rfl, ?_, hsum⟩
  intro x hx
  exact ⟨hnonneg x hx, hsum ▸ List.single_le_sum hnonneg x hx⟩

theorem Distribution.rowOk {row : List Extended} {n : Nat} (h : Distribution row)
    (hlen : row.length = n) : Weights.RowOk row n := by
  obtain ⟨xs, rfl, -, hsum⟩ := h
  refine ⟨hlen, ?_⟩
  have hzero : Arithmetic.abs (Arithmetic.sum (xs.map number) - 1) = number 0 := by
    rw [sum_map_number, sum_eq, hsum]
    have hdiff : number 1 - 1 = number 0 := (Extended.number_sub 1 1).trans (by rw [sub_self])
    rw [hdiff, Extended.abs_number, abs_real, abs_zero]
  have htolerance : ¬ (1e-6 : ℝ) < 0 := by norm_num
  rw [hzero]
  exact htolerance

/-! ## The order of the classes -/

namespace Model

theorem isDistinct_iff {xs : List Nat} : isDistinct xs = true ↔ xs.Nodup := by
  induction xs with
  | nil => simp [isDistinct]
  | cons x xs ih => simp [isDistinct, ih]

theorem classOrder_perm {classes : Nat} {first : List Nat} (hrange : ∀ j ∈ first, j < classes)
    (hdistinct : first.Nodup) : (classOrder classes first).Perm (List.range classes) := by
  have hrest : ((List.range classes).filter fun j => !first.contains j).Nodup :=
    List.nodup_range.filter _
  have hdisjoint : first.Disjoint ((List.range classes).filter fun j => !first.contains j) := by
    intro j hfirst hj
    simp [hfirst] at hj
  refine (List.perm_ext_iff_of_nodup (hdistinct.append hrest hdisjoint) List.nodup_range).mpr ?_
  intro j
  by_cases hj : j ∈ first
  · simp [hj, hrange j hj]
  · simp [hj]

theorem pick_range {β : Type} (xs : List β) : pick (List.range xs.length) xs = xs := by
  induction xs with
  | nil => rfl
  | cons x xs ih =>
      rw [pick] at ih ⊢
      rw [List.length_cons, List.range_succ_eq_map, List.filterMap_cons]
      simp only [List.getElem?_cons_zero, List.filterMap_map]
      exact congrArg (x :: ·) ih

theorem pick_perm {β : Type} {order : List Nat} {xs : List β}
    (h : order.Perm (List.range xs.length)) : (pick order xs).Perm xs := by
  have hperm := h.filterMap (xs[·]?)
  change (pick order xs).Perm (pick (List.range xs.length) xs) at hperm
  rwa [pick_range] at hperm

theorem pick_map {β δ : Type} (order : List Nat) (f : β → δ) (xs : List β) :
    pick order (xs.map f) = (pick order xs).map f := by
  simp only [pick, List.map_filterMap, List.getElem?_map]

end Model

theorem Distribution.pick {order : List Nat} {row : List Extended} (h : Distribution row)
    (horder : order.Perm (List.range row.length)) : Distribution (Model.pick order row) := by
  obtain ⟨xs, rfl, hunit, hsum⟩ := h
  rw [List.length_map] at horder
  have hperm := Model.pick_perm horder
  refine ⟨Model.pick order xs, Model.pick_map order number xs, ?_, hperm.sum_eq.trans hsum⟩
  intro x hx
  exact hunit x (hperm.mem_iff.mp hx)

/-! ## Models -/

/-- Rows that are probability vectors, one for each comparator of every class. -/
structure Weights.Stochastic (levels : List Nat) (weights : Weights Extended) : Prop where
  rows : ∀ rows ∈ weights, RowsFit levels rows
  distributions : ∀ rows ∈ weights, ∀ row ∈ rows, Distribution row

theorem rowsFit_extendRows {levels : List Nat} {rows : List (List ℝ)} (h : RowsFit levels rows) :
    RowsFit levels (extendRows rows) := by
  rw [RowsFit, extendRows, List.forall₂_map_left_iff]
  exact h.imp fun row n hrow => (List.length_map ..).trans hrow

theorem Weights.stochastic_map_extendRows {levels : List Nat} {weights : List (List (List ℝ))}
    (hfit : ∀ rows ∈ weights, RowsFit levels rows)
    (hnonneg : ∀ rows ∈ weights, ∀ row ∈ rows, ∀ w ∈ row, 0 ≤ w)
    (hsum : ∀ rows ∈ weights, ∀ row ∈ rows, row.sum = 1) :
    Weights.Stochastic levels (weights.map extendRows) := by
  refine ⟨?_, ?_⟩
  · intro _ h
    obtain ⟨rows, hrows, rfl⟩ := List.mem_map.mp h
    exact rowsFit_extendRows (hfit rows hrows)
  · intro _ h _ h'
    obtain ⟨rows, hrows, rfl⟩ := List.mem_map.mp h
    obtain ⟨row, hrow, rfl⟩ := List.mem_map.mp h'
    exact distribution_map_number (hnonneg rows hrows row hrow) (hsum rows hrows row hrow)

namespace Model

/-- A model of probability vectors, with a number of classes.  So are its priors, if it has any. -/
structure Stochastic (classes : Nat) (m : Model Extended) : Prop where
  length : m.weights.length = classes
  weights : m.weights.Stochastic m.comparator.levels
  priors : ∀ priors, m.priors = some priors → priors.length = classes ∧ Distribution priors

variable {c : RecordComparator} {weights : Weights Extended} {priors : List Extended}
  {classes matchCount : Nat} {m : Model Extended}

theorem checkClasses_eq_ok_iff : checkClasses classes matchCount = .ok () ↔
    2 ≤ classes ∧ 0 < matchCount ∧ matchCount < classes := by
  rw [checkClasses]
  split
  case isTrue h => simp [h]
  case isFalse h =>
    split
    case isTrue hmatch => simp at hmatch; simp; omega
    case isFalse hmatch => simp at hmatch; simp; omega

theorem classes_pos_of_checkClasses (h : checkClasses classes matchCount = .ok ()) :
    0 < classes :=
  Nat.zero_lt_of_lt (checkClasses_eq_ok_iff.mp h).1

theorem make_eq_ok (hclasses : checkClasses classes matchCount = .ok ())
    (hlen : weights.length = classes) (h : weights.Stochastic c.levels) :
    make c weights matchCount = .ok ⟨c, matchCount, weights, weights.logs, none⟩ ∧
      Stochastic classes ⟨c, matchCount, weights, weights.logs, none⟩ := by
  refine ⟨make_eq_ok_iff.mpr ⟨hlen ▸ hclasses, ?_, rfl⟩, hlen, h, nofun⟩
  intro rows hrows
  refine List.forall₂_iff_zip.mpr ⟨List.Forall₂.length_eq (h.rows rows hrows), ?_⟩
  intro row n hzip
  exact (h.distributions rows hrows row (List.of_mem_zip hzip).1).rowOk
    ((List.forall₂_iff_zip.mp (h.rows rows hrows)).2 hzip)

/-- The classes of a model, in an order. -/
def reorder {α : Type} (m : Model α) (matchCount : Nat) (order : List Nat) : Model α :=
  { m with
    matchCount := matchCount
    weights := pick order m.weights
    logWeights := pick order m.logWeights
    priors := m.priors.map (pick order) }

/-- Classes in range, each named once, can be made the match classes. -/
theorem withMatchClasses_eq {α : Type} {m : Model α} {first : List Nat}
    (hclasses : checkClasses m.classCount first.length = .ok ())
    (hrange : ∀ j ∈ first, j < m.classCount) (hdistinct : first.Nodup) :
    m.withMatchClasses first = .ok (m.reorder first.length (classOrder m.classCount first)) := by
  have hok : (first.all (· < m.classCount) && isDistinct first) = true := by
    rw [Bool.and_eq_true, isDistinct_iff, List.all_eq_true]
    exact ⟨fun j hj => decide_eq_true (hrange j hj), hdistinct⟩
  rw [withMatchClasses, hclasses]
  simp only [hok]
  rfl

theorem withPriors_eq {α : Type} {m : Model α} {priors : List α}
    (hlen : priors.length = m.classCount) :
    m.withPriors priors = .ok { m with priors := some priors } := by
  rw [withPriors, if_neg (not_not.mpr hlen)]

theorem withPriors_eq_ok (hm : m.Stochastic classes) (hlen : priors.length = classes)
    (h : Distribution priors) :
    m.withPriors priors = .ok { m with priors := some priors } ∧
      Stochastic classes { m with priors := some priors } := by
  refine ⟨withPriors_eq (hlen.trans hm.length.symm), hm.length, hm.weights, ?_⟩
  intro priors' heq
  obtain rfl := Option.some.inj heq
  exact ⟨hlen, h⟩

theorem Stochastic.reorder (hm : m.Stochastic classes) {order : List Nat}
    (horder : order.Perm (List.range classes)) : (m.reorder matchCount order).Stochastic classes := by
  have hperm : (pick order m.weights).Perm m.weights := pick_perm (by rwa [hm.length])
  refine ⟨hperm.length_eq.trans hm.length, ⟨?_, ?_⟩, ?_⟩
  · intro rows hrows
    exact hm.weights.rows rows (hperm.mem_iff.mp hrows)
  · intro rows hrows
    exact hm.weights.distributions rows (hperm.mem_iff.mp hrows)
  · intro priors hpriors
    obtain ⟨priors', hpriors', rfl⟩ := Option.map_eq_some_iff.mp hpriors
    obtain ⟨hlen, hdistribution⟩ := hm.priors priors' hpriors'
    have horder' : order.Perm (List.range priors'.length) := by rwa [hlen]
    exact ⟨(pick_perm horder').length_eq.trans hlen, hdistribution.pick horder'⟩

theorem withMatchClasses_eq_ok {first : List Nat} (hm : m.Stochastic classes)
    (hclasses : checkClasses classes first.length = .ok ()) (hrange : ∀ j ∈ first, j < classes)
    (hdistinct : first.Nodup) :
    m.withMatchClasses first = .ok (m.reorder first.length (classOrder classes first)) ∧
      (m.reorder first.length (classOrder classes first)).Stochastic classes := by
  refine ⟨?_, hm.reorder (classOrder_perm hrange hdistinct)⟩
  obtain rfl : m.classCount = classes := hm.length
  exact withMatchClasses_eq hclasses hrange hdistinct

end Model

end Linkage
