import Linkage.Proofs.Estimation.Parameters
import Linkage.Random.Simplex

/-
# Random probability vectors

The pieces that ascending places cut from the unit interval are not negative, and together they are
the interval.  So whatever numbers between 0 and 1 are drawn, the random vectors are points of the
simplex, and a random estimate has them for its parameters.
-/

namespace Linkage

open Extended (number)

namespace Simplex

/-- A source whose draws are numbers between 0 and 1. -/
def UnitDraws (γ : Type) [Draws γ Extended] : Prop :=
  ∀ g : γ, ∃ x : ℝ, 0 ≤ x ∧ x ≤ 1 ∧ (Draws.draw g : Extended × γ).1 = number x

/-- A point of the simplex with some number of coordinates. -/
structure Point (n : Nat) (xs : List ℝ) : Prop where
  length : xs.length = n
  nonneg : ∀ x ∈ xs, 0 ≤ x
  sum : 0 < n → xs.sum = 1

/-! ## Lengths -/

section Lengths

variable {γ α : Type} [Arithmetic α] [Draws γ α]

omit [Draws γ α] in
theorem length_pieces (start : α) (cuts : List α) :
    (pieces start cuts).length = cuts.length + 1 := by
  induction cuts generalizing start with
  | nil => rfl
  | cons cut cuts ih => rw [pieces, List.length_cons, ih, List.length_cons]

omit [Arithmetic α] in
theorem length_drawList (n : Nat) (g : γ) : (drawList n g : List α × γ).1.length = n := by
  induction n generalizing g with
  | zero => rfl
  | succ n ih => exact congrArg (· + 1) (ih _)

theorem length_partition (n : Nat) (g : γ) : (partition n g : List α × γ).1.length = n := by
  match n with
  | 0 => rfl
  | 1 => rfl
  | n + 2 =>
      show (pieces (0 : α) (ascending (drawList (n + 1) g).1)).length = n + 2
      rw [length_pieces, ascending, List.length_mergeSort, length_drawList]

theorem lengths_partitions (lengths : List Nat) (g : γ) :
    List.Forall₂ (fun row n => row.length = n) (partitions lengths g : List (List α) × γ).1
      lengths := by
  induction lengths generalizing g with
  | nil => exact .nil
  | cons n ns ih => exact .cons (length_partition n g) (ih _)

theorem lengths_tables (lengths : List Nat) (n : Nat) (g : γ) :
    (tables lengths n g : List (List (List α)) × γ).1.length = n ∧
      ∀ rows ∈ (tables lengths n g : List (List (List α)) × γ).1, RowsFit lengths rows := by
  induction n generalizing g with
  | zero => exact ⟨rfl, nofun⟩
  | succ n ih =>
      obtain ⟨hlen, hrows⟩ := ih (partitions lengths g : List (List α) × γ).2
      refine ⟨congrArg (· + 1) hlen, ?_⟩
      intro rows hmem
      rcases List.mem_cons.mp hmem with rfl | hmem
      · exact lengths_partitions lengths g
      · exact hrows rows hmem

end Lengths

/-! ## Ascending numbers -/

/-- Doubles are ordered by their rank. -/
instance transCmpOrderFloat : Std.TransCmp (@Arithmetic.order Float _) :=
  inferInstanceAs (Std.TransCmp (compareOn Arithmetic.rank))

instance transCmpOrderReal : Std.TransCmp (@Arithmetic.order ℝ _) :=
  inferInstanceAs (Std.TransCmp (compare (α := ℝ)))

theorem pairwise_order_ascending {α : Type} [Arithmetic α] [Std.TransCmp (@Arithmetic.order α _)]
    (xs : List α) : (ascending xs).Pairwise fun a b => (Arithmetic.order a b).isLE = true := by
  refine List.pairwise_mergeSort ?_ ?_ xs
  · exact fun a b c => Std.TransCmp.isLE_trans
  · intro a b
    rw [Bool.or_eq_true, ← Std.OrientedCmp.isGE_iff_isLE (a := a)]
    cases Arithmetic.order a b <;> simp

/-! ## Pieces of the unit interval -/

theorem sum_pieces (start : ℝ) (cuts : List ℝ) : (pieces start cuts).sum = 1 - start := by
  induction cuts generalizing start with
  | nil => exact List.sum_singleton
  | cons cut cuts ih => rw [pieces, List.sum_cons, ih, sub_add_sub_cancel']

theorem pieces_nonneg {start : ℝ} {cuts : List ℝ} (hsorted : (start :: cuts).Pairwise (· ≤ ·))
    (hcuts : ∀ x ∈ start :: cuts, x ≤ 1) : ∀ x ∈ pieces start cuts, 0 ≤ x := by
  induction cuts generalizing start with
  | nil =>
      intro x hx
      rw [List.mem_singleton.mp hx]
      exact sub_nonneg.mpr (hcuts start List.mem_cons_self)
  | cons cut cuts ih =>
      intro x hx
      rcases List.mem_cons.mp hx with rfl | hx
      · exact sub_nonneg.mpr (List.rel_of_pairwise_cons hsorted List.mem_cons_self)
      · exact ih hsorted.of_cons (fun y hy => hcuts y (List.mem_cons_of_mem _ hy)) x hx

theorem pairwise_ascending (xs : List ℝ) : (ascending xs).Pairwise (· ≤ ·) :=
  (pairwise_order_ascending xs).imp fun h => compare_le_iff_le.mp (Ordering.isLE_iff_ne_gt.mp h)

theorem point_pieces {xs : List ℝ} (h : ∀ x ∈ xs, 0 ≤ x ∧ x ≤ 1) :
    Point (xs.length + 1) (pieces 0 (ascending xs)) where
  length := by rw [length_pieces, ascending, List.length_mergeSort]
  nonneg := by
    have hmem : ∀ x ∈ ascending xs, 0 ≤ x ∧ x ≤ 1 := fun x hx => h x (List.mem_mergeSort.mp hx)
    have hsorted := List.pairwise_cons.mpr ⟨fun x hx => (hmem x hx).1, pairwise_ascending xs⟩
    refine pieces_nonneg hsorted ?_
    intro x hx
    rcases List.mem_cons.mp hx with rfl | hx
    · exact zero_le_one
    · exact (hmem x hx).2
  sum := fun _ => (sum_pieces 0 _).trans (sub_zero 1)

/-! ## Draws of extended numbers -/

theorem pieces_map_number (start : ℝ) (cuts : List ℝ) :
    pieces (number start) (cuts.map number) = (pieces start cuts).map number := by
  induction cuts generalizing start with
  | nil => rfl
  | cons cut cuts ih => simp only [List.map_cons, pieces, ih, Extended.number_sub]

theorem ascending_map_number (xs : List ℝ) :
    ascending (xs.map number) = (ascending xs).map number := by
  refine (List.map_mergeSort ?_).symm
  intro a _ b _
  rw [Extended.order_number]

variable {γ : Type} [Draws γ Extended]

theorem exists_drawList (h : UnitDraws γ) (n : Nat) (g : γ) :
    ∃ xs : List ℝ, (drawList n g : List Extended × γ).1 = xs.map number ∧ xs.length = n ∧
      ∀ x ∈ xs, 0 ≤ x ∧ x ≤ 1 := by
  induction n generalizing g with
  | zero => exact ⟨[], rfl, rfl, by simp⟩
  | succ n ih =>
      obtain ⟨x, hlow, hhigh, hx⟩ := h g
      obtain ⟨xs, hxs, hlen, hunit⟩ := ih (Draws.draw g : Extended × γ).2
      refine ⟨x :: xs, ?_, congrArg (· + 1) hlen, ?_⟩
      · rw [drawList, List.map_cons, ← hx, ← hxs]
      · intro y hy
        rcases List.mem_cons.mp hy with rfl | hy
        · exact ⟨hlow, hhigh⟩
        · exact hunit y hy

theorem exists_partition (h : UnitDraws γ) (n : Nat) (g : γ) :
    ∃ xs : List ℝ, (partition n g : List Extended × γ).1 = xs.map number ∧ Point n xs := by
  match n with
  | 0 => exact ⟨[], rfl, rfl, by simp, by simp⟩
  | 1 => exact ⟨[1], rfl, rfl, by simp, by simp⟩
  | n + 2 =>
      obtain ⟨xs, hxs, hlen, hunit⟩ := exists_drawList h (n + 1) g
      have hpoint := point_pieces hunit
      rw [hlen] at hpoint
      refine ⟨pieces 0 (ascending xs), ?_, hpoint⟩
      rw [partition]
      simp only [hxs, ascending_map_number, Extended.zero_eq, pieces_map_number]

theorem exists_partitions (h : UnitDraws γ) (lengths : List Nat) (g : γ) :
    ∃ rows : List (List ℝ), (partitions lengths g : List (List Extended) × γ).1 = extendRows rows ∧
      List.Forall₂ (fun row n => Point n row) rows lengths := by
  induction lengths generalizing g with
  | nil => exact ⟨[], rfl, .nil⟩
  | cons n ns ih =>
      obtain ⟨row, hrow, hpoint⟩ := exists_partition h n g
      obtain ⟨rows, hrows, hpoints⟩ := ih (partition n g : List Extended × γ).2
      refine ⟨row :: rows, ?_, .cons hpoint hpoints⟩
      rw [partitions]
      simp only [hrow, hrows]
      rfl

theorem exists_tables (h : UnitDraws γ) (lengths : List Nat) (n : Nat) (g : γ) :
    ∃ weights : List (List (List ℝ)),
      (tables lengths n g : List (List (List Extended)) × γ).1 = weights.map extendRows ∧
      weights.length = n ∧
      ∀ rows ∈ weights, List.Forall₂ (fun row n => Point n row) rows lengths := by
  induction n generalizing g with
  | zero => exact ⟨[], rfl, rfl, by simp⟩
  | succ n ih =>
      obtain ⟨rows, hrows, hpoints⟩ := exists_partitions h lengths g
      obtain ⟨weights, hweights, hlen, hall⟩ :=
        ih (partitions lengths g : List (List Extended) × γ).2
      refine ⟨rows :: weights, ?_, congrArg (· + 1) hlen, ?_⟩
      · rw [tables]
        simp only [hrows, hweights]
        rfl
      · intro rows' h'
        rcases List.mem_cons.mp h' with rfl | h'
        · exact hpoints
        · exact hall rows' h'

end Simplex

namespace Problem

open Simplex

variable {γ : Type} [Draws γ Extended]

theorem exists_start_shaped (h : UnitDraws γ) (p : Problem ℝ) (g : γ) :
    ∃ s : Estimate ℝ, (p.extend.start g : Estimate Extended × γ).1 = s.extend ∧ s.Shaped p := by
  obtain ⟨priors, hpriors, hpoint⟩ := exists_partition h p.classes g
  obtain ⟨weights, hweights, hlen, hpoints⟩ :=
    exists_tables h p.levels p.classes (partition p.classes g : List Extended × γ).2
  obtain ⟨shares, hshares, hentries⟩ := exists_partitions h (p.unlabeled.map fun _ => p.classes)
    (tables p.levels p.classes (partition p.classes g : List Extended × γ).2 :
      List (List (List Extended)) × γ).2
  have hentry : ∀ row ∈ shares, Point p.classes row := by
    rw [List.forall₂_map_right_iff] at hentries
    exact ((List.forall₂_and_left _ _).mp (hentries.imp fun _ _ hrow => And.intro hrow hrow)).1
  refine ⟨⟨priors, weights, shares⟩, ?_, hpoint.length, hpoint.nonneg, hlen, ?_, ?_, ?_, ?_, ?_⟩
  · rw [start]
    simp only [Problem.extend, hpriors, hweights, hshares]
    rfl
  · intro rows hrows
    exact (hpoints rows hrows).imp fun _ _ hrow => hrow.length
  · intro rows hrows
    exact ((List.forall₂_and_left _ _).mp ((hpoints rows hrows).imp fun row n hrow =>
      (⟨hrow.nonneg, hrow⟩ : (∀ w ∈ row, 0 ≤ w) ∧ Point n row))).1
  · exact hentries.length_eq.trans (List.length_map ..)
  · exact fun row hrow => (hentry row hrow).length
  · exact fun row hrow => (hentry row hrow).nonneg

theorem exists_start (h : UnitDraws γ) (p : Problem ℝ) (g : γ) :
    ∃ s : Estimate ℝ, (p.extend.start g : Estimate Extended × γ).1 = s.extend ∧ s.Nonneg p := by
  obtain ⟨s, hstart, hs⟩ := exists_start_shaped h p g
  exact ⟨s, hstart, hs.nonneg⟩

end Problem

end Linkage
