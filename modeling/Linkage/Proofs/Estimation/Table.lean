import Linkage.Proofs.Estimation.Likelihood

/-
# Tables of amounts

The cell of a comparator and a level holds the amounts of all patterns that have the level there.
So whatever is summed over the amounts of a class by one of its levels can be summed over the cells
of a row instead, and every row sums to the total.
-/

namespace Linkage

open PatternSpace Finset

/-- A cell of a table; 0 out of range. -/
def cell (rows : List (List ℝ)) (k level : Nat) : ℝ :=
  (rows.getD k []).getD level 0

def levelAt (x : Pattern) (k : Nat) : Nat :=
  x.getD k 0

theorem entry_extendRows {rows : List (List ℝ)} {k level : Nat} {x : Extended}
    (h : ((extendRows rows)[k]?).bind (·[level]?) = some x) :
    k < rows.length ∧ level < (rows.getD k []).length ∧ cell rows k level ∈ rows.getD k [] ∧
      x = .number (cell rows k level) := by
  rw [extendRows, List.getElem?_map] at h
  obtain ⟨row', hrow', h⟩ := Option.bind_eq_some_iff.mp h
  obtain ⟨row, hrow, rfl⟩ := Option.map_eq_some_iff.mp hrow'
  rw [List.getElem?_map] at h
  obtain ⟨w, hw, rfl⟩ := Option.map_eq_some_iff.mp h
  obtain ⟨hk, rfl⟩ := List.getElem?_eq_some_iff.mp hrow
  obtain ⟨hlevel, rfl⟩ := List.getElem?_eq_some_iff.mp hw
  rw [cell, List.getD_eq_getElem _ _ hk, List.getD_eq_getElem _ _ hlevel]
  exact ⟨hk, hlevel, List.getElem_mem hlevel, rfl⟩

theorem map_range_eq_map {β δ : Type} (xs : List β) {f : Nat → δ} {h : β → δ}
    (heq : ∀ i (hi : i < xs.length), f i = h xs[i]) : (List.range xs.length).map f = xs.map h := by
  refine List.ext_getElem (by simp) ?_
  intro i _ hi
  rw [List.length_map] at hi
  rw [List.getElem_map, List.getElem_map, List.getElem_range, heq i hi]

section Shape

variable {levels : List Nat} {rows : List (List ℝ)} {x : Pattern} {k : Nat}

theorem RowsFit.length_eq (h : RowsFit levels rows) : rows.length = levels.length :=
  List.Forall₂.length_eq h

theorem RowsFit.row_length (h : RowsFit levels rows) (hk : k < levels.length) :
    (rows.getD k []).length = levels.getD k 0 := by
  have hrows : k < rows.length := h.length_eq ▸ hk
  rw [List.getD_eq_getElem _ _ hrows, List.getD_eq_getElem _ _ hk]
  exact (List.forall₂_iff_get.mp h).2 k hrows hk

theorem RowsFit.entry (h : RowsFit levels rows) (hk : k < levels.length) {level : Nat}
    (hlevel : level < levels.getD k 0) :
    ((extendRows rows)[k]?).bind (·[level]?) = some (.number (cell rows k level)) := by
  have hrow : k < rows.length := h.length_eq ▸ hk
  have hget : rows.getD k [] = rows[k] := List.getD_eq_getElem _ _ hrow
  have hcell : level < rows[k].length := by rwa [← hget, h.row_length hk]
  rw [cell, hget, List.getD_eq_getElem _ _ hcell, extendRows, List.getElem?_map,
    List.getElem?_eq_getElem hrow]
  simp [hcell]

theorem levelAt_lt (h : Fits levels x) (hk : k < levels.length) : levelAt x k < levels.getD k 0 := by
  have hx : k < x.length := h.length_eq ▸ hk
  rw [levelAt, List.getD_eq_getElem _ _ hx, List.getD_eq_getElem _ _ hk]
  exact (List.forall₂_iff_get.mp h).2 k hx hk

theorem sum_map_getD (xs : List ℝ) (f : ℝ → ℝ) :
    ∑ i ∈ range xs.length, f (xs.getD i 0) = (xs.map f).sum := by
  rw [← sum_zip_eq xs xs 0 0 (fun x _ => f x) le_rfl]
  conv_rhs => rw [← @List.map_fst_zip _ _ xs xs le_rfl, List.map_map]
  rfl

theorem sum_getD (xs : List ℝ) : ∑ i ∈ range xs.length, xs.getD i 0 = xs.sum := by
  rw [sum_map_getD xs fun x => x, List.map_id']

theorem RowsFit.exists_cell (h : RowsFit levels rows) {row : List ℝ} (hrow : row ∈ rows) :
    ∃ k < levels.length, row = rows.getD k [] ∧
      ∀ w ∈ row, ∃ level < levels.getD k 0, w = cell rows k level := by
  obtain ⟨k, hk, rfl⟩ := List.mem_iff_getElem.mp hrow
  have hlevels : k < levels.length := h.length_eq ▸ hk
  have hget : rows[k] = rows.getD k [] := (List.getD_eq_getElem _ _ hk).symm
  refine ⟨k, hlevels, hget, ?_⟩
  intro w hw
  obtain ⟨level, hlevel, rfl⟩ := List.mem_iff_getElem.mp hw
  refine ⟨level, ?_, ?_⟩
  · rw [← h.row_length hlevels, ← hget]
    exact hlevel
  · rw [cell, ← hget, List.getD_eq_getElem _ _ hlevel]

end Shape

namespace Mass

/-! ## The shape of a table -/

section Shape

variable {α : Type} [Arithmetic α] {levels : List Nat} {rows : List (List α)} {ms : List (Mass α)}

theorem rowsFit_addTo (h : RowsFit levels rows) {m : Mass α} (hm : Fits levels m.pattern) :
    RowsFit levels (Mass.addTo rows m) := by
  obtain ⟨x, a⟩ := m
  induction h generalizing x with
  | nil => exact .nil
  | cons hrow _ ih =>
      cases hm with
      | cons _ hx => exact .cons ((List.length_modify ..).trans hrow) (ih _ hx)

theorem rowsFit_foldl (h : RowsFit levels rows) (hms : ∀ m ∈ ms, Fits levels m.pattern) :
    RowsFit levels (ms.foldl Mass.addTo rows) := by
  induction ms generalizing rows with
  | nil => exact h
  | cons m ms ih =>
      exact ih (rowsFit_addTo h (hms m List.mem_cons_self))
        fun m' hm' => hms m' (List.mem_cons_of_mem m hm')

theorem rowsFit_zero (α : Type) [Arithmetic α] (levels : List Nat) :
    RowsFit levels (levels.map fun n => List.replicate n (0 : α)) := by
  rw [RowsFit, List.forall₂_map_left_iff]
  exact List.forall₂_same.mpr fun n _ => List.length_replicate

theorem rowsFit_table (hms : ∀ m ∈ ms, Fits levels m.pattern) :
    RowsFit levels (Mass.table levels ms) :=
  rowsFit_foldl (rowsFit_zero α levels) hms

theorem rowsFit_normalize (h : RowsFit levels rows) (total : α) :
    RowsFit levels (Mass.normalize rows total) := by
  rw [RowsFit, Mass.normalize, List.forall₂_map_left_iff]
  exact h.imp fun row n hrow => (List.length_map ..).trans hrow

end Shape

/-! ## The cells of a table -/

variable {levels : List Nat} {rows : List (List ℝ)} {ms : List (Mass ℝ)} {k level : Nat}

theorem total_eq (ms : List (Mass ℝ)) : Mass.total ms = (ms.map Mass.amount).sum :=
  (foldl_add_eq Mass.amount ms 0).trans (zero_add _)

theorem cell_addTo (h : RowsFit levels rows) {m : Mass ℝ} (hm : Fits levels m.pattern)
    (hk : k < levels.length) (hlevel : level < levels.getD k 0) :
    cell (Mass.addTo rows m) k level =
      cell rows k level + if levelAt m.pattern k = level then m.amount else 0 := by
  have hrows : k < rows.length := h.length_eq ▸ hk
  have hx : k < m.pattern.length := hm.length_eq ▸ hk
  have hrow : level < rows[k].length := by
    rw [← List.getD_eq_getElem rows [] hrows, h.row_length hk]
    exact hlevel
  have hzip : k < (Mass.addTo rows m).length := by
    simp only [Mass.addTo, List.length_zipWith]
    omega
  rw [cell, cell, levelAt, List.getD_eq_getElem _ _ hzip, List.getD_eq_getElem _ _ hrows,
    List.getD_eq_getElem _ _ hx, List.getD_eq_getElem _ _ hrow]
  simp only [Mass.addTo, List.getElem_zipWith]
  rw [List.getD_eq_getElem _ _ (by simpa using hrow), List.getElem_modify]
  split <;> simp

theorem cell_foldl (h : RowsFit levels rows) (hms : ∀ m ∈ ms, Fits levels m.pattern)
    (hk : k < levels.length) (hlevel : level < levels.getD k 0) :
    cell (ms.foldl Mass.addTo rows) k level = cell rows k level +
      (ms.map fun m => if levelAt m.pattern k = level then m.amount else 0).sum := by
  induction ms generalizing rows with
  | nil => exact (add_zero _).symm
  | cons m ms ih =>
      have hm := hms m List.mem_cons_self
      rw [List.foldl_cons, ih (rowsFit_addTo h hm) fun m' hm' => hms m' (List.mem_cons_of_mem m hm'),
        cell_addTo h hm hk hlevel, List.map_cons, List.sum_cons, add_assoc]

/-- The amounts of the patterns that have a level. -/
theorem cell_table (hms : ∀ m ∈ ms, Fits levels m.pattern) (hk : k < levels.length)
    (hlevel : level < levels.getD k 0) : cell (Mass.table levels ms) k level =
      (ms.map fun m => if levelAt m.pattern k = level then m.amount else 0).sum := by
  have hzero : cell (levels.map fun n => List.replicate n (0 : ℝ)) k level = 0 := by
    have hmap : k < (levels.map fun n => List.replicate n (0 : ℝ)).length := by simpa using hk
    rw [cell, List.getD_eq_getElem _ _ hmap, List.getElem_map]
    simp
  rw [Mass.table, cell_foldl (rowsFit_zero ℝ levels) hms hk hlevel, hzero, zero_add]

theorem sum_cell_mul (hms : ∀ m ∈ ms, Fits levels m.pattern) (hk : k < levels.length)
    (f : Nat → ℝ) : ∑ level ∈ range (levels.getD k 0), cell (Mass.table levels ms) k level * f level =
      (ms.map fun m => m.amount * f (levelAt m.pattern k)).sum := by
  calc ∑ level ∈ range (levels.getD k 0), cell (Mass.table levels ms) k level * f level
      = ∑ level ∈ range (levels.getD k 0),
          (ms.map fun m => if levelAt m.pattern k = level then m.amount * f level else 0).sum := by
        refine sum_congr rfl ?_
        intro level hlevel
        rw [cell_table hms hk (mem_range.mp hlevel), ← List.sum_map_mul_right]
        simp only [ite_mul, zero_mul]
    _ = (ms.map fun m => ∑ level ∈ range (levels.getD k 0),
          if levelAt m.pattern k = level then m.amount * f level else 0).sum :=
        (sum_map_sum ms _ _).symm
    _ = (ms.map fun m => m.amount * f (levelAt m.pattern k)).sum := by
        refine congrArg List.sum (List.map_congr_left ?_)
        intro m hm
        rw [sum_ite_eq, if_pos (mem_range.mpr (levelAt_lt (hms m hm) hk))]

theorem sum_cell (hms : ∀ m ∈ ms, Fits levels m.pattern) (hk : k < levels.length) :
    ∑ level ∈ range (levels.getD k 0), cell (Mass.table levels ms) k level = Mass.total ms := by
  have h := sum_cell_mul hms hk fun _ => 1
  simp only [mul_one] at h
  rw [h, total_eq]

theorem cell_normalize (rows : List (List ℝ)) (total : ℝ) :
    cell (Mass.normalize rows total) k level = cell rows k level / total := by
  rw [cell, cell, Mass.normalize]
  have hrow := @List.getD_map _ _ rows [] k (·.map (· / total))
  have hcell := @List.getD_map _ _ (rows.getD k []) 0 level (· / total)
  rw [List.map_nil] at hrow
  rw [hrow]
  simpa using hcell

theorem amount_at_nonneg (hamount : ∀ m ∈ ms, 0 ≤ m.amount) :
    ∀ a ∈ ms.map fun m => if levelAt m.pattern k = level then m.amount else 0, 0 ≤ a := by
  intro a ha
  obtain ⟨m, hm, rfl⟩ := List.mem_map.mp ha
  split
  · exact hamount m hm
  · exact le_rfl

theorem cell_table_nonneg (hms : ∀ m ∈ ms, Fits levels m.pattern) (hamount : ∀ m ∈ ms, 0 ≤ m.amount)
    (hk : k < levels.length) (hlevel : level < levels.getD k 0) :
    0 ≤ cell (Mass.table levels ms) k level := by
  rw [cell_table hms hk hlevel]
  exact List.sum_nonneg (amount_at_nonneg hamount)

theorem amount_le_cell (hms : ∀ m ∈ ms, Fits levels m.pattern) (hamount : ∀ m ∈ ms, 0 ≤ m.amount)
    {m : Mass ℝ} (hm : m ∈ ms) (hk : k < levels.length) :
    m.amount ≤ cell (Mass.table levels ms) k (levelAt m.pattern k) := by
  rw [cell_table hms hk (levelAt_lt (hms m hm) hk)]
  exact List.single_le_sum (amount_at_nonneg hamount) _ (List.mem_map.mpr ⟨m, hm, if_pos rfl⟩)

end Mass

theorem rowsFit_normalize_table {α : Type} [Arithmetic α] {levels : List Nat} {ms : List (Mass α)}
    (hms : ∀ m ∈ ms, Fits levels m.pattern) (total : α) :
    RowsFit levels (Mass.normalize (Mass.table levels ms) total) :=
  Mass.rowsFit_normalize (Mass.rowsFit_table hms) total

end Linkage
