import Linkage.Mixture.Model
import Linkage.Proofs.Agreement.PatternSpace
import Linkage.Proofs.Traversal

/-
# The shape of weights

Weights that pass the check have, in every class, one row for each comparator and one weight for
each level.  So a pattern of the comparators selects one weight of each row, and looking them up
does not fail.
-/

namespace Linkage

open PatternSpace

/-- One row for each comparator, with one entry for each of its levels. -/
def RowsFit {α : Type} (levels : List Nat) (rows : List (List α)) : Prop :=
  List.Forall₂ (fun row n => row.length = n) rows levels

section Cells

variable {α : Type} {levels : List Nat} {rows : List (List α)} {p : Pattern}

theorem cells_cons {row : List α} {level : Nat} {x : α} {xs : List α} (hx : row[level]? = some x)
    (hxs : cells rows p = .ok xs) : cells (row :: rows) (level :: p) = .ok (x :: xs) := by
  rw [cells, hx]
  simp only [hxs]
  rfl

theorem cells_eq_ok (hrows : RowsFit levels rows) (hp : Fits levels p) :
    ∃ xs, cells rows p = .ok xs ∧ ∀ x, x ∈ xs ↔
      ∃ k level : Nat, p[k]? = some level ∧ (rows[k]?).bind (·[level]?) = some x := by
  induction hp generalizing rows with
  | nil => exact ⟨[], by cases hrows; rfl, by simp⟩
  | @cons level n p ns hlevel _ ih =>
      cases hrows with
      | @cons row _ rows _ hrow hrows =>
          obtain ⟨xs, hxs, hmem⟩ := ih hrows
          have hx : row[level]? = some row[level] := List.getElem?_eq_getElem (hrow ▸ hlevel)
          refine ⟨_, cells_cons hx hxs, ?_⟩
          intro y
          rw [List.mem_cons, hmem]
          constructor
          · rintro (rfl | ⟨k, l, hk, hy⟩)
            · exact ⟨0, level, rfl, hx⟩
            · exact ⟨k + 1, l, hk, hy⟩
          · rintro ⟨k, l, hk, hy⟩
            cases k with
            | zero =>
                obtain rfl := Option.some.inj hk
                exact .inl (Option.some.inj (hx.symm.trans hy)).symm
            | succ k => exact .inr ⟨k, l, hk, hy⟩

end Cells

namespace Weights

variable {α : Type} [Arithmetic α]

/-- A row with one weight for each level, whose sum is near 1. -/
def RowOk (row : List α) (levels : Nat) : Prop :=
  row.length = levels ∧ ¬ 1e-6 < Arithmetic.abs (Arithmetic.sum row - 1)

theorem checkRow_eq_ok_iff {cls k n : Nat} {row : List α} :
    checkRow cls k n row = .ok () ↔ RowOk row n := by
  rw [checkRow, RowOk]
  split
  case isTrue hlen => simp [hlen]
  case isFalse hlen =>
    simp only [not_not.mp hlen, true_and]
    split <;> simp [*]

theorem checkClass_eq_ok_iff {levels : List Nat} {cls : Nat} {rows : List (List α)} :
    checkClass levels cls rows = .ok () ↔ List.Forall₂ RowOk rows levels := by
  rw [checkClass, List.forall₂_iff_zip]
  split
  case isTrue hlen => simp [hlen]
  case isFalse hlen =>
    rw [Traversal.forM_eq_ok_iff]
    simp only [not_not.mp hlen, true_and, checkRow_eq_ok_iff]
    exact (Traversal.forall_mem_zipIdx_iff (rows.zip levels) fun x => RowOk x.1 x.2).trans Prod.forall

theorem check_eq_ok_iff {levels : List Nat} {weights : Weights α} :
    weights.check levels = .ok () ↔ ∀ rows ∈ weights, List.Forall₂ RowOk rows levels := by
  rw [check, Traversal.forM_eq_ok_iff]
  simp only [checkClass_eq_ok_iff]
  exact Traversal.forall_mem_zipIdx_iff weights fun rows => List.Forall₂ RowOk rows levels

/-! ## Logarithms -/

def logRows (weights : Weights α) (rows : List (List α)) : List (List α) :=
  rows.zipIdx.map fun (row, k) => row.zipIdx.map fun (w, level) =>
    if weights.isSilent k level then 0 else Arithmetic.log w

theorem logs_eq_map (weights : Weights α) : weights.logs = weights.map weights.logRows := rfl

theorem entry_logRows (weights : Weights α) (rows : List (List α)) (k level : Nat) :
    ((weights.logRows rows)[k]?).bind (·[level]?) = ((rows[k]?).bind (·[level]?)).map fun w =>
      if weights.isSilent k level then 0 else Arithmetic.log w := by
  rw [logRows, List.getElem?_map, List.getElem?_zipIdx]
  cases rows[k]? with
  | none => rfl
  | some row =>
      simp only [Option.map_some, Option.bind_some, List.getElem?_map, List.getElem?_zipIdx]
      cases row[level]? with
      | none => rfl
      | some w => simp

theorem rowsFit_logRows {levels : List Nat} {rows : List (List α)} (weights : Weights α)
    (h : RowsFit levels rows) : RowsFit levels (weights.logRows rows) := by
  rw [RowsFit, List.forall₂_iff_get] at h ⊢
  simpa [logRows] using h

end Weights

/-- A model is made just if its classes can be counted as matches and others, and its weights are
accepted. -/
theorem Model.make_eq_ok_iff {α : Type} [Arithmetic α] {c : RecordComparator} {weights : Weights α}
    {matchCount : Nat} {m : Model α} :
    make c weights matchCount = .ok m ↔ checkClasses weights.length matchCount = .ok () ∧
      (∀ rows ∈ weights, List.Forall₂ Weights.RowOk rows c.levels) ∧
      m = ⟨c, matchCount, weights, weights.logs, none⟩ := by
  rw [make, ← Weights.check_eq_ok_iff]
  cases checkClasses weights.length matchCount with
  | error e => simp [bind, Except.bind]
  | ok _ =>
      cases weights.check c.levels with
      | error e => simp [bind, Except.bind]
      | ok _ => simp [bind, Except.bind, pure, Except.pure, eq_comm]

end Linkage
