import Linkage.Proofs.Estimation.Table
import Linkage.Proofs.Exact.Sum
import Linkage.Proofs.Mixture.Scoring

/-
# A score is a difference of two sums

A pattern selects an entry of each row of a class, and the sum of what it selects of the logarithms
is the log-likelihood of the pattern in the class.  A score adds those of the match classes, which
are the first ones, and subtracts those of the others.  With exact arithmetic it does not matter in
which order this is done.
-/

namespace Linkage

open PatternSpace

section Selected

variable {α : Type} {levels : List Nat} {rows : List (List α)} {p : Pattern}

def selected (rows : List (List α)) (p : Pattern) : List α :=
  (List.range p.length).filterMap fun k => (rows[k]?).bind (·[levelAt p k]?)

theorem cells_eq_selected (hrows : RowsFit levels rows) (hp : Fits levels p) :
    cells rows p = .ok (selected rows p) := by
  induction hp generalizing rows with
  | nil => cases hrows; rfl
  | @cons level n p ns hlevel _ ih =>
      cases hrows with
      | @cons row _ rows _ hrow hrows =>
          have hx : row[level]? = some row[level] := List.getElem?_eq_getElem (hrow ▸ hlevel)
          have hselected : selected (row :: rows) (level :: p) = row[level] :: selected rows p := by
            rw [selected, List.length_cons, List.range_succ_eq_map, List.filterMap_cons,
              List.filterMap_map]
            simp [hx, levelAt, selected]
          rw [cells_cons hx (ih hrows), hselected]

end Selected

/-- The sum of the entries that a pattern selects. -/
def logLikelihoodOf {α : Type} [Arithmetic α] (rows : List (List α)) (p : Pattern) : α :=
  Arithmetic.sum (selected rows p)

theorem map_zipIdx_eq_append {β γ : Type} (f g : β → γ) (xs : List β) (n : Nat) :
    (xs.zipIdx.map fun x => if x.2 < n then f x.1 else g x.1) =
      (xs.take n).map f ++ (xs.drop n).map g := by
  refine List.ext_getElem? fun i => ?_
  rw [List.getElem?_map, List.getElem?_zipIdx, List.getElem?_append, List.length_map,
    List.length_take, List.getElem?_map, List.getElem?_map, List.getElem?_take, List.getElem?_drop]
  rcases lt_or_ge i xs.length with hi | hi
  · rcases lt_or_ge i n with hn | hn
    · simp [hi, hn]
    · have hsum : n + (i - min n xs.length) = i := by omega
      simp [hi, hn.not_gt, hsum]
  · have hnone : xs[i]? = none := List.getElem?_eq_none hi
    have hnone' : xs[n + (i - min n xs.length)]? = none := List.getElem?_eq_none (by omega)
    simp [hnone, hnone']

namespace Model

section

variable {α : Type} [Arithmetic α] {c : RecordComparator} {m : Model α} {p : Pattern}

theorem Shaped.classScore_eq (hm : m.Shaped c) (hp : Fits c.levels p) {rows : List (List α)}
    (hrows : rows ∈ m.logWeights) (cls : Nat) : m.classScore p rows cls =
      .ok (if cls < m.matchCount then logLikelihoodOf rows p else -logLikelihoodOf rows p) := by
  rw [classScore, cells_eq_selected (hm.logs rows hrows) hp, isMatch]
  simp only [decide_eq_true_eq]
  rfl

/-- A score is a sum over the match classes and the others. -/
theorem Shaped.scorePattern_eq (hm : m.Shaped c) (hp : Fits c.levels p) :
    m.scorePattern p = .ok (Arithmetic.sum
      ((m.logWeights.take m.matchCount).map (logLikelihoodOf · p) ++
        (m.logWeights.drop m.matchCount).map (-logLikelihoodOf · p))) := by
  have hclass : ∀ x ∈ m.logWeights.zipIdx, m.classScore p x.1 x.2 = .ok
      (if x.2 < m.matchCount then logLikelihoodOf x.1 p else -logLikelihoodOf x.1 p) := fun x hx =>
    hm.classScore_eq hp (List.fst_mem_of_mem_zipIdx hx) x.2
  have hclasses := Traversal.mapM_eq_ok_map hclass
  rw [scorePattern, ← map_zipIdx_eq_append]
  exact Traversal.bind_of_ok hclasses

end

variable {c : RecordComparator} {m : Model Extended} {p : Pattern}

/-- With exact arithmetic a score is the difference of the log-likelihoods of the match classes and
of the others. -/
theorem Shaped.scorePattern_eq_sub (hm : m.Shaped c) (hp : Fits c.levels p) :
    m.scorePattern p =
      .ok (Arithmetic.sum ((m.logWeights.take m.matchCount).map (logLikelihoodOf · p)) -
        Arithmetic.sum ((m.logWeights.drop m.matchCount).map (logLikelihoodOf · p))) := by
  have hothers : (m.logWeights.drop m.matchCount).map (-logLikelihoodOf · p) =
      ((m.logWeights.drop m.matchCount).map (logLikelihoodOf · p)).map Neg.neg :=
    List.map_map.symm
  rw [hm.scorePattern_eq hp, hothers, Extended.sum_eq_sum, List.sum_append, ← List.sum_neg,
    ← sub_eq_add_neg, Extended.sum_eq_sum, Extended.sum_eq_sum]

end Model

end Linkage
