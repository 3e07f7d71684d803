import Linkage.Proofs.Score.Contents
import Linkage.Proofs.Score.Order
import Mathlib.Algebra.BigOperators.Group.Finset.Piecewise
import Mathlib.Algebra.Order.Group.Multiset

/-
# Score maps after any insertions and merges

A shelf is a number of score maps, empty at first.  A move inserts a pair into one of them, or
merges one into another, which leaves it empty.  Beside the maps go the ledgers: plain lists, to
which an insertion appends a pair and a merge the other list.

Whatever moves are made, a map is that of its ledger, and this is all there is to know about it: the
maps that can be reached are the maps of lists of pairs.  The step is the one fact about merges,
`ScoreMap.merge_ofList`.
-/

namespace Linkage

namespace Shelf

open Std (TransOrd)

variable {ι α : Type}

/-- What is done with the score maps of a shelf. -/
inductive Move (ι α : Type) where
  | insert (i : ι) (p : ScoredPair α)
  | merge (i source : ι)

namespace Move

/-- The pair that comes with a move. -/
def inserted? : Move ι α → Option (ScoredPair α)
  | .insert _ p => some p
  | .merge _ _ => none

variable [DecidableEq ι]

/-- The score maps after a move. -/
def step [Ord α] (maps : ι → ScoreMap α) : Move ι α → ι → ScoreMap α
  | .insert i p => Function.update maps i ((maps i).insert p)
  | .merge i source =>
    let others := Function.update maps source (.empty (maps source).fieldNames)
    Function.update others i ((others i).merge (maps source))

/-- The ledgers after a move. -/
def note (ledgers : ι → List (ScoredPair α)) : Move ι α → ι → List (ScoredPair α)
  | .insert i p => Function.update ledgers i (ledgers i ++ [p])
  | .merge i source =>
    let others := Function.update ledgers source []
    Function.update others i (others i ++ ledgers source)

end Move

/-- The score maps after some moves, for comparators of the given fields. -/
def maps [DecidableEq ι] [Ord α] (names : ι → List (String × String)) (moves : List (Move ι α)) :
    ι → ScoreMap α :=
  moves.foldl Move.step fun i => .empty (names i)

/-- The ledgers after some moves. -/
def ledgers [DecidableEq ι] (moves : List (Move ι α)) : ι → List (ScoredPair α) :=
  moves.foldl Move.note fun _ => []

/-! ## Maps and ledgers -/

section Ledgers

variable [DecidableEq ι] [Ord α]

/-- A move changes the maps as it changes the ledgers. -/
theorem Move.step_ofList [TransOrd α] (names : ι → List (String × String))
    (ledgers : ι → List (ScoredPair α)) (move : Move ι α) :
    Move.step (fun i => .ofList (names i) (ledgers i)) move =
      fun i => .ofList (names i) (Move.note ledgers move i) := by
  funext k
  cases move with
  | insert i p =>
      rw [step, note]
      by_cases hk : k = i
      · subst hk
        rw [Function.update_self, Function.update_self, ScoreMap.ofList_snoc]
      · rw [Function.update_of_ne hk, Function.update_of_ne hk]
  | merge i source =>
      have hothers : Function.update (fun i => ScoreMap.ofList (names i) (ledgers i)) source
          (.empty (ScoreMap.ofList (names source) (ledgers source)).fieldNames) =
            fun i => ScoreMap.ofList (names i) (Function.update ledgers source [] i) := by
        funext j
        by_cases hj : j = source
        · subst hj
          rw [Function.update_self, Function.update_self, ScoreMap.fieldNames_ofList]
          rfl
        · rw [Function.update_of_ne hj, Function.update_of_ne hj]
      simp only [step, note, hothers]
      by_cases hk : k = i
      · subst hk
        rw [Function.update_self, Function.update_self, ScoreMap.merge_ofList]
      · rw [Function.update_of_ne hk, Function.update_of_ne hk]

theorem maps_eq [TransOrd α] (names : ι → List (String × String)) (moves : List (Move ι α)) :
    maps names moves = fun i => .ofList (names i) (ledgers moves i) := by
  induction moves using List.reverseRecOn with
  | nil => rfl
  | append_singleton moves move ih =>
      have hmaps : maps names (moves ++ [move]) = Move.step (maps names moves) move :=
        List.foldl_append
      have hledgers : ledgers (moves ++ [move]) = Move.note (ledgers moves) move :=
        List.foldl_append
      rw [hmaps, hledgers, ih, Move.step_ofList]

end Ledgers

/-! ## No pair is lost or doubled -/

def inserted (moves : List (Move ι α)) : List (ScoredPair α) :=
  moves.filterMap Move.inserted?

section Totals

variable [Fintype ι]

def total (ledgers : ι → List (ScoredPair α)) : Multiset (ScoredPair α) :=
  ∑ i, (ledgers i : Multiset (ScoredPair α))

variable [DecidableEq ι]

theorem total_update (ledgers : ι → List (ScoredPair α)) (i : ι) (ps : List (ScoredPair α)) :
    total (Function.update ledgers i ps) + ledgers i = total ledgers + ps := by
  set others : Multiset (ScoredPair α) := ∑ k ∈ Finset.univ.erase i, ↑(ledgers k) with hothers
  have hsame : ∑ k ∈ Finset.univ.erase i, ↑(Function.update ledgers i ps k) = others :=
    Finset.sum_congr rfl fun k hk => by rw [Function.update_of_ne (Finset.ne_of_mem_erase hk)]
  have hbefore : total ledgers = ↑(ledgers i) + others :=
    (Finset.add_sum_erase _ _ (Finset.mem_univ i)).symm
  have hafter : total (Function.update ledgers i ps) = ↑ps + others := by
    rw [← hsame, total, ← Finset.add_sum_erase _ _ (Finset.mem_univ i), Function.update_self]
  rw [hbefore, hafter]
  abel

theorem Move.total_note (ledgers : ι → List (ScoredPair α)) (move : Move ι α) :
    total (Move.note ledgers move) = total ledgers + move.inserted?.toList := by
  cases move with
  | insert i p =>
      have hadd := total_update ledgers i (ledgers i ++ [p])
      rw [← Multiset.coe_add, add_left_comm, add_comm] at hadd
      exact add_left_cancel hadd
  | merge i source =>
      set others := Function.update ledgers source [] with hothers
      have htaken : total others + ledgers source = total ledgers := by
        rw [hothers, total_update, Multiset.coe_nil, add_zero]
      have hadd := total_update others i (others i ++ ledgers source)
      rw [← Multiset.coe_add, add_left_comm, htaken, add_comm] at hadd
      exact (add_left_cancel hadd).trans (add_zero _).symm

theorem total_ledgers (moves : List (Move ι α)) : total (ledgers moves) = inserted moves := by
  induction moves using List.reverseRecOn with
  | nil => exact Finset.sum_const_zero
  | append_singleton moves move ih =>
      have hledger : ledgers (moves ++ [move]) = Move.note (ledgers moves) move :=
        List.foldl_append
      have hinserted : inserted (moves ++ [move]) = inserted moves ++ move.inserted?.toList := by
        rw [inserted, List.filterMap_append]
        cases move <;> rfl
      rw [hledger, Move.total_note, ih, hinserted, Multiset.coe_add]

end Totals

/-! ## After any moves -/

variable [DecidableEq ι]

/-- After any insertions into any number of score maps and any merges of them every map is
well-formed and holds the pairs of its ledger; together they hold each inserted pair once.
Inserting and merging keep the buckets that there are, with their scores and their pairs in order;
and merging is inserting the pairs of the other map one by one, from its lowest bucket up. -/
theorem maps_represent [Fintype ι] (names : ι → List (String × String))
    (moves : List (Move ι Float)) :
    let shelf := maps names moves
    (∀ i, (shelf i).Proper ∧ (shelf i).toList.Perm (ledgers moves i)) ∧
      ∑ i, ((shelf i).toList : Multiset (ScoredPair Float)) = inserted moves ∧
      (∀ i p, Bucket.Kept (shelf i).buckets ((shelf i).insert p).buckets) ∧
      ∀ i j, Bucket.Kept (shelf i).buckets ((shelf i).merge (shelf j)).buckets ∧
        (shelf i).merge (shelf j) = (shelf j).toList.foldl ScoreMap.insert (shelf i) := by
  simp only [maps_eq]
  refine ⟨fun i => ⟨ScoreMap.proper_ofList _ _, ScoreMap.toList_ofList_perm _⟩, ?_, ?_, ?_⟩
  · rw [← total_ledgers]
    exact Finset.sum_congr rfl fun i _ => Multiset.coe_eq_coe.mpr (ScoreMap.toList_ofList_perm _)
  · exact fun i p => Bucket.kept_insertInto _ _ _
  · intro i j
    rw [ScoreMap.merge_eq_foldl_insert]
    exact ⟨ScoreMap.kept_foldl_insert _ _, rfl⟩

end Shelf

end Linkage
