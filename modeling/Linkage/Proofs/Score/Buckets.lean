import Linkage.Proofs.Score.ScoreMap
import Mathlib.Data.Fintype.Card

/-
# Counting pairs by score

A bucket is found by its score, and equal scores need not be the same score: two zeros share a
bucket.  So what can be counted bucket by bucket are the properties that equal scores share.  Such a
property holds of as many pairs of a score map as of the pairs it was built from, and the two
questions a score map answers are of this kind: how many pairs have a score, and how many have at
least a score.
-/

namespace Linkage

open Std (TransOrd)
open Std.OrientedCmp Std.TransCmp

variable {α : Type} [Ord α]

/-- Equal scores share a property. -/
def Uniform (p : α → Bool) : Prop :=
  ∀ x y, compare x y = .eq → p x = p y

theorem uniform_compare [TransOrd α] (f : Ordering → Bool) (s : α) :
    Uniform fun x => f (compare x s) := by
  intro x y h
  show f (compare x s) = f (compare y s)
  rw [congr_left h]

section Beginning

variable {β : Type} {p : β → Bool} {l : List β}

theorem filter_eq_nil_of_head {x : β} (h : (x :: l).Pairwise fun a b => p b = true → p a = true)
    (hx : p x = false) : l.filter p = [] := by
  rw [List.filter_eq_nil_iff]
  intro y hy hpy
  rw [(List.pairwise_cons.mp h).1 y hy hpy] at hx
  cases hx

theorem takeWhile_eq_filter (h : l.Pairwise fun a b => p b = true → p a = true) :
    l.takeWhile p = l.filter p := by
  induction l with
  | nil => rfl
  | cons x l ih =>
      cases hx : p x with
      | true =>
          rw [List.takeWhile_cons_of_pos hx, List.filter_cons_of_pos hx,
            ih (List.pairwise_cons.mp h).2]
      | false =>
          rw [List.takeWhile_cons_of_neg (by simp [hx]), List.filter_cons_of_neg (by simp [hx]),
            filter_eq_nil_of_head h hx]

theorem dropWhile_eq_filter (h : l.Pairwise fun a b => p b = true → p a = true) :
    l.dropWhile p = l.filter fun x => !p x := by
  induction l with
  | nil => rfl
  | cons x l ih =>
      cases hx : p x with
      | true =>
          rw [List.dropWhile_cons_of_pos hx, List.filter_cons_of_neg (by simp [hx]),
            ih (List.pairwise_cons.mp h).2]
      | false =>
          have hrest : l.filter (fun x => !p x) = l := List.filter_eq_self.mpr fun y hy => by
            have hy := List.filter_eq_nil_iff.mp (filter_eq_nil_of_head h hx) y hy
            simpa using hy
          rw [List.dropWhile_cons_of_neg (by simp [hx]), List.filter_cons_of_pos (by simp [hx]),
            hrest]

/-- What has the property of a beginning stands before what has a property that excludes it. -/
theorem filter_append_filter {q : β → Bool} (h : l.Pairwise fun a b => p b = true → p a = true)
    (hq : ∀ x ∈ l, p x = true → q x = false) :
    l.filter p ++ l.filter q = l.filter fun x => p x || q x := by
  induction l with
  | nil => rfl
  | cons x l ih =>
      cases hx : p x with
      | true =>
          have hqx := hq x List.mem_cons_self hx
          rw [List.filter_cons_of_pos hx, List.filter_cons_of_neg (by simp [hqx]),
            List.filter_cons_of_pos (by simp [hx]), List.cons_append,
            ih (List.pairwise_cons.mp h).2 fun y hy => hq y (List.mem_cons_of_mem x hy)]
      | false =>
          have hnil := filter_eq_nil_of_head h hx
          rw [List.filter_cons_of_neg (by simp [hx]), hnil, List.nil_append]
          refine List.filter_congr fun y hy => ?_
          rcases List.mem_cons.mp hy with rfl | hy
          · simp [hx]
          · simp [List.filter_eq_nil_iff.mp hnil y hy]

end Beginning

namespace Bucket

variable {p : α → Bool} {s : α} {b : Bucket α} {bs : List (Bucket α)}

omit [Ord α] in
theorem pairCount_filter_cons (p : α → Bool) (b : Bucket α) (bs : List (Bucket α)) :
    ScoreMap.pairCount ((b :: bs).filter fun b => p b.score) =
      (if p b.score then b.pairs.size else 0) +
        ScoreMap.pairCount (bs.filter fun b => p b.score) := by
  cases h : p b.score <;> simp [ScoreMap.pairCount, h]

theorem pairCount_filter_insertInto (hp : Uniform p) (s : α) (ps : Array (ScoredPair α))
    (bs : List (Bucket α)) :
    ScoreMap.pairCount ((insertInto s ps bs).filter fun b => p b.score) =
      ScoreMap.pairCount (bs.filter fun b => p b.score) + if p s then ps.size else 0 := by
  induction bs with
  | nil => exact (pairCount_filter_cons p ⟨s, ps⟩ []).trans (Nat.add_comm _ _)
  | cons b bs ih =>
      rw [insertInto]
      split
      case h_1 => rw [pairCount_filter_cons, Nat.add_comm]
      case h_2 heq =>
        -- The bucket keeps its own score, of which the property holds just if it does of `s`.
        rw [pairCount_filter_cons, pairCount_filter_cons, hp s b.score heq, Array.size_append]
        split <;> omega
      case h_3 => rw [pairCount_filter_cons, pairCount_filter_cons, ih, Nat.add_assoc]

/-! ## What is looked up -/

theorem Ascending.filter_isAt [TransOrd α] (h : Ascending bs) (s : α) :
    bs.filter (isAt s) = (bs.find? (isAt s)).toList := by
  induction bs with
  | nil => rfl
  | cons b bs ih =>
      obtain ⟨hb, hbs⟩ := List.pairwise_cons.mp h
      cases hat : isAt s b with
      | false => rw [List.filter_cons_of_neg (by simp [hat]), List.find?_cons, hat, ih hbs]
      | true =>
          have heq : compare b.score s = .eq := eq_of_beq hat
          -- The buckets behind lie above the score.
          have hrest : bs.filter (isAt s) = [] := by
            rw [List.filter_eq_nil_iff]
            intro c hc
            have hlt : compare s c.score = .lt := lt_of_eq_of_lt (eq_symm heq) (hb c hc)
            simp [isAt, gt_of_lt hlt]
          rw [List.filter_cons_of_pos hat, List.find?_cons, hat, hrest]
          rfl

theorem Ascending.isBelow_of_isBelow [TransOrd α] (h : Ascending bs) (s : α) :
    bs.Pairwise fun a b => isBelow s b = true → isBelow s a = true :=
  h.imp fun hab hb => beq_iff_eq.mpr (lt_trans hab (eq_of_beq hb))

theorem Ascending.takeWhile_isBelow [TransOrd α] (h : Ascending bs) (s : α) :
    bs.takeWhile (isBelow s) = bs.filter (isBelow s) :=
  takeWhile_eq_filter (h.isBelow_of_isBelow s)

theorem Ascending.dropWhile_isBelow [TransOrd α] (h : Ascending bs) (s : α) :
    bs.dropWhile (isBelow s) = bs.filter fun b => compare b.score s != .lt :=
  dropWhile_eq_filter (h.isBelow_of_isBelow s)

/-- There are not more buckets than there are things that have a score each, if every bucket has
the score of one of them. -/
theorem Ascending.length_le {β : Type} {R : α → β → Prop} {es : List β} (h : Ascending bs)
    (hfound : ∀ b ∈ bs, ∃ e ∈ es, R b.score e)
    (hequal : ∀ x y e, R x e → R y e → compare x y = .eq) :
    bs.length ≤ es.length := by
  -- Every bucket has a place among the things; one place has one score, and a bucket has its own.
  have hplace : ∀ i : Fin bs.length, ∃ j : Fin es.length, R (bs.get i).score (es.get j) := by
    intro i
    obtain ⟨e, he, hscore⟩ := hfound _ (bs.get_mem i)
    obtain ⟨j, rfl⟩ := List.get_of_mem he
    exact ⟨j, hscore⟩
  choose f hf using hplace
  have hlt := List.pairwise_iff_get.mp h
  have hdistinct : ∀ i j : Fin bs.length, i < j → f i ≠ f j := by
    intro i j hij hsame
    have heq := hequal _ _ _ (hf i) (hsame ▸ hf j)
    rw [hlt i j hij] at heq
    cases heq
  have hinjective : Function.Injective f := by
    intro i j hsame
    rcases lt_trichotomy i j with hij | hij | hij
    · exact absurd hsame (hdistinct i j hij)
    · exact hij
    · exact absurd hsame.symm (hdistinct j i hij)
  simpa using Fintype.card_le_of_injective f hinjective

end Bucket

namespace ScoreMap

variable {p : α → Bool} {names : List (String × String)}

/-- A property that equal scores share holds of as many pairs in the buckets as were inserted. -/
theorem pairCount_filter_ofList (hp : Uniform p) (ps : List (ScoredPair α)) :
    pairCount ((ofList names ps).buckets.filter fun b => p b.score) =
      ps.countP fun x => p x.score := by
  induction ps using List.reverseRecOn with
  | nil => rfl
  | append_singleton ps x ih =>
      rw [ofList_snoc, insert, Bucket.pairCount_filter_insertInto hp, ih, List.countP_append,
        List.countP_singleton]
      rfl

def countAt (m : ScoreMap α) (s : α) : Nat :=
  pairCount (m.browse s).at?.toList

theorem countAt_ofList [TransOrd α] (ps : List (ScoredPair α)) (s : α) :
    (ofList names ps).countAt s = ps.countP fun x => compare x.score s == .eq := by
  rw [← pairCount_filter_ofList (uniform_compare (· == .eq) s) ps, countAt, browse,
    ← (ascending_ofList ps).filter_isAt s]
  rfl

theorem countAtLeast_ofList [TransOrd α] (ps : List (ScoredPair α)) (cutoff : α) :
    (ofList names ps).countAtLeast cutoff =
      ps.countP fun x => compare x.score cutoff != .lt := by
  rw [← pairCount_filter_ofList (uniform_compare (· != .lt) cutoff) ps, countAtLeast, atLeast,
    (ascending_ofList ps).dropWhile_isBelow]

theorem exists_mem_of_bucket {ps : List (ScoredPair α)} {b : Bucket α}
    (h : b ∈ (ofList names ps).buckets) : ∃ p ∈ ps, b.score = p.score := by
  induction ps using List.reverseRecOn generalizing b with
  | nil => cases h
  | append_singleton ps p ih =>
      rw [ofList_snoc, insert] at h
      rcases Bucket.score_mem_insertInto h with hb | ⟨c, hc, hb⟩
      · exact ⟨p, List.mem_append_right _ List.mem_cons_self, hb⟩
      · obtain ⟨q, hq, hscore⟩ := ih hc
        exact ⟨q, List.mem_append_left _ hq, hb.trans hscore⟩

end ScoreMap

end Linkage
