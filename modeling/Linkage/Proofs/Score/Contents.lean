import Linkage.Proofs.Score.Buckets
import Linkage.Proofs.Score.Order

/-
# What a score map holds

A score map holds the pairs that were inserted, each in the bucket of its score, and each bucket
holds its pairs in the order in which they came.  All of this is about the pairs at one score: an
insertion adds to them at its own score and leaves them alone at any other.

A bucket is opened by its first pair and has the score of this pair from then on, whichever other
zero comes later.  So inserting a bucket is inserting its pairs, the first of which opens it where
there is none yet, and a merge comes down to insertions of single pairs.
-/

namespace Linkage

open Std (TransOrd)
open Std.OrientedCmp Std.TransCmp

variable {α : Type} [Ord α]

namespace Bucket

variable {s t : α} {b : Bucket α} {bs : List (Bucket α)}

/-! ## The pairs at a score -/

def pairsAt (t : α) (bs : List (Bucket α)) : List (ScoredPair α) :=
  (bs.filter (isAt t)).flatMap fun b => b.pairs.toList

theorem pairsAt_cons (t : α) (b : Bucket α) (bs : List (Bucket α)) :
    pairsAt t (b :: bs) = (if isAt t b then b.pairs.toList else []) ++ pairsAt t bs := by
  rw [pairsAt, pairsAt, List.filter_cons]
  split <;> simp

theorem pairsAt_eq_nil [TransOrd α] (h : ∀ b ∈ bs, compare t b.score = .lt) :
    pairsAt t bs = [] := by
  rw [pairsAt, List.filter_eq_nil_iff.mpr ?_, List.flatMap_nil]
  intro b hb
  simp [isAt, gt_of_lt (h b hb)]

theorem Ascending.pairsAt_score [TransOrd α] (h : Ascending bs) (hb : b ∈ bs) :
    pairsAt b.score bs = b.pairs.toList := by
  induction bs with
  | nil => cases hb
  | cons c bs ih =>
      obtain ⟨hc, hbs⟩ := List.pairwise_cons.mp h
      rw [pairsAt_cons]
      rcases List.mem_cons.mp hb with rfl | hb
      · have hat : isAt b.score b = true := by simp [isAt]
        rw [if_pos hat, pairsAt_eq_nil hc, List.append_nil]
      · have hnot : ¬ isAt b.score c = true := by simp [isAt, hc b hb]
        rw [if_neg hnot, List.nil_append, ih hbs hb]

/-- An insertion adds its pairs, at its score only. -/
theorem Ascending.pairsAt_insertInto [TransOrd α] (h : Ascending bs) (s t : α)
    (ps : Array (ScoredPair α)) : pairsAt t (Bucket.insertInto s ps bs) =
      pairsAt t bs ++ if compare s t == .eq then ps.toList else [] := by
  induction bs with
  | nil =>
      rw [Bucket.insertInto, pairsAt_cons, isAt]
      exact List.append_nil _
  | cons b bs ih =>
      obtain ⟨hb, hbs⟩ := List.pairwise_cons.mp h
      rw [Bucket.insertInto]
      split
      case h_1 hlt =>
        rw [pairsAt_cons, isAt]
        split
        case isTrue hst =>
          -- All other buckets lie above the new one.
          have hts : compare t s = .eq := eq_symm (eq_of_beq hst)
          have hnil : pairsAt t (b :: bs) = [] := pairsAt_eq_nil fun c hc => by
            rcases List.mem_cons.mp hc with rfl | hc
            · exact lt_of_eq_of_lt hts hlt
            · exact lt_of_eq_of_lt hts (lt_trans hlt (hb c hc))
          rw [hnil, List.append_nil, List.nil_append]
        case isFalse => rw [List.nil_append, List.append_nil]
      case h_2 heq =>
        have hsame : (compare s t == .eq) = isAt t b := by rw [isAt, congr_left heq]
        rw [pairsAt_cons, pairsAt_cons, hsame]
        cases hat : isAt t b with
        | false =>
            have hat' : isAt t ⟨b.score, b.pairs ++ ps⟩ = false := hat
            rw [hat']
            simp
        | true =>
            have hat' : isAt t ⟨b.score, b.pairs ++ ps⟩ = true := hat
            have hnil : pairsAt t bs = [] := pairsAt_eq_nil fun c hc =>
              lt_of_eq_of_lt (eq_symm (eq_of_beq hat)) (hb c hc)
            rw [hat', hnil]
            simp
      case h_3 => rw [pairsAt_cons, pairsAt_cons, ih hbs, List.append_assoc]

/-! ## All pairs -/

theorem flatMap_insertInto_perm (s : α) (ps : Array (ScoredPair α)) (bs : List (Bucket α)) :
    ((insertInto s ps bs).flatMap fun b => b.pairs.toList).Perm
      ((bs.flatMap fun b => b.pairs.toList) ++ ps.toList) := by
  induction bs with
  | nil => simp [insertInto]
  | cons b bs ih =>
      rw [insertInto]
      split
      case h_1 =>
        rw [List.flatMap_cons]
        exact List.perm_append_comm
      case h_2 =>
        rw [List.flatMap_cons, List.flatMap_cons, Array.toList_append, List.append_assoc,
          List.append_assoc]
        exact List.perm_append_comm.append_left _
      case h_3 =>
        rw [List.flatMap_cons, List.flatMap_cons, List.append_assoc]
        exact ih.append_left _

omit [Ord α] in
/-- What holds of a bucket just if it holds of its pairs picks the same pairs either way. -/
theorem filter_flatMap_pairs {q : α → Bool}
    (h : ∀ b ∈ bs, ∀ p ∈ b.pairs.toList, q p.score = q b.score) :
    (bs.flatMap fun b => b.pairs.toList).filter (fun p => q p.score) =
      (bs.filter fun b => q b.score).flatMap fun b => b.pairs.toList := by
  induction bs with
  | nil => rfl
  | cons b bs ih =>
      have hb := h b List.mem_cons_self
      rw [List.flatMap_cons, List.filter_append, ih fun c hc => h c (List.mem_cons_of_mem b hc),
        List.filter_cons]
      split
      case isTrue hqb =>
        have hall : b.pairs.toList.filter (fun p => q p.score) = b.pairs.toList :=
          List.filter_eq_self.mpr fun p hp => (hb p hp).trans hqb
        rw [hall, List.flatMap_cons]
      case isFalse hqb =>
        have hnone : b.pairs.toList.filter (fun p => q p.score) = [] :=
          List.filter_eq_nil_iff.mpr fun p hp => by rwa [hb p hp]
        rw [hnone, List.nil_append]

/-! ## Buckets that are opened and go on -/

/-- A bucket has the score of its first pair, not only an equal one. -/
def Opened (b : Bucket α) : Prop :=
  b.pairs.toList.head?.map ScoredPair.score = some b.score

omit [Ord α] in
theorem Opened.exists_cons (h : b.Opened) :
    ∃ p ps, b.pairs.toList = p :: ps ∧ p.score = b.score := by
  rw [Opened] at h
  cases hpairs : b.pairs.toList with
  | nil =>
      rw [hpairs] at h
      cases h
  | cons p ps =>
      rw [hpairs] at h
      exact ⟨p, ps, rfl, Option.some.inj h⟩

theorem opened_of_mem_insertInto {p : ScoredPair α} (h : ∀ b ∈ bs, b.Opened)
    (hb : b ∈ insertInto p.score #[p] bs) : b.Opened := by
  induction bs with
  | nil =>
      rw [List.mem_singleton.mp hb]
      rfl
  | cons c bs ih =>
      have hc := h c List.mem_cons_self
      have hbs := fun b hb => h b (List.mem_cons_of_mem c hb)
      rw [insertInto] at hb
      split at hb
      case h_1 =>
        rcases List.mem_cons.mp hb with rfl | hb
        · rfl
        · exact h b hb
      case h_2 =>
        rcases List.mem_cons.mp hb with rfl | hb
        · obtain ⟨q, qs, hpairs, hscore⟩ := hc.exists_cons
          simp [Opened, hpairs, hscore]
        · exact hbs b hb
      case h_3 =>
        rcases List.mem_cons.mp hb with rfl | hb
        · exact hc
        · exact ih hbs hb

/-- All buckets are still there, with the scores they had and with their pairs before any others. -/
def Kept (old new : List (Bucket α)) : Prop :=
  ∀ b ∈ old, ∃ c ∈ new, c.score = b.score ∧ b.pairs.toList <+: c.pairs.toList

omit [Ord α] in
theorem Kept.refl (bs : List (Bucket α)) : Kept bs bs :=
  fun b hb => ⟨b, hb, rfl, List.prefix_rfl⟩

omit [Ord α] in
theorem Kept.trans {cs ds : List (Bucket α)} (h : Kept bs cs) (h' : Kept cs ds) : Kept bs ds := by
  intro b hb
  obtain ⟨c, hc, hscore, hprefix⟩ := h b hb
  obtain ⟨d, hd, hscore', hprefix'⟩ := h' c hc
  exact ⟨d, hd, hscore'.trans hscore, hprefix.trans hprefix'⟩

theorem kept_insertInto (s : α) (ps : Array (ScoredPair α)) (bs : List (Bucket α)) :
    Kept bs (insertInto s ps bs) := by
  induction bs with
  | nil => exact nofun
  | cons c bs ih =>
      intro b hb
      rw [insertInto]
      split
      case h_1 => exact ⟨b, List.mem_cons_of_mem _ hb, rfl, List.prefix_rfl⟩
      case h_2 =>
        rcases List.mem_cons.mp hb with rfl | hb
        · refine ⟨_, List.mem_cons_self, rfl, ?_⟩
          rw [Array.toList_append]
          exact List.prefix_append _ _
        · exact ⟨b, List.mem_cons_of_mem _ hb, rfl, List.prefix_rfl⟩
      case h_3 =>
        rcases List.mem_cons.mp hb with rfl | hb
        · exact ⟨b, List.mem_cons_self, rfl, List.prefix_rfl⟩
        · obtain ⟨d, hd, hkept⟩ := ih b hb
          exact ⟨d, List.mem_cons_of_mem _ hd, hkept⟩

end Bucket

namespace ScoreMap

variable {names names' : List (String × String)} {b : Bucket α} {ps qs : List (ScoredPair α)}

/-! ## Maps from lists of pairs -/

theorem pairsAt_ofList [TransOrd α] (ps : List (ScoredPair α)) (t : α) :
    Bucket.pairsAt t (ofList names ps).buckets = ps.filter fun p => compare p.score t == .eq := by
  induction ps using List.reverseRecOn with
  | nil => rfl
  | append_singleton ps p ih =>
      rw [ofList_snoc, insert, (ascending_ofList ps).pairsAt_insertInto, ih, List.filter_append,
        List.filter_singleton, Bool.cond_eq_ite]

theorem pairs_eq_filter [TransOrd α] (hb : b ∈ (ofList names ps).buckets) :
    b.pairs.toList = ps.filter fun p => compare p.score b.score == .eq := by
  rw [← (ascending_ofList ps).pairsAt_score hb, pairsAt_ofList]

theorem opened_of_mem_ofList (hb : b ∈ (ofList names ps).buckets) : b.Opened := by
  induction ps using List.reverseRecOn generalizing b with
  | nil => cases hb
  | append_singleton ps p ih =>
      rw [ofList_snoc] at hb
      exact Bucket.opened_of_mem_insertInto (fun b hb => ih hb) hb

theorem occupied_ofList : ∀ b ∈ (ofList names ps).buckets, b.pairs.toList ≠ [] := by
  intro b hb
  obtain ⟨p, rest, hpairs, -⟩ := (opened_of_mem_ofList hb).exists_cons
  rw [hpairs]
  exact List.cons_ne_nil p rest

theorem toList_ofList_perm (ps : List (ScoredPair α)) : (ofList names ps).toList.Perm ps := by
  induction ps using List.reverseRecOn with
  | nil => exact .nil
  | append_singleton ps p ih =>
      rw [ofList_snoc]
      exact (Bucket.flatMap_insertInto_perm _ _ _).trans (ih.append_right _)

theorem filter_toList_ofList [TransOrd α] {q : α → Bool} (hq : Uniform q) :
    (ofList names ps).toList.filter (fun p => q p.score) =
      ((ofList names ps).buckets.filter fun b => q b.score).flatMap fun b => b.pairs.toList := by
  refine Bucket.filter_flatMap_pairs fun b hb p hp => ?_
  rw [pairs_eq_filter hb] at hp
  exact hq _ _ (eq_of_beq (List.mem_filter.mp hp).2)

theorem isEmpty_ofList_iff : (ofList names ps).isEmpty = true ↔ (ofList names ps).buckets = [] := by
  have hsize : (ofList names ps).isEmpty = (ps.length == 0) := by rw [isEmpty, size_ofList]
  rw [hsize, beq_iff_eq, List.length_eq_zero_iff]
  constructor
  · rintro rfl
    rfl
  · exact eq_nil_of_buckets_ofList

/-! ## Merging is inserting pairs -/

/-- Pairs at the score of a bucket are inserted into it one by one. -/
theorem foldl_insert_insertInto [TransOrd α] {s : α} (h : ∀ q ∈ qs, compare q.score s = .eq)
    (fieldNames : List (String × String)) (ps : Array (ScoredPair α)) (bs : List (Bucket α))
    (size : Nat) : qs.foldl insert ⟨fieldNames, Bucket.insertInto s ps bs, size⟩ =
      ⟨fieldNames, Bucket.insertInto s (ps ++ qs) bs, size + qs.length⟩ := by
  induction qs generalizing ps size with
  | nil => simp
  | cons q qs ih =>
      have hq := h q List.mem_cons_self
      have hqs := fun p hp => h p (List.mem_cons_of_mem q hp)
      rw [List.foldl_cons, insert, Bucket.insertInto_insertInto hq, ih hqs]
      simp only [List.length_cons, ScoreMap.mk.injEq, true_and]
      refine ⟨?_, by omega⟩
      simp

/-- A bucket is inserted by its pairs, the first of which may open it. -/
theorem foldl_insert_pairs [TransOrd α] (m : ScoreMap α) (hopened : b.Opened)
    (hown : ∀ p ∈ b.pairs.toList, compare p.score b.score = .eq) :
    b.pairs.toList.foldl insert m = m.insertBucket b := by
  obtain ⟨p, ps, hpairs, hscore⟩ := hopened.exists_cons
  have hps : ∀ q ∈ ps, compare q.score b.score = .eq := fun q hq =>
    hown q (by rw [hpairs]; exact List.mem_cons_of_mem p hq)
  have hall : #[p] ++ ps = b.pairs := by rw [← Array.toList_inj, hpairs]; simp
  have hlength : m.size + 1 + ps.length = m.size + b.pairs.size := by
    rw [← Array.length_toList, hpairs, List.length_cons]
    omega
  rw [hpairs, List.foldl_cons, insert, hscore, foldl_insert_insertInto hps, hall, hlength]
  rfl

/-- A merge inserts the pairs of the other map, from its lowest bucket up. -/
theorem merge_eq_foldl_insert [TransOrd α] (ps qs : List (ScoredPair α)) :
    (ofList names ps).merge (ofList names' qs) =
      (ofList names' qs).toList.foldl insert (ofList names ps) := by
  rw [merge_ofList, ← @foldl_insertBucket_ofList _ _ names names', toList, List.foldl_flatMap]
  refine List.foldl_ext _ _ _ fun m b hb => (foldl_insert_pairs m (opened_of_mem_ofList hb) ?_).symm
  intro p hp
  rw [pairs_eq_filter hb] at hp
  exact eq_of_beq (List.mem_filter.mp hp).2

theorem kept_foldl_insert (m : ScoreMap α) (ps : List (ScoredPair α)) :
    Bucket.Kept m.buckets (ps.foldl insert m).buckets := by
  induction ps generalizing m with
  | nil => exact .refl _
  | cons p ps ih => exact (Bucket.kept_insertInto _ _ _).trans (ih (m.insert p))

/-! ## Well-formed score maps -/

/-- A score map that is well-formed: the scores of its buckets ascend, each bucket has the score of
the pair that opened it and holds pairs of an equal score only, and the pairs are counted. -/
structure Proper (m : ScoreMap Float) : Prop where
  ascending : m.buckets.Pairwise fun a b => Score.below a.score b.score = true
  occupied : ∀ b ∈ m.buckets, b.pairs.toList ≠ []
  opened : ∀ b ∈ m.buckets, b.pairs.toList.head?.map ScoredPair.score = some b.score
  own : ∀ b ∈ m.buckets, ∀ p ∈ b.pairs.toList, Score.same p.score b.score = true
  size_eq : m.size = (m.buckets.map fun b => b.pairs.toList.length).sum
  isEmpty_iff : m.isEmpty = true ↔ m.buckets = []

theorem proper_ofList (names : List (String × String)) (ps : List (ScoredPair Float)) :
    (ofList names ps).Proper where
  ascending := (ascending_ofList ps).imp fun h => by
    rw [← Score.compare_eq_lt, h]
    rfl
  occupied := occupied_ofList
  opened _ hb := opened_of_mem_ofList hb
  own b hb p hp := by
    rw [pairs_eq_filter hb] at hp
    rw [← Score.compare_eq_eq]
    exact (List.mem_filter.mp hp).2
  size_eq := by
    rw [size_ofList, ← @pairCount_ofList _ _ names, pairCount]
    rfl
  isEmpty_iff := isEmpty_ofList_iff

end ScoreMap

end Linkage
