import Linkage.Score.ScoreMap
import Mathlib.Data.List.Induction

/-
# Merging score maps is appending their pairs

A score map is built by insertions, and what matters about one is only where it goes: two insertions
at one score are one insertion of both arrays, and insertions at different scores commute.  With
these two facts a merge is pushed through the insertions that built the other map, and comes out as
the insertion of its pairs, one by one.

The bucket that is merged in is inserted by *its* score, which may be another zero than that of the
first bucket there.  This does no harm: an insertion into a bucket that is open never looks at its
score again.
-/

namespace Linkage

/-- Doubles as scores are ordered by their rank. -/
instance transOrdFloat : Std.TransOrd Float :=
  inferInstanceAs (Std.TransCmp (compareOn Score.rank))

open Std (TransOrd)
open Std.OrientedCmp Std.TransCmp

variable {α : Type} [Ord α]

namespace Bucket

/-- Buckets in strictly ascending order of their scores. -/
def Ascending (bs : List (Bucket α)) : Prop :=
  bs.Pairwise fun a b => compare a.score b.score = .lt

/-! ## Insertions -/

variable {s t : α} {ps qs : Array (ScoredPair α)} {bs : List (Bucket α)}

theorem score_mem_insertInto {b : Bucket α} (h : b ∈ insertInto s ps bs) :
    b.score = s ∨ ∃ c ∈ bs, b.score = c.score := by
  induction bs with
  | nil => exact .inl (by rw [List.mem_singleton.mp h])
  | cons c bs ih =>
      rw [insertInto] at h
      split at h
      · rcases List.mem_cons.mp h with rfl | h
        · exact .inl rfl
        · exact .inr ⟨b, h, rfl⟩
      · rcases List.mem_cons.mp h with rfl | h
        · exact .inr ⟨c, List.mem_cons_self, rfl⟩
        · exact .inr ⟨b, List.mem_cons_of_mem _ h, rfl⟩
      · rcases List.mem_cons.mp h with rfl | h
        · exact .inr ⟨b, List.mem_cons_self, rfl⟩
        · rcases ih h with h | ⟨d, hd, h⟩
          · exact .inl h
          · exact .inr ⟨d, List.mem_cons_of_mem _ hd, h⟩

theorem Ascending.insertInto [TransOrd α] (h : Ascending bs) (s : α)
    (ps : Array (ScoredPair α)) : Ascending (insertInto s ps bs) := by
  induction bs with
  | nil => exact List.pairwise_singleton _ _
  | cons b bs ih =>
      obtain ⟨hb, hbs⟩ := List.pairwise_cons.mp h
      rw [Bucket.insertInto]
      split
      case h_1 hlt =>
        refine List.pairwise_cons.mpr ⟨fun c hc => ?_, h⟩
        rcases List.mem_cons.mp hc with rfl | hc
        · exact hlt
        · exact lt_trans hlt (hb c hc)
      case h_2 => exact List.pairwise_cons.mpr ⟨hb, hbs⟩
      case h_3 hgt =>
        refine List.pairwise_cons.mpr ⟨fun c hc => ?_, ih hbs⟩
        rcases score_mem_insertInto hc with hs | ⟨d, hd, hs⟩
        · rw [hs]; exact lt_of_gt hgt
        · rw [hs]; exact hb d hd

theorem insertInto_insertInto [TransOrd α] (h : compare t s = .eq) :
    insertInto t qs (insertInto s ps bs) = insertInto s (ps ++ qs) bs := by
  induction bs with
  | nil => simp [insertInto, h]
  | cons b bs ih =>
      have hb : compare t b.score = compare s b.score := congr_left h
      cases hs : compare s b.score <;> simp [insertInto, hs, hb, h, ih]

theorem insertInto_comm [TransOrd α] (h : compare s t ≠ .eq) :
    insertInto s ps (insertInto t qs bs) = insertInto t qs (insertInto s ps bs) := by
  induction bs with
  | nil =>
      cases hst : compare s t with
      | lt => simp [insertInto, hst, gt_of_lt hst]
      | eq => exact absurd hst h
      | gt => simp [insertInto, hst, lt_of_gt hst]
  | cons b bs ih =>
      cases hs : compare s b.score <;> cases ht : compare t b.score
      case lt.lt =>
        cases hst : compare s t with
        | lt => simp [insertInto, hs, ht, hst, gt_of_lt hst]
        | eq => exact absurd hst h
        | gt => simp [insertInto, hs, ht, hst, lt_of_gt hst]
      case eq.eq => exact absurd (eq_trans hs (eq_symm ht)) h
      case gt.gt => simp [insertInto, hs, ht, ih]
      case lt.eq =>
        have hts : compare t s = .gt := gt_of_eq_of_gt ht (gt_of_lt hs)
        simp [insertInto, hs, ht, hts]
      case lt.gt =>
        have hts : compare t s = .gt := gt_trans ht (gt_of_lt hs)
        simp [insertInto, hs, ht, hts]
      case eq.lt =>
        have hst : compare s t = .gt := gt_of_eq_of_gt hs (gt_of_lt ht)
        simp [insertInto, hs, ht, hst]
      case gt.lt =>
        have hst : compare s t = .gt := gt_trans hs (gt_of_lt ht)
        simp [insertInto, hs, ht, hst]
      case eq.gt => simp [insertInto, hs, ht]
      case gt.eq => simp [insertInto, hs, ht]

theorem pairCount_insertInto :
    ScoreMap.pairCount (insertInto s ps bs) = ScoreMap.pairCount bs + ps.size := by
  induction bs with
  | nil => simp [insertInto, ScoreMap.pairCount]
  | cons b bs ih =>
      rw [insertInto]
      simp only [ScoreMap.pairCount] at ih ⊢
      split <;> simp only [List.map_cons, List.foldr_cons, Array.size_append, ih] <;> omega

/-! ## Insertions of many buckets -/

def insertAll (bs new : List (Bucket α)) : List (Bucket α) :=
  new.foldl (fun bs b => insertInto b.score b.pairs bs) bs

/-- An insertion can be put off until buckets with other scores have been inserted. -/
theorem insertAll_insertInto [TransOrd α] {new : List (Bucket α)}
    (h : ∀ b ∈ new, compare s b.score ≠ .eq) :
    insertAll (insertInto s ps bs) new = insertInto s ps (insertAll bs new) := by
  induction new generalizing bs with
  | nil => rfl
  | cons b new ih =>
      have hb : compare b.score s ≠ .eq := fun heq => h b List.mem_cons_self (eq_symm heq)
      simp only [insertAll, List.foldl_cons] at ih ⊢
      rw [insertInto_comm hb]
      exact ih fun c hc => h c (List.mem_cons_of_mem _ hc)

theorem insertAll_of_insertInto [TransOrd α] {new : List (Bucket α)} (h : Ascending new) :
    insertAll bs (insertInto s ps new) = insertInto s ps (insertAll bs new) := by
  induction new generalizing bs with
  | nil => rfl
  | cons b new ih =>
      obtain ⟨hb, hnew⟩ := List.pairwise_cons.mp h
      cases hs : compare s b.score with
      | lt =>
          have hne : ∀ c ∈ b :: new, compare s c.score ≠ .eq := by
            intro c hc
            rcases List.mem_cons.mp hc with rfl | hc
            · simp [hs]
            · simp [lt_trans hs (hb c hc)]
          simp only [insertInto, hs]
          exact insertAll_insertInto hne
      | eq =>
          have hne : ∀ c ∈ new, compare s c.score ≠ .eq := by
            intro c hc
            simp [lt_of_eq_of_lt hs (hb c hc)]
          simp only [insertInto, hs, insertAll, List.foldl_cons]
          rw [← insertInto_insertInto hs]
          exact insertAll_insertInto hne
      | gt =>
          simp only [insertInto, hs, insertAll, List.foldl_cons]
          exact ih hnew

end Bucket

namespace ScoreMap

/-! ## Maps from lists of pairs -/

/-- The map of some pairs, inserted in order. -/
def ofList (fieldNames : List (String × String)) (ps : List (ScoredPair α)) : ScoreMap α :=
  ps.foldl insert (empty fieldNames)

variable {names names' : List (String × String)}

theorem ofList_snoc (ps : List (ScoredPair α)) (p : ScoredPair α) :
    ofList names (ps ++ [p]) = (ofList names ps).insert p := by
  simp [ofList]

theorem fieldNames_ofList (ps : List (ScoredPair α)) : (ofList names ps).fieldNames = names := by
  induction ps using List.reverseRecOn with
  | nil => rfl
  | append_singleton ps p ih => rw [ofList_snoc]; exact ih

/-- The names of the fields have no part in the buckets. -/
theorem mk_ofList (ps : List (ScoredPair α)) :
    ⟨names, (ofList names' ps).buckets, (ofList names' ps).size⟩ = ofList names ps := by
  induction ps using List.reverseRecOn with
  | nil => rfl
  | append_singleton ps p ih =>
      rw [ofList_snoc, ofList_snoc, ← ih]
      rfl

theorem size_ofList (ps : List (ScoredPair α)) : (ofList names ps).size = ps.length := by
  induction ps using List.reverseRecOn with
  | nil => rfl
  | append_singleton ps p ih =>
      rw [ofList_snoc, insert, ih, List.length_append, List.length_singleton]

theorem pairCount_ofList (ps : List (ScoredPair α)) :
    pairCount (ofList names ps).buckets = ps.length := by
  induction ps using List.reverseRecOn with
  | nil => rfl
  | append_singleton ps p ih =>
      rw [ofList_snoc, insert, Bucket.pairCount_insertInto, ih]
      simp

theorem ascending_ofList [TransOrd α] (ps : List (ScoredPair α)) :
    Bucket.Ascending (ofList names ps).buckets := by
  induction ps using List.reverseRecOn with
  | nil => exact List.Pairwise.nil
  | append_singleton ps p ih =>
      rw [ofList_snoc]
      exact ih.insertInto _ _

theorem eq_nil_of_buckets_ofList {ps : List (ScoredPair α)}
    (h : (ofList names ps).buckets = []) : ps = [] := by
  have hlen : ps.length = 0 := by rw [← @pairCount_ofList _ _ names, h]; rfl
  exact List.eq_nil_of_length_eq_zero hlen

/-! ## Merging -/

theorem insertAll_ofList [TransOrd α] (ps qs : List (ScoredPair α)) :
    Bucket.insertAll (ofList names ps).buckets (ofList names' qs).buckets =
      (ofList names (ps ++ qs)).buckets := by
  induction qs using List.reverseRecOn with
  | nil => rw [List.append_nil]; rfl
  | append_singleton qs q ih =>
      rw [ofList_snoc, ← List.append_assoc, ofList_snoc, insert, insert]
      exact (Bucket.insertAll_of_insertInto (ascending_ofList qs)).trans (by rw [ih])

theorem foldl_insertBucket (m : ScoreMap α) (bs : List (Bucket α)) :
    bs.foldl insertBucket m =
      ⟨m.fieldNames, Bucket.insertAll m.buckets bs, m.size + pairCount bs⟩ := by
  induction bs generalizing m with
  | nil => rfl
  | cons b bs ih =>
      rw [List.foldl_cons, ih]
      simp [insertBucket, Bucket.insertAll, pairCount, Nat.add_assoc]

/-- Inserting the buckets of a map is inserting the pairs it was built from. -/
theorem foldl_insertBucket_ofList [TransOrd α] (ps qs : List (ScoredPair α)) :
    (ofList names' qs).buckets.foldl insertBucket (ofList names ps) = ofList names (ps ++ qs) := by
  have hbuckets := @insertAll_ofList _ _ names names' _ ps qs
  have hsize : (ofList names ps).size + pairCount (ofList names' qs).buckets =
      (ofList names (ps ++ qs)).size := by
    rw [size_ofList, pairCount_ofList, size_ofList, List.length_append]
  rw [foldl_insertBucket, hbuckets, hsize, fieldNames_ofList, mk_ofList]

/-- Merging two maps gives the map of the pairs of both, the first ones first: bucket by bucket, with
the same scores for keys. -/
theorem merge_ofList [TransOrd α] (ps qs : List (ScoredPair α)) :
    (ofList names ps).merge (ofList names' qs) = ofList names (ps ++ qs) := by
  rw [merge]
  split
  case isTrue h =>
    -- The first map holds no pairs, so that the buckets taken over are all there are.
    obtain rfl := eq_nil_of_buckets_ofList (List.isEmpty_iff.mp h.2)
    rw [List.nil_append, fieldNames_ofList, mk_ofList]
  case isFalse => exact foldl_insertBucket_ofList ps qs

end ScoreMap

end Linkage
