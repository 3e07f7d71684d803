import Linkage.Proofs.Join.Tally
import Linkage.Proofs.Mixture.Scoring
import Linkage.Proofs.Score.Buckets
import Linkage.Proofs.Score.Matching

/-
# Counting and matching see the same pairs

A tally counts the blocked pairs by the number of their pattern, a score map holds them by their
score.  Both traverse the pairs in one order, and a pair has a score just if it has a number, which
is then what the number scores.  So the two traversals are alike: they fail with one failure, or
they end with a list of numbers and a list of scored pairs of which the one scores the other, place
by place.  What is left is to count such lists.
-/

namespace Linkage

open Traversal (Alike)

namespace Model

variable {α : Type} [Arithmetic α] {c : RecordComparator} {m : Model α}

/-- A scored pair has the score of a pattern number. -/
def Scores (m : Model α) (p : ScoredPair α) (i : Nat) : Prop :=
  m.scoreIndex i = .ok p.score

/-- A pair is scored just if it is numbered. -/
theorem Shaped.alike_scored (hm : m.Shaped c) (hc : c.Numbered) (pair : Record × Record) :
    Alike m.Scores (m.scored pair) (c.indexOf pair) := by
  rw [scored, hm.score_eq hc]
  cases hi : c.indexOf pair with
  | error e =>
      rw [RecordComparator.indexOf] at hi
      rw [hi]
      exact .error e
  | ok i =>
      obtain ⟨x, hx⟩ := hm.scoreIndex_eq_ok hc (hc.indexOf_lt hi)
      rw [RecordComparator.indexOf] at hi
      simp only [hi, bind, Except.bind, hx]
      exact .ok hx

/-- A score map and a tally that come from scored pairs and their numbers, place by place. -/
def Counted [Ord α] (m : Model α) (c : RecordComparator) (scores : ScoreMap α) (t : Tally) : Prop :=
  ∃ (ps : List (ScoredPair α)) (is : List Nat), List.Forall₂ m.Scores ps is ∧
    scores = ScoreMap.ofList c.fieldNames ps ∧ t = Tally.ofIndices c is

theorem Shaped.alike_matchSequential [Ord α] (hm : m.Shaped c) (hc : c.Numbered)
    (left right : List Record) :
    Alike (m.Counted c) (m.matchSequential (.ofRecords left) right) (tally c left right) := by
  rw [matchSequential_eq, tally_eq hc, hm.comparator]
  refine Alike.map (Alike.mapM fun pair _ => hm.alike_scored hc pair) ?_
  intro ps is h
  exact ⟨ps, is, h, rfl, rfl⟩

theorem Shaped.counted [Ord α] (hm : m.Shaped c) (hc : c.Numbered) {left right : List Record}
    {scores : ScoreMap α} {t : Tally}
    (hscores : m.matchSequential (.ofRecords left) right = .ok scores)
    (ht : tally c left right = .ok t) : m.Counted c scores t := by
  have halike := hm.alike_matchSequential hc left right
  rw [hscores, ht] at halike
  cases halike with
  | ok h => exact h

theorem Shaped.exists_score_of_tally (hm : m.Shaped c) (hc : c.Numbered) {left right : List Record}
    {t : Tally} (ht : tally c left right = .ok t) {pair : Record × Record}
    (hpair : pair ∈ (BlockIndex.ofRecords left).pairs right) :
    ∃ x, m.score pair.1 pair.2 = .ok x := by
  obtain ⟨is, his, -⟩ := tally_eq_ok hc ht
  obtain ⟨i, hi⟩ := Traversal.exists_of_mapM_eq_ok his hpair
  obtain ⟨x, hx⟩ := hm.scoreIndex_eq_ok hc (hc.indexOf_lt hi)
  refine ⟨x, ?_⟩
  rw [hm.score_eq hc]
  exact (Traversal.bind_of_ok hi).trans hx

/-! ## What both count -/

section Counted

variable [Ord α] {scores : ScoreMap α} {t : Tally}

theorem Counted.size_eq (h : m.Counted c scores t) : scores.size = t.total := by
  obtain ⟨ps, is, hscores, rfl, rfl⟩ := h
  rw [ScoreMap.size_ofList, Tally.total_ofIndices]
  exact hscores.length_eq

theorem Counted.exists_score (h : m.Counted c scores t) {e : Tally.Entry} (he : e ∈ t.entries) :
    ∃ x, m.scoreIndex e.index = .ok x := by
  obtain ⟨ps, is, hscores, rfl, rfl⟩ := h
  have hindex := Tally.index_mem_of_mem_ofIndices he
  obtain ⟨k, hk, hat⟩ := List.getElem_of_mem hindex
  obtain ⟨hlen, hget⟩ := List.forall₂_iff_get.mp hscores
  have hscore := hget k (hlen ▸ hk) hk
  rw [List.get_eq_getElem, List.get_eq_getElem, Scores, hat] at hscore
  exact ⟨_, hscore⟩

def hasScore (m : Model α) (s : α) (i : Nat) : Bool :=
  match m.scoreIndex i with
  | .ok x => compare x s == .eq
  | .error _ => false

theorem Scores.hasScore_eq {p : ScoredPair α} {i : Nat} (h : m.Scores p i) (s : α) :
    m.hasScore s i = (compare p.score s == .eq) := by
  rw [hasScore, h]

theorem countP_eq_of_scores {ps : List (ScoredPair α)} {is : List Nat}
    (h : List.Forall₂ m.Scores ps is) (s : α) :
    ps.countP (fun p => compare p.score s == .eq) = is.countP (m.hasScore s) := by
  induction h with
  | nil => rfl
  | cons hscore _ ih => rw [List.countP_cons, List.countP_cons, ih, hscore.hasScore_eq]

/-- The bucket of a score holds what the tally counts under the patterns with this score. -/
theorem Counted.countAt_eq [Std.TransOrd α] (h : m.Counted c scores t) (s : α) :
    scores.countAt s = t.countOfAll fun e => m.hasScore s e.index := by
  obtain ⟨ps, is, hscores, rfl, rfl⟩ := h
  rw [ScoreMap.countAt_ofList, Tally.countOfAll_ofIndices, countP_eq_of_scores hscores]

theorem Counted.scoreCount_le [Std.TransOrd α] (h : m.Counted c scores t) :
    scores.scoreCount ≤ t.size := by
  obtain ⟨ps, is, hscores, rfl, rfl⟩ := h
  refine (ScoreMap.ascending_ofList ps).length_le
    (R := fun x e => ∃ y, m.scoreIndex e.index = .ok y ∧ compare x y = .eq) ?_ ?_
  · intro b hb
    obtain ⟨p, hp, hscore⟩ := ScoreMap.exists_mem_of_bucket hb
    obtain ⟨k, hk, rfl⟩ := List.getElem_of_mem hp
    obtain ⟨hlen, hget⟩ := List.forall₂_iff_get.mp hscores
    obtain ⟨e, he, hindex, -⟩ :=
      Tally.exists_entry_ofIndices c (List.getElem_mem (hlen ▸ hk))
    refine ⟨e, he, ps[k].score, ?_, ?_⟩
    · rw [hindex]
      exact hget k hk (hlen ▸ hk)
    · rw [hscore]
      exact Std.ReflCmp.compare_self
  · rintro x y e ⟨z, hz, hxz⟩ ⟨w, hw, hyw⟩
    obtain rfl := Except.ok.inj (hz.symm.trans hw)
    exact Std.TransCmp.eq_trans hxz (Std.OrientedCmp.eq_symm hyw)

end Counted

/-! ## The pairs from a score on -/

section Reaching

variable [Ord α]

def reaches (m : Model α) (cutoff : α) (pair : Record × Record) : Bool :=
  match m.score pair.1 pair.2 with
  | .ok x => compare x cutoff != .lt
  | .error _ => false

theorem countP_reaches {pairs : List (Record × Record)} {ps : List (ScoredPair α)}
    (h : pairs.mapM m.scored = .ok ps) (cutoff : α) :
    ps.countP (fun p => compare p.score cutoff != .lt) = pairs.countP (m.reaches cutoff) := by
  have hscored := Traversal.mapM_eq_ok_iff.mp h
  clear h
  induction hscored with
  | nil => rfl
  | cons hpair _ ih =>
      obtain ⟨x, hx, heq⟩ := Traversal.bind_eq_ok_iff.mp hpair
      obtain rfl := Except.ok.inj heq
      rw [List.countP_cons, List.countP_cons, ih, reaches, hx]

theorem countAtLeast_of_matchSequential [Std.TransOrd α] {index : BlockIndex} {right : List Record}
    {scores : ScoreMap α} (h : m.matchSequential index right = .ok scores) (cutoff : α) :
    scores.countAtLeast cutoff = (index.pairs right).countP (m.reaches cutoff) := by
  rw [matchSequential_eq] at h
  obtain ⟨ps, hps, rfl⟩ := Traversal.map_eq_ok_iff.mp h
  rw [ScoreMap.countAtLeast_ofList, countP_reaches hps]

end Reaching

/-- Counting and matching in sequence see the same pairs.  They fail alike; and otherwise the bucket
of every score holds as many pairs as were counted under the patterns with this score, each of the
patterns has a score, there are as many pairs as were counted, and not more scores than patterns. -/
theorem matchSequential_agrees_tally [Ord α] [Std.TransOrd α] {serial : Nat}
    {bindings : List Binding} {handleBlanks : Bool}
    (hmake : RecordComparator.make serial bindings handleBlanks = .ok c) (hm : m.Over c)
    (left right : List Record) :
    (∀ e, m.matchSequential (.ofRecords left) right = .error e ↔ tally c left right = .error e) ∧
    ∀ scores t, m.matchSequential (.ofRecords left) right = .ok scores →
      tally c left right = .ok t →
        (∀ s, scores.countAt s = t.countOfAll fun e => m.hasScore s e.index) ∧
        (∀ e ∈ t.entries, ∃ x, m.scoreIndex e.index = .ok x) ∧
        scores.size = t.total ∧ scores.scoreCount ≤ t.size := by
  have hc := RecordComparator.numbered_of_make hmake
  refine ⟨(hm.shaped.alike_matchSequential hc left right).error_iff, ?_⟩
  intro scores t hscores ht
  have hcounted := hm.shaped.counted hc hscores ht
  exact ⟨hcounted.countAt_eq, fun _ he => hcounted.exists_score he, hcounted.size_eq,
    hcounted.scoreCount_le⟩

/-! ### A household -/

/-- A household of two people, and another one. -/
def residents : List Record :=
  [person "1" "5" "n" "0", person "1" "5" "m" "1", person "2" "6" "n" "2"]

/-- A person of the first household. -/
def visitors : List Record :=
  [person "1" "5" "n" "3"]

/-- The visitor agrees with one person in age and name, and with the other in age. -/
def encounters : Tally :=
  ⟨ageAndName, [⟨1, [1, 0], 1⟩, ⟨3, [1, 1], 1⟩]⟩

theorem tally_residents : tally ageAndName residents visitors = .ok encounters := rfl

/-- Both pairs of the first household have a score, and these are the scores of their patterns. -/
theorem matchSequential_agrees_encounters :
    RecordComparator.make 0 ageAndName.bindings false = .ok ageAndName ∧
      evenModel.Over ageAndName ∧
      ∃ scores, evenModel.matchSequential (.ofRecords residents) visitors = .ok scores ∧
        (∀ s, scores.countAt s = encounters.countOfAll fun e => evenModel.hasScore s e.index) ∧
        scores.size = 2 ∧ scores.scoreCount ≤ 2 := by
  have hmake : RecordComparator.make 0 ageAndName.bindings false = .ok ageAndName := rfl
  have hm : evenModel.Over ageAndName := .make make_evenModel
  obtain ⟨hfails, hcounts⟩ := matchSequential_agrees_tally hmake hm residents visitors
  refine ⟨hmake, hm, ?_⟩
  cases hscores : evenModel.matchSequential (.ofRecords residents) visitors with
  | error e =>
      have ht := (hfails e).mp hscores
      rw [tally_residents] at ht
      cases ht
  | ok scores =>
      obtain ⟨hat, -, hsize, hcount⟩ := hcounts scores encounters hscores tally_residents
      exact ⟨scores, rfl, hat, hsize, hcount⟩

end Model

end Linkage
