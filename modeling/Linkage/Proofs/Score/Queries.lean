import Linkage.Proofs.Score.Shelf

/-
# Queries divide a score map

What lies in a range of scores and what lies outside of it are found by going along the buckets, and
because the scores ascend this finds just the buckets whose scores say so.  It does so wherever the
two ends of the range lie, also the wrong way round: then nothing lies in the range, and the part
outside must not count twice what lies outside of both its ends.

The buckets are those of an ordered tree.  A tree refuses to look for what lies between an end and a
start that is behind it, and this is never asked of it.
-/

namespace Linkage

open Std (TransOrd)
open Std.OrientedCmp Std.TransCmp

variable {α : Type} [Ord α]

/-! ## Ranges of a tree -/

/-- Where a range of a tree starts or ends. -/
inductive Bound (α : Type) where
  | included (x : α)
  | excluded (x : α)
  | unbounded

namespace Bound

/-- Whether a score does not lie before a start. -/
def isReached : Bound α → α → Bool
  | .included x, y => compare y x != .lt
  | .excluded x, y => compare y x == .gt
  | .unbounded, _ => true

/-- Whether a score does not lie behind an end. -/
def isKept : Bound α → α → Bool
  | .included x, y => compare y x != .gt
  | .excluded x, y => compare y x == .lt
  | .unbounded, _ => true

/-- Whether a tree refuses a start and an end: the start lies behind the end, or both are one score
and exclude it. -/
def refuses : Bound α → Bound α → Bool
  | .excluded x, .excluded y => compare x y != .lt
  | .included x, .included y => compare x y == .gt
  | .included x, .excluded y => compare x y == .gt
  | .excluded x, .included y => compare x y == .gt
  | _, _ => false

end Bound

/-- The range of a tree with the given buckets, unless it is refused. -/
def treeRange (start stop : Bound α) (bs : List (Bucket α)) : Option (List (Bucket α)) :=
  if start.refuses stop then none
  else some (bs.filter fun b => start.isReached b.score && stop.isKept b.score)

namespace ScoreMap

def askAtLeast (m : ScoreMap α) (cutoff : α) : Option (List (Bucket α)) :=
  treeRange (.included cutoff) .unbounded m.buckets

/-- The buckets from a score on and below another, asked of a tree.  Nothing is asked without a
score between them. -/
def askRange (m : ScoreMap α) (low high : α) : Option (List (Bucket α)) :=
  if compare low high != .lt then some []
  else treeRange (.included low) (.excluded high) m.buckets

def askTails (m : ScoreMap α) (low high : α) : Option (List (Bucket α)) := do
  let lower ← treeRange .unbounded (.excluded low) m.buckets
  let upper ← treeRange (.included (greater low high)) .unbounded m.buckets
  return lower ++ upper

end ScoreMap

/-! ## Going along the buckets -/

namespace Bucket

variable {bs : List (Bucket α)} {low high : α}

/-- Whether a score lies in a range. -/
def lies (low high x : α) : Bool :=
  compare x low != .lt && compare x high == .lt

theorem uniform_lies [TransOrd α] (low high : α) : Uniform (lies low high) := by
  intro x y h
  rw [lies, lies, congr_left h, congr_left h]

theorem lies_eq_false [TransOrd α] (h : compare low high ≠ .lt) (x : α) :
    lies low high x = false := by
  rw [lies, Bool.and_eq_false_iff]
  by_cases hx : compare x low = .lt
  · simp [hx]
  · right
    have hnot : compare x high ≠ .lt := fun hlt => by
      have hle : (compare low x).isLE := by
        rw [Score.isLE_compare]
        simpa using hx
      exact h (lt_of_isLE_of_lt hle hlt)
    simpa using hnot

theorem Ascending.range_eq [TransOrd α] (h : Ascending bs) (low high : α) :
    (bs.dropWhile (isBelow low)).takeWhile (isBelow high) =
      bs.filter fun b => lies low high b.score := by
  rw [h.dropWhile_isBelow, Ascending.takeWhile_isBelow (h.filter _), List.filter_filter]
  refine List.filter_congr fun b _ => ?_
  rw [lies, Bool.and_comm, isBelow]

theorem lt_greater [TransOrd α] {x : α} (h : compare x low = .lt) (high : α) :
    compare x (ScoreMap.greater low high) = .lt := by
  rw [ScoreMap.greater]
  cases hends : compare low high with
  | lt => exact lt_trans h hends
  | eq => exact lt_of_lt_of_eq h hends
  | gt => exact h

/-- From the start of a range on, what its end is decides. -/
theorem compare_greater [TransOrd α] {x : α} (h : compare x low ≠ .lt) (high : α) :
    (compare x (ScoreMap.greater low high) != .lt) = (compare x high != .lt) := by
  rw [ScoreMap.greater]
  cases hends : compare low high with
  | lt => rfl
  | eq => rfl
  | gt =>
      have hnot : compare x high ≠ .lt := fun hlt => h (lt_trans hlt (lt_of_gt hends))
      change (compare x low != .lt) = _
      rw [bne_iff_ne.mpr h, bne_iff_ne.mpr hnot]

/-- What lies below a range or from its end on are the two parts outside of it, each once. -/
theorem Ascending.tails_eq [TransOrd α] (h : Ascending bs) (low high : α) :
    bs.takeWhile (isBelow low) ++ bs.dropWhile (isBelow (ScoreMap.greater low high)) =
      bs.filter fun b => !lies low high b.score := by
  have hexcludes : ∀ b ∈ bs, isBelow low b = true →
      (compare b.score (ScoreMap.greater low high) != .lt) = false := by
    intro b _ hb
    rw [lt_greater (eq_of_beq hb)]
    rfl
  rw [h.takeWhile_isBelow, h.dropWhile_isBelow,
    filter_append_filter (h.isBelow_of_isBelow low) hexcludes]
  refine List.filter_congr fun b _ => ?_
  rw [isBelow, lies]
  by_cases hb : compare b.score low = .lt
  · simp [hb]
  · have hnot : (compare b.score low == .lt) = false := beq_eq_false_iff_ne.mpr hb
    rw [compare_greater hb]
    simp only [bne, hnot, Bool.false_or, Bool.not_false, Bool.true_and]

end Bucket

/-! ## What the queries find -/

namespace ScoreMap

variable {names : List (String × String)} (ps : List (ScoredPair α)) (low high cutoff : α)

theorem atLeast_ofList [TransOrd α] : (ofList names ps).atLeast cutoff =
    (ofList names ps).buckets.filter fun b => compare b.score cutoff != .lt :=
  (ascending_ofList ps).dropWhile_isBelow cutoff

theorem range_ofList [TransOrd α] : (ofList names ps).range low high =
    (ofList names ps).buckets.filter fun b => Bucket.lies low high b.score := by
  rw [range]
  split
  case isTrue => exact (ascending_ofList ps).range_eq low high
  case isFalse h =>
    have hnot : compare low high ≠ .lt := by simpa using h
    simp [Bucket.lies_eq_false hnot]

theorem tails_ofList [TransOrd α] : (ofList names ps).tails low high =
    (ofList names ps).buckets.filter fun b => !Bucket.lies low high b.score :=
  (ascending_ofList ps).tails_eq low high

/-! ### Asked of a tree -/

theorem askAtLeast_eq [TransOrd α] :
    (ofList names ps).askAtLeast cutoff = some ((ofList names ps).atLeast cutoff) := by
  rw [askAtLeast, treeRange, atLeast_ofList]
  simp [Bound.refuses, Bound.isReached, Bound.isKept]

theorem askRange_eq [TransOrd α] :
    (ofList names ps).askRange low high = some ((ofList names ps).range low high) := by
  rw [askRange, range]
  by_cases h : compare low high = .lt
  · have hrefused : (Bound.included low).refuses (.excluded high) = false := by
      simp [Bound.refuses, h]
    rw [(ascending_ofList ps).range_eq, treeRange, hrefused]
    simp [h, Bound.isReached, Bound.isKept, Bucket.lies]
  · simp [h]

theorem askTails_eq [TransOrd α] :
    (ofList names ps).askTails low high = some ((ofList names ps).tails low high) := by
  have hlower : treeRange .unbounded (.excluded low) (ofList names ps).buckets =
      some ((ofList names ps).buckets.takeWhile (Bucket.isBelow low)) := by
    rw [(ascending_ofList ps).takeWhile_isBelow]
    simp only [treeRange, Bound.refuses, Bound.isReached, Bound.isKept, Bool.true_and]
    rfl
  have hupper := @askAtLeast_eq _ _ names ps (greater low high) _
  rw [askAtLeast] at hupper
  rw [askTails, hlower, hupper]
  rfl

/-! ### Counts -/

omit [Ord α] in
theorem pairCount_eq_length (bs : List (Bucket α)) :
    pairCount bs = (bs.flatMap fun b => b.pairs.toList).length := by
  rw [List.length_flatMap]
  rfl

theorem range_append_tails_perm [TransOrd α] :
    ((ofList names ps).range low high ++ (ofList names ps).tails low high).Perm
      (ofList names ps).buckets := by
  rw [range_ofList, tails_ofList]
  exact List.filter_append_perm _ _

theorem pairCount_range_add_pairCount_tails [TransOrd α] :
    pairCount ((ofList names ps).range low high) + pairCount ((ofList names ps).tails low high) =
      (ofList names ps).size := by
  have hpairs := (@range_append_tails_perm _ _ names ps low high _).flatMap_right
    fun b => b.pairs.toList
  rw [pairCount_eq_length, pairCount_eq_length, ← List.length_append, ← List.flatMap_append,
    hpairs.length_eq, ← pairCount_eq_length, pairCount_ofList, size_ofList]

theorem compare_ne_eq_of_mem [TransOrd α] {a b : Bucket α}
    (ha : a ∈ (ofList names ps).range low high) (hb : b ∈ (ofList names ps).tails low high) :
    compare a.score b.score ≠ .eq := by
  rw [range_ofList] at ha
  rw [tails_ofList] at hb
  have hin := (List.mem_filter.mp ha).2
  have hout := (List.mem_filter.mp hb).2
  intro heq
  rw [Bucket.uniform_lies low high _ _ heq] at hin
  simp [hin] at hout

end ScoreMap

/-! ## After any moves -/

theorem Score.lies_eq (low high x : Float) :
    Bucket.lies low high x = (Score.atLeast x low && Score.below x high) := by
  rw [Bucket.lies, Score.compare_ne_lt, Score.compare_eq_lt]

variable {ι : Type} [DecidableEq ι]

/-- After any moves the queries find in a score map just the buckets whose scores say so, each once
and by ascending score: those from the cutoff on, those in the range, those outside of it.  The range
and what is outside of it share no score; together they are all buckets, and hold all pairs.  The
pairs from the cutoff on are counted.  And a tree answers every query, with the same buckets. -/
theorem Shelf.queries_partition (names : ι → List (String × String)) (moves : List (Move ι Float))
    (i : ι) (low high cutoff : Float) :
    let m := maps names moves i
    (m.atLeast cutoff = m.buckets.filter (fun b => Score.atLeast b.score cutoff) ∧
      m.range low high =
        m.buckets.filter (fun b => Score.atLeast b.score low && Score.below b.score high) ∧
      m.tails low high =
        m.buckets.filter (fun b => Score.below b.score low || Score.atLeast b.score high)) ∧
    (∀ found ∈ [m.atLeast cutoff, m.range low high, m.tails low high],
      found.Pairwise fun a b => Score.below a.score b.score = true) ∧
    ((∀ a ∈ m.range low high, ∀ b ∈ m.tails low high, Score.same a.score b.score = false) ∧
      (m.range low high ++ m.tails low high).Perm m.buckets ∧
      ScoreMap.pairCount (m.range low high) + ScoreMap.pairCount (m.tails low high) = m.size) ∧
    (m.countAtLeast cutoff = ((m.atLeast cutoff).flatMap fun b => b.pairs.toList).length ∧
      m.countAtLeast cutoff =
        (ledgers moves i).countP fun p => Score.atLeast p.score cutoff) ∧
    (m.askAtLeast cutoff = some (m.atLeast cutoff) ∧
      m.askRange low high = some (m.range low high) ∧
      m.askTails low high = some (m.tails low high)) := by
  simp only [maps_eq]
  generalize ledgers moves i = ps
  generalize names i = names
  have hatLeast : (ScoreMap.ofList names ps).atLeast cutoff =
      (ScoreMap.ofList names ps).buckets.filter fun b => Score.atLeast b.score cutoff := by
    simp only [ScoreMap.atLeast_ofList, Score.compare_ne_lt]
  have hrange : (ScoreMap.ofList names ps).range low high =
      (ScoreMap.ofList names ps).buckets.filter
        fun b => Score.atLeast b.score low && Score.below b.score high := by
    simp only [ScoreMap.range_ofList, Score.lies_eq]
  have htails : (ScoreMap.ofList names ps).tails low high =
      (ScoreMap.ofList names ps).buckets.filter
        fun b => Score.below b.score low || Score.atLeast b.score high := by
    simp only [ScoreMap.tails_ofList, Score.lies_eq, Bool.not_and, Score.below, Bool.not_not]
  refine ⟨⟨hatLeast, hrange, htails⟩, ?_, ⟨?_, ?_, ?_⟩, ⟨?_, ?_⟩, ?_, ?_, ?_⟩
  · have hascending := (ScoreMap.proper_ofList names ps).ascending
    intro found hfound
    simp only [List.mem_cons, List.not_mem_nil, or_false] at hfound
    rcases hfound with rfl | rfl | rfl
    · exact hatLeast ▸ hascending.filter _
    · exact hrange ▸ hascending.filter _
    · exact htails ▸ hascending.filter _
  · intro a ha b hb
    rw [← Score.compare_eq_eq]
    exact beq_eq_false_iff_ne.mpr (ScoreMap.compare_ne_eq_of_mem ps low high ha hb)
  · exact ScoreMap.range_append_tails_perm ps low high
  · exact ScoreMap.pairCount_range_add_pairCount_tails ps low high
  · exact ScoreMap.pairCount_eq_length _
  · rw [ScoreMap.countAtLeast_ofList]
    simp only [Score.compare_ne_lt]
  · exact ScoreMap.askAtLeast_eq ps cutoff
  · exact ScoreMap.askRange_eq ps low high
  · exact ScoreMap.askTails_eq ps low high

end Linkage
