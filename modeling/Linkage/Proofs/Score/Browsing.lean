import Linkage.Proofs.Score.Queries
import Mathlib.Data.List.TakeWhile

/-
# Browsing a score map

A score has three neighbours among the buckets: the first one above it, the one at it and the first
one below it.  Whoever goes on from the neighbour above to the neighbour above that, and so on, walks
up the map, and the same way leads down it.

The two ways are one.  The buckets are listed in a strict order, or in the opposite one when the list
is turned round, and what comes next behind a score is the first bucket of the list behind it.  A
walk meets the buckets behind the score from which it started, in the order of the list, each once.
What makes it go on from a bucket to the next one in the list is that the order is transitive and
that no bucket lies behind itself.
-/

namespace Linkage

open Std (TransOrd)
open Std.OrientedCmp Std.ReflCmp Std.TransCmp

variable {α : Type}

/-! ## Walks -/

/-- From a score, a walk goes to the bucket that `next` finds, and on from the score of this bucket.
It stops where nothing is found. -/
inductive Walks (next : α → Option (Bucket α)) : α → List (Bucket α) → Prop where
  | stop {s : α} (none : next s = none) : Walks next s []
  | step {s : α} {b : Bucket α} {bs : List (Bucket α)} (some : next s = some b)
      (rest : Walks next b.score bs) : Walks next s (b :: bs)

theorem Walks.unique {next : α → Option (Bucket α)} {s : α} {bs cs : List (Bucket α)}
    (h : Walks next s bs) (h' : Walks next s cs) : bs = cs := by
  induction h generalizing cs with
  | stop hnone =>
      cases h' with
      | stop => rfl
      | step hsome => cases hnone.symm.trans hsome
  | step hsome _ ih =>
      cases h' with
      | stop hnone => cases hnone.symm.trans hsome
      | step hsome' hrest' =>
          obtain rfl := Option.some.inj (hsome.symm.trans hsome')
          rw [ih hrest']

section Behind

variable {r : α → α → Bool} {bs : List (Bucket α)} {b : Bucket α}

/-- The first bucket behind a score, in a list of buckets. -/
def firstBehind (r : α → α → Bool) (bs : List (Bucket α)) (s : α) : Option (Bucket α) :=
  bs.find? fun b => r s b.score

theorem head?_filter_behind (s : α) :
    (bs.filter fun b => r s b.score).head? = firstBehind r bs s :=
  List.head?_filter

theorem firstBehind_eq_none_iff {s : α} :
    firstBehind r bs s = none ↔ ∀ c ∈ bs, r s c.score = false := by
  simp [firstBehind]

variable (hirrefl : ∀ x, r x x = false)
  (htrans : ∀ x y z, r x y = true → r y z = true → r x z = true)
  (hbs : bs.Pairwise fun a b => r a.score b.score = true)
include hirrefl htrans hbs

/-- Of the buckets behind a score, the first one is the one that lies behind no other. -/
theorem firstBehind_eq_some_iff {s : α} : firstBehind r bs s = some b ↔
    b ∈ bs ∧ r s b.score = true ∧
      ∀ c ∈ bs, r s c.score = true → r c.score b.score = false := by
  induction bs with
  | nil => simp [firstBehind]
  | cons x bs ih =>
      obtain ⟨hx, hrest⟩ := List.pairwise_cons.mp hbs
      rw [firstBehind, List.find?_cons]
      cases hsx : r s x.score with
      | true =>
          constructor
          · intro h
            obtain rfl := Option.some.inj h
            refine ⟨List.mem_cons_self, hsx, fun c hc _ => ?_⟩
            rcases List.mem_cons.mp hc with rfl | hc
            · exact hirrefl _
            · by_contra hcx
              have hcycle := htrans _ _ _ (hx c hc) (Bool.eq_true_of_not_eq_false hcx)
              exact Bool.false_ne_true ((hirrefl _).symm.trans hcycle)
          · rintro ⟨hb, -, hfirst⟩
            rcases List.mem_cons.mp hb with rfl | hb
            · rfl
            · have hnot := hfirst x List.mem_cons_self hsx
              rw [hx b hb] at hnot
              cases hnot
      | false =>
          refine (ih hrest).trans ⟨fun ⟨hb, hsb, hfirst⟩ => ?_, fun ⟨hb, hsb, hfirst⟩ => ?_⟩
          · refine ⟨List.mem_cons_of_mem x hb, hsb, fun c hc hsc => ?_⟩
            rcases List.mem_cons.mp hc with rfl | hc
            · rw [hsx] at hsc
              cases hsc
            · exact hfirst c hc hsc
          · refine ⟨?_, hsb, fun c hc => hfirst c (List.mem_cons_of_mem x hc)⟩
            rcases List.mem_cons.mp hb with rfl | hb
            · rw [hsx] at hsb
              cases hsb
            · exact hb

/-- A walk meets all buckets behind the score from which it starts, in their order. -/
theorem walks_firstBehind (s : α) :
    Walks (firstBehind r bs) s (bs.filter fun b => r s b.score) := by
  generalize hfound : (bs.filter fun b => r s b.score) = found
  induction found generalizing s with
  | nil => exact .stop (by rw [← head?_filter_behind, hfound]; rfl)
  | cons b rest ih =>
      refine .step (by rw [← head?_filter_behind, hfound]; rfl) (ih b.score ?_)
      obtain ⟨hb, hrest⟩ := List.pairwise_cons.mp (hfound ▸ hbs.filter _)
      have hsb : r s b.score = true :=
        (List.mem_filter.mp (hfound ▸ List.mem_cons_self : b ∈ bs.filter _)).2
      have hwithin : ∀ c ∈ bs, r b.score c.score =
          (r b.score c.score && r s c.score) := by
        intro c _
        cases hbc : r b.score c.score with
        | false => rfl
        | true => rw [htrans _ _ _ hsb hbc, Bool.and_true]
      rw [List.filter_congr hwithin, ← List.filter_filter, hfound,
        List.filter_cons_of_neg (by simp [hirrefl]), List.filter_eq_self.mpr hb]

theorem walks_firstBehind_iff {s : α} {cs : List (Bucket α)} :
    Walks (firstBehind r bs) s cs ↔ cs = bs.filter fun b => r s b.score := by
  have hwalks := walks_firstBehind hirrefl htrans hbs s
  refine ⟨fun h => h.unique hwalks, ?_⟩
  rintro rfl
  exact hwalks

end Behind

/-! ## The neighbours of a score -/

namespace Score

theorem below_iff_rank_lt {x y : Float} : below x y = true ↔ rank x < rank y := by
  rw [← compare_eq_lt, beq_iff_eq]
  exact Int.compare_eq_lt

theorem same_iff_rank_eq {x y : Float} : same x y = true ↔ rank x = rank y := by
  rw [← compare_eq_eq, beq_iff_eq]
  exact Int.compare_eq_eq

theorem below_irrefl (x : Float) : below x x = false :=
  Bool.eq_false_iff.mpr fun h => Int.lt_irrefl _ (below_iff_rank_lt.mp h)

theorem below_trans (x y z : Float) (hxy : below x y = true) (hyz : below y z = true) :
    below x z = true :=
  below_iff_rank_lt.mpr (Int.lt_trans (below_iff_rank_lt.mp hxy) (below_iff_rank_lt.mp hyz))

end Score

/-- The buckets next to a score, from above to below. -/
def Neighbours.found (n : Neighbours α) : List (Bucket α) :=
  n.above.toList ++ (n.at?.toList ++ n.below.toList)

namespace ScoreMap

section Neighbours

variable {names : List (String × String)} (ps : List (ScoredPair Float)) (s : Float)
  {b : Bucket Float}

/-- What lies above a score comes behind it in the list of the buckets. -/
theorem above_browse (m : ScoreMap Float) :
    (m.browse s).above = firstBehind Score.below m.buckets s := by
  have hbehind : ∀ b : Bucket Float, Score.below s b.score = !Bucket.isUpTo s b := by
    intro b
    have hswap : compare s b.score = (compare b.score s).swap := eq_swap
    rw [← Score.compare_eq_lt, Bucket.isUpTo, hswap]
    cases compare b.score s <;> rfl
  simp only [firstBehind, hbehind]
  exact (List.find?_not_eq_head?_dropWhile _ _).symm

/-- What lies below a score comes behind it in the list turned round. -/
theorem below_browse : ((ofList names ps).browse s).below =
    firstBehind (fun x y => Score.below y x) (ofList names ps).buckets.reverse s := by
  have hbelow : ((ofList names ps).browse s).below =
      ((ofList names ps).buckets.filter (Bucket.isBelow s)).getLast? :=
    congrArg List.getLast? ((ascending_ofList ps).takeWhile_isBelow s)
  have hisBelow : Bucket.isBelow s = fun b => Score.below b.score s :=
    funext fun b => Score.compare_eq_lt b.score s
  rw [hbelow, hisBelow, ← List.head?_reverse, ← List.filter_reverse]
  exact List.head?_filter

theorem descending_ofList : (ofList names ps).buckets.reverse.Pairwise
    fun a b => Score.below b.score a.score = true :=
  List.pairwise_reverse.mpr (proper_ofList names ps).ascending

theorem above_eq_some_iff : ((ofList names ps).browse s).above = some b ↔
    b ∈ (ofList names ps).buckets ∧ Score.below s b.score = true ∧
      ∀ c ∈ (ofList names ps).buckets,
        Score.below s c.score = true → Score.below c.score b.score = false := by
  rw [above_browse]
  exact firstBehind_eq_some_iff Score.below_irrefl Score.below_trans
    (proper_ofList names ps).ascending

theorem below_eq_some_iff : ((ofList names ps).browse s).below = some b ↔
    b ∈ (ofList names ps).buckets ∧ Score.below b.score s = true ∧
      ∀ c ∈ (ofList names ps).buckets,
        Score.below c.score s = true → Score.below b.score c.score = false := by
  rw [below_browse]
  have hfirst := firstBehind_eq_some_iff (r := fun x y => Score.below y x) (s := s) (b := b)
    Score.below_irrefl (fun x y z hxy hyz => Score.below_trans z y x hyz hxy)
    (@descending_ofList names ps)
  simpa only [List.mem_reverse] using hfirst

/-- The bucket at a score is the only one there. -/
theorem at_eq_some_iff : ((ofList names ps).browse s).at? = some b ↔
    b ∈ (ofList names ps).buckets ∧ Score.same b.score s = true := by
  have hfound : ((ofList names ps).buckets.filter (Bucket.isAt s)) =
      ((ofList names ps).browse s).at?.toList := (ascending_ofList ps).filter_isAt s
  rw [← Option.mem_toList, ← hfound, List.mem_filter, Bucket.isAt, Score.compare_eq_eq]

/-! ### Walking -/

theorem walks_above_iff {bs : List (Bucket Float)} :
    Walks (fun s => ((ofList names ps).browse s).above) s bs ↔
      bs = (ofList names ps).buckets.filter fun b => Score.below s b.score := by
  simp only [above_browse]
  exact walks_firstBehind_iff Score.below_irrefl Score.below_trans (proper_ofList names ps).ascending

theorem walks_below_iff {bs : List (Bucket Float)} :
    Walks (fun s => ((ofList names ps).browse s).below) s bs ↔
      bs = ((ofList names ps).buckets.filter fun b => Score.below b.score s).reverse := by
  simp only [below_browse]
  rw [← List.filter_reverse]
  exact walks_firstBehind_iff (r := fun x y => Score.below y x) Score.below_irrefl
    (fun x y z hxy hyz => Score.below_trans z y x hyz hxy) (descending_ofList ps)

/-! ### The neighbours together -/

theorem descending_found : ((ofList names ps).browse s).found.Pairwise
    fun a b => Score.below b.score a.score = true := by
  have habove : ∀ b ∈ ((ofList names ps).browse s).above.toList,
      Score.rank s < Score.rank b.score := fun b hb =>
    Score.below_iff_rank_lt.mp ((above_eq_some_iff ps s).mp (Option.mem_toList.mp hb)).2.1
  have hat : ∀ b ∈ ((ofList names ps).browse s).at?.toList,
      Score.rank b.score = Score.rank s := fun b hb =>
    Score.same_iff_rank_eq.mp ((at_eq_some_iff ps s).mp (Option.mem_toList.mp hb)).2
  have hbelow : ∀ b ∈ ((ofList names ps).browse s).below.toList,
      Score.rank b.score < Score.rank s := fun b hb =>
    Score.below_iff_rank_lt.mp ((below_eq_some_iff ps s).mp (Option.mem_toList.mp hb)).2.1
  have hone (b? : Option (Bucket Float)) {r : Bucket Float → Bucket Float → Prop} :
      b?.toList.Pairwise r := by
    cases b? with
    | none => exact .nil
    | some b => exact List.pairwise_singleton r b
  simp only [Score.below_iff_rank_lt]
  refine List.pairwise_append.mpr ⟨hone _, List.pairwise_append.mpr ⟨hone _, hone _, ?_⟩, ?_⟩
  · intro b hb c hc
    rw [hat b hb]
    exact hbelow c hc
  · intro b hb c hc
    rcases List.mem_append.mp hc with hc | hc
    · rw [hat c hc]
      exact habove b hb
    · exact (hbelow c hc).trans (habove b hb)

/-- The neighbours hold the pairs that were inserted with their scores. -/
theorem pairs_browse : ((ofList names ps).browse s).pairs =
    ((ofList names ps).browse s).found.flatMap
      fun b => ps.filter fun p => Score.same p.score b.score := by
  have hpairs : ((ofList names ps).browse s).pairs =
      ((ofList names ps).browse s).found.flatMap fun b => b.pairs.toList := by
    simp [Neighbours.pairs, Neighbours.found]
  rw [hpairs]
  refine List.flatMap_congr fun b hb => ?_
  have hmem : b ∈ (ofList names ps).buckets := by
    rcases List.mem_append.mp hb with hb | hb
    · exact ((above_eq_some_iff ps s).mp (Option.mem_toList.mp hb)).1
    · rcases List.mem_append.mp hb with hb | hb
      · exact ((at_eq_some_iff ps s).mp (Option.mem_toList.mp hb)).1
      · exact ((below_eq_some_iff ps s).mp (Option.mem_toList.mp hb)).1
  simp only [pairs_eq_filter hmem, Score.compare_eq_eq]

/-! ### Asked of a tree -/

/-- The neighbours of a score, asked of a tree: the first bucket of what lies behind the score, the
bucket found at it, and the last bucket of what lies before it. -/
def askBrowse (m : ScoreMap Float) (s : Float) : Option (Neighbours Float) := do
  let above ← treeRange (.excluded s) .unbounded m.buckets
  let below ← treeRange .unbounded (.excluded s) m.buckets
  return ⟨above.head?, m.buckets.find? (Bucket.isAt s), below.getLast?⟩

theorem askBrowse_eq :
    (ofList names ps).askBrowse s = some ((ofList names ps).browse s) := by
  have habove : treeRange (.excluded s) .unbounded (ofList names ps).buckets =
      some ((ofList names ps).buckets.filter fun b => Score.below s b.score) := by
    simp only [treeRange, Bound.refuses, Bound.isReached, Bound.isKept, Bool.and_true]
    refine congrArg some (List.filter_congr fun b _ => ?_)
    rw [← Score.compare_eq_lt, Bool.eq_iff_iff, beq_iff_eq, beq_iff_eq]
    exact ⟨lt_of_gt, gt_of_lt⟩
  have hbelow : treeRange .unbounded (.excluded s) (ofList names ps).buckets =
      some ((ofList names ps).buckets.takeWhile (Bucket.isBelow s)) := by
    rw [(ascending_ofList ps).takeWhile_isBelow]
    simp only [treeRange, Bound.refuses, Bound.isReached, Bound.isKept, Bool.true_and]
    rfl
  rw [askBrowse, habove, hbelow]
  simp only [Option.bind_eq_bind, Option.bind_some, head?_filter_behind, ← above_browse]
  rfl

end Neighbours

end ScoreMap

/-! ## After any moves -/

variable {ι : Type} [DecidableEq ι]

/-- After any moves, the neighbours of a score in a score map are the bucket with the least score
above it, the bucket with an equal score, and the bucket with the greatest score below it; one is
missing only if there is no such bucket.  Their pairs are those that were inserted with their scores,
from the highest score down and within a bucket as they were inserted.  A walk up from a score meets
the buckets above it, each once and by ascending score, and then it stops; a walk down meets those
below it, by descending score.  There is no other walk.  And a tree answers with the same
neighbours. -/
theorem Shelf.browse_neighbours (names : ι → List (String × String)) (moves : List (Move ι Float))
    (i : ι) (s : Float) :
    let m := maps names moves i
    let n := m.browse s
    ((∀ b, n.above = some b ↔ b ∈ m.buckets ∧ Score.below s b.score = true ∧
        ∀ c ∈ m.buckets, Score.below s c.score = true → Score.atLeast c.score b.score = true) ∧
      (n.above = none ↔ ∀ c ∈ m.buckets, Score.below s c.score = false)) ∧
    ((∀ b, n.at? = some b ↔ b ∈ m.buckets ∧ Score.same b.score s = true) ∧
      (n.at? = none ↔ ∀ c ∈ m.buckets, Score.same c.score s = false)) ∧
    ((∀ b, n.below = some b ↔ b ∈ m.buckets ∧ Score.below b.score s = true ∧
        ∀ c ∈ m.buckets, Score.below c.score s = true → Score.atLeast b.score c.score = true) ∧
      (n.below = none ↔ ∀ c ∈ m.buckets, Score.below c.score s = false)) ∧
    (n.found.Pairwise (fun a b => Score.below b.score a.score = true) ∧
      n.pairs = n.found.flatMap fun b =>
        (ledgers moves i).filter fun p => Score.same p.score b.score) ∧
    (m.buckets.Pairwise (fun a b => Score.below a.score b.score = true) ∧
      (∀ bs, Walks (fun s => (m.browse s).above) s bs ↔
        bs = m.buckets.filter fun b => Score.below s b.score) ∧
      ∀ bs, Walks (fun s => (m.browse s).below) s bs ↔
        bs = (m.buckets.filter fun b => Score.below b.score s).reverse) ∧
    m.askBrowse s = some n := by
  simp only [maps_eq]
  generalize ledgers moves i = ps
  generalize names i = names
  have hnot : ∀ x y : Float, Score.below x y = false ↔ Score.atLeast x y = true := fun x y => by
    rw [Score.below, Bool.not_eq_false']
  simp only [← hnot]
  refine ⟨⟨fun b => ?_, ?_⟩, ⟨fun b => ?_, ?_⟩, ⟨fun b => ?_, ?_⟩, ⟨?_, ?_⟩,
    ⟨?_, fun bs => ?_, fun bs => ?_⟩, ?_⟩
  · exact ScoreMap.above_eq_some_iff ps s
  · rw [ScoreMap.above_browse, firstBehind_eq_none_iff]
  · exact ScoreMap.at_eq_some_iff ps s
  · simp only [ScoreMap.browse, List.find?_eq_none, Bucket.isAt, Score.compare_eq_eq,
      Bool.not_eq_true]
  · exact ScoreMap.below_eq_some_iff ps s
  · rw [ScoreMap.below_browse, firstBehind_eq_none_iff]
    simp only [List.mem_reverse]
  · exact ScoreMap.descending_found ps s
  · exact ScoreMap.pairs_browse ps s
  · exact (ScoreMap.proper_ofList names ps).ascending
  · exact ScoreMap.walks_above_iff ps s
  · exact ScoreMap.walks_below_iff ps s
  · exact ScoreMap.askBrowse_eq ps s

end Linkage
