import Linkage.Arithmetic
import Linkage.Record
import Linkage.Score.Sink

/-
# Score maps

A score map holds scored pairs of records in buckets of equal score, in ascending order.  Pairs
stay in the order in which they came into their bucket, and a bucket keeps the score with which it
was opened.

Scores are ordered like numbers, with two additions that make the order total: the two zeros are
equal, and a score that is not a number equals itself and lies above all others.
-/

namespace Linkage

namespace Score

/-- The place of a double in the order.  The bits of positive doubles ascend with their value,
those of negative doubles descend. -/
def rank (x : Float) : Int :=
  if x.isNaN then Nat.pow 2 64
  else
    let bits := x.toBits.toNat
    if bits < Nat.pow 2 63 then bits else -((bits - Nat.pow 2 63 : Nat) : Int)

end Score

/-- Doubles as scores. -/
instance scoreOrd : Ord Float where
  compare x y := compare (Score.rank x) (Score.rank y)

/-- Two records with their score. -/
structure ScoredPair (α : Type) where
  a : Record
  b : Record
  score : α

/-- The pairs with one score. -/
structure Bucket (α : Type) where
  score : α
  pairs : Array (ScoredPair α)

/-- Pairs by score, for a comparator with the given fields. -/
structure ScoreMap (α : Type) where
  fieldNames : List (String × String)
  buckets : List (Bucket α)
  size : Nat

/-- The buckets next to a score. -/
structure Neighbours (α : Type) where
  above : Option (Bucket α)
  at? : Option (Bucket α)
  below : Option (Bucket α)

namespace Bucket

variable {α : Type}

/-- Tells a sink about the matches of a bucket, each with the score of the bucket, and counts
them. -/
def tell {σ : Type} (sink : Sink σ α) (b : Bucket α) (written : Nat) : Action σ Nat :=
  b.pairs.foldlM (fun written p => do
    sink (.accept p.a p.b b.score)
    return written + 1) written

variable [Ord α]

def isBelow (score : α) (b : Bucket α) : Bool :=
  compare b.score score == .lt

def isUpTo (score : α) (b : Bucket α) : Bool :=
  compare b.score score != .gt

def isAt (score : α) (b : Bucket α) : Bool :=
  compare b.score score == .eq

/-- Adds pairs to the bucket of their score, or opens it. -/
def insertInto (score : α) (pairs : Array (ScoredPair α)) : List (Bucket α) → List (Bucket α)
  | [] => [⟨score, pairs⟩]
  | b :: rest =>
    match compare score b.score with
    | .lt => ⟨score, pairs⟩ :: b :: rest
    | .eq => ⟨b.score, b.pairs ++ pairs⟩ :: rest
    | .gt => b :: insertInto score pairs rest

end Bucket

namespace Neighbours

variable {α : Type}

/-- The pairs of the neighbours, from the highest score down. -/
def pairs (n : Neighbours α) : List (ScoredPair α) :=
  [n.above, n.at?, n.below].flatMap fun b => b.toList.flatMap fun b => b.pairs.toList

end Neighbours

namespace ScoreMap

variable {α : Type} [Ord α]

def empty (fieldNames : List (String × String)) : ScoreMap α :=
  ⟨fieldNames, [], 0⟩

def insert (m : ScoreMap α) (p : ScoredPair α) : ScoreMap α :=
  ⟨m.fieldNames, Bucket.insertInto p.score #[p] m.buckets, m.size + 1⟩

def insertBucket (m : ScoreMap α) (b : Bucket α) : ScoreMap α :=
  ⟨m.fieldNames, Bucket.insertInto b.score b.pairs m.buckets, m.size + b.pairs.size⟩

/-- Adds all pairs of another map, after those that are in the same bucket already.  A map without
buckets takes over those of the other map. -/
def merge (m other : ScoreMap α) : ScoreMap α :=
  if m.size < other.size ∧ m.buckets.isEmpty then ⟨m.fieldNames, other.buckets, other.size⟩
  else other.buckets.foldl insertBucket m

def isEmpty (m : ScoreMap α) : Bool :=
  m.size == 0

def scoreCount (m : ScoreMap α) : Nat :=
  m.buckets.length

def minScore (m : ScoreMap α) : Option α :=
  m.buckets.head?.map Bucket.score

def maxScore (m : ScoreMap α) : Option α :=
  m.buckets.getLast?.map Bucket.score

/-- All pairs, by ascending score. -/
def toList (m : ScoreMap α) : List (ScoredPair α) :=
  m.buckets.flatMap fun b => b.pairs.toList

def atLeast (m : ScoreMap α) (cutoff : α) : List (Bucket α) :=
  m.buckets.dropWhile (Bucket.isBelow cutoff)

/-- The buckets from a score on and below another. -/
def range (m : ScoreMap α) (low high : α) : List (Bucket α) :=
  if compare low high == .lt then
    (m.buckets.dropWhile (Bucket.isBelow low)).takeWhile (Bucket.isBelow high)
  else []

def greater (x y : α) : α :=
  if compare x y == .gt then x else y

/-- The buckets that are not in a range: below its start, or from its end on. -/
def tails (m : ScoreMap α) (low high : α) : List (Bucket α) :=
  m.buckets.takeWhile (Bucket.isBelow low) ++
    m.buckets.dropWhile (Bucket.isBelow (greater low high))

def pairCount (buckets : List (Bucket α)) : Nat :=
  (buckets.map (·.pairs.size)).foldr (· + ·) 0

def countAtLeast (m : ScoreMap α) (cutoff : α) : Nat :=
  pairCount (m.atLeast cutoff)

/-- The score of the pair at a place in the ascending order, counted from 1 after `seen` pairs. -/
def scoreAt (place : Nat) : (seen : Nat) → List (Bucket α) → Option α
  | _, [] => none
  | seen, b :: rest =>
    if place ≤ seen + b.pairs.size then some b.score
    else scoreAt place (seen + b.pairs.size) rest

/-- The place of a quantile among `n` pairs: the share `q` of them, rounded up, but at least the
first. -/
def quantilePlace {β : Type} [Arithmetic β] (q : β) (n : Nat) : Nat :=
  min (max (Arithmetic.ceil (q * (n : β))) 1) n

/-- The score that the share `q` of the pairs does not exceed.  There is none without pairs or for
a share that is not between 0 and 1. -/
def quantile {β : Type} [Arithmetic β] (m : ScoreMap α) (q : β) : Option α :=
  if m.isEmpty || !(decide (0 ≤ q) && decide (q ≤ 1)) then none
  else (scoreAt (quantilePlace q m.size) 0 m.buckets).orElse fun _ => m.maxScore

/-- The bucket of a score, and those next to it. -/
def browse (m : ScoreMap α) (score : α) : Neighbours α where
  above := (m.buckets.dropWhile (Bucket.isUpTo score)).head?
  at? := m.buckets.find? (Bucket.isAt score)
  below := (m.buckets.takeWhile (Bucket.isBelow score)).getLast?

/-- Tells a sink about the matches from a score on, from the highest score down.  The first failure
ends it; otherwise the number of matches is returned. -/
def write {σ : Type} (m : ScoreMap α) (sink : Sink σ α) (cutoff : α) : Action σ Nat := do
  sink (.start m.fieldNames)
  let written ← (m.atLeast cutoff).reverse.foldlM (fun written b => b.tell sink written) 0
  sink .finish
  return written

end ScoreMap

end Linkage
