import Linkage.Agreement.RecordComparator
import Linkage.Join.BlockIndex

/-
# Counting agreement patterns

A tally says how often each agreement pattern occurs among the blocked pairs of two collections.
It is counted pair by pair; patterns that do not occur are not listed.
-/

namespace Linkage

/-- Counts by pattern number, in ascending order. -/
abbrev Counts := List (Nat × Nat)

namespace Counts

/-- Adds `n` to the count of a pattern number. -/
def add (index n : Nat) : Counts → Counts
  | [] => [(index, n)]
  | (i, m) :: rest =>
    if index < i then (index, n) :: (i, m) :: rest
    else if index = i then (i, m + n) :: rest
    else (i, m) :: add index n rest

def total (counts : Counts) : Nat :=
  (counts.map Prod.snd).foldr (· + ·) 0

/-- The first number that a count cannot reach: counts that come from elsewhere have 64 bits. -/
def limit : Nat := Nat.pow 2 64

/-- Refuses a count or a sum of counts that has more than 64 bits. -/
def checkLimit (n : Nat) : Except Error Unit :=
  if n < limit then .ok () else .error (.misuse .countTooLarge)

/-- Adds `n` to the count of a pattern number, which must stay below the limit. -/
def addWithin (counts : Counts) (index n : Nat) : Except Error Counts := do
  let counts := counts.add index n
  counts.forM fun p => checkLimit p.2
  return counts

/-- The counts that are not zero. -/
def positive (counts : Counts) : Counts :=
  counts.filter fun p => 0 < p.2

end Counts

/-- A pattern with its number and how often it occurs. -/
structure Tally.Entry where
  index : Nat
  pattern : Pattern
  count : Nat
  deriving DecidableEq, Repr

/-- How often each pattern occurs, by ascending pattern number. -/
structure Tally where
  comparator : RecordComparator
  entries : List Tally.Entry

/-- A tally in the making. -/
structure Counter where
  comparator : RecordComparator
  counts : Counts

namespace Tally

def entryOf (c : RecordComparator) (p : Nat × Nat) : Except Error Entry := do
  return ⟨p.1, ← c.patternAt p.1, p.2⟩

/-- The tally of some counts.  Counts of zero are left out; the others must belong to patterns of
the comparator. -/
def ofCounts (c : RecordComparator) (counts : Counts) : Except Error Tally := do
  return ⟨c, ← counts.positive.mapM (entryOf c)⟩

/-- Refuses a count of no pattern of the comparator, and the first one with which the sum, after
`sum` pairs, reaches the limit. -/
def checkSum (c : RecordComparator) (sum : Nat) : Counts → Except Error Unit
  | [] => .ok ()
  | p :: rest => do
    discard (entryOf c p)
    Counts.checkLimit (sum + p.2)
    checkSum c (sum + p.2) rest

/-- The tally of counts that come from elsewhere, whose sum must stay below the limit. -/
def ofCountsWithin (c : RecordComparator) (counts : Counts) : Except Error Tally := do
  checkSum c 0 counts.positive
  ofCounts c counts

/-- How many patterns occur. -/
def size (t : Tally) : Nat :=
  t.entries.length

def isEmpty (t : Tally) : Bool :=
  t.entries.isEmpty

def total (t : Tally) : Nat :=
  (t.entries.map Entry.count).foldr (· + ·) 0

/-- The entry of a pattern number between two positions of a table whose numbers ascend.  The number
in the middle tells which half to search. -/
def seek (entries : Array Entry) (index low high : Nat) (h : high ≤ entries.size) : Option Entry :=
  if hlow : low < high then
    let middle := low + (high - low) / 2
    have hmiddle : middle < entries.size := by omega
    let e := entries[middle]
    if e.index = index then some e
    else if e.index < index then seek entries index (middle + 1) high h
    else seek entries index low middle (Nat.le_of_lt hmiddle)
  else none
termination_by high - low

def countOf (t : Tally) (index : Nat) : Nat :=
  ((seek t.entries.toArray index 0 t.entries.toArray.size (Nat.le_refl _)).map Entry.count).getD 0

/-- Whether two tallies count the patterns of the same comparator. -/
def sameComparator (t u : Tally) : Bool :=
  t.comparator.serial == u.comparator.serial

def line (label count : String) : String :=
  Text.alignRight 24 label ++ Text.alignRight 12 count

def display (t : Tally) : String :=
  let rows := t.entries.map fun e =>
    line (" ".intercalate (e.pattern.map toString)) (toString e.count)
  "\n".intercalate (line "pattern" "count" :: rows ++ [line "total" (toString t.total)])

end Tally

namespace Counter

def empty (c : RecordComparator) : Counter :=
  ⟨c, []⟩

def total (k : Counter) : Nat :=
  k.counts.total

/-- Counts a pattern number, which must be in range. -/
def addIndex (index : Nat) : Action Counter Unit := do
  let k ← get
  if index < k.comparator.patternCount then
    set { k with counts := k.counts.add index 1 }
  else throw (.misuse (.patternIndex index k.comparator.patternCount))

/-- Compares a pair and counts its pattern, whose number is returned. -/
def addPair (a b : Record) : Action Counter Nat := do
  let index ← (← get).comparator.compareIndex a b
  addIndex index
  return index

def count (pair : Record × Record) : Action Counter Unit :=
  discard (addPair pair.1 pair.2)

/-- The tally of what was counted. -/
def snapshot (k : Counter) : Except Error Tally :=
  Tally.ofCounts k.comparator k.counts

end Counter

/-- Counts the patterns of all blocked pairs. -/
def tally (c : RecordComparator) (left right : List Record) : Except Error Tally := do
  let k ← (((BlockIndex.ofRecords left).pairs right).forM Counter.count).exec (.empty c)
  k.snapshot

/-- Two counters, for the pairs that are matches and for the others. -/
structure TruthCounter where
  matched : Counter
  unmatched : Counter

namespace TruthCounter

/-- Counts a pair as a match if both records have the same id. -/
def count (pair : Record × Record) : Action TruthCounter Unit :=
  if pair.1.id = pair.2.id then
    .onPart matched (fun k matched => { k with matched }) (Counter.count pair)
  else
    .onPart unmatched (fun k unmatched => { k with unmatched }) (Counter.count pair)

end TruthCounter

/-- Counts the patterns of the blocked pairs with equal ids, and of those with different ids.
Every record must have an id. -/
def tallyTruth (c : RecordComparator) (left right : List Record) :
    Except Error (Tally × Tally) :=
  if (left ++ right).all (·.schema.hasId) then do
    let k ← (((BlockIndex.ofRecords left).pairs right).forM TruthCounter.count).exec
      ⟨.empty c, .empty c⟩
    return (← k.matched.snapshot, ← k.unmatched.snapshot)
  else .error .missingId

end Linkage
