import Linkage.Record

/-
# Blocking

Records are only compared when they share a blocking key.  A block index holds the records of the
left collection by key, in the order of insertion; the blocked pairs of a right collection are its
records, in order, each with the left records of its block.
-/

namespace Linkage

/-- Records by blocking key, the keys in the order of their first record. -/
structure BlockIndex where
  blocks : List (String × Array Record)
  size : Nat

namespace BlockIndex

def empty : BlockIndex :=
  ⟨[], 0⟩

/-- Adds a record to its block, or opens the block. -/
def insertInto (r : Record) : List (String × Array Record) → List (String × Array Record)
  | [] => [(r.key, #[r])]
  | (key, records) :: rest =>
    if key = r.key then (key, records.push r) :: rest
    else (key, records) :: insertInto r rest

def insert (index : BlockIndex) (r : Record) : BlockIndex :=
  ⟨insertInto r index.blocks, index.size + 1⟩

def ofRecords (records : List Record) : BlockIndex :=
  records.foldl insert empty

def get (index : BlockIndex) (key : String) : Array Record :=
  (index.blocks.lookup key).getD #[]

def blockCount (index : BlockIndex) : Nat :=
  index.blocks.length

def isEmpty (index : BlockIndex) : Bool :=
  index.size == 0

/-- How many pairs a right collection has with the index. -/
def pairCount (index : BlockIndex) (right : List Record) : Nat :=
  (right.map fun r => (index.get r.key).size).foldr (· + ·) 0

/-- The blocked pairs of a right collection: by right record, then by left record. -/
def pairs (index : BlockIndex) (right : List Record) : List (Record × Record) :=
  right.flatMap fun r => (index.get r.key).toList.map fun l => (l, r)

end BlockIndex

end Linkage
