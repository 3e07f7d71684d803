import Linkage.Join.BlockIndex
import Mathlib.Data.List.Induction

/-
# Blocked pairs

A block holds the records with its key, in order.  So the blocked pairs are those of all pairs whose
keys are equal, in the order in which a search through both collections meets them: the right one
first, and the left one for each of its records.
-/

namespace Linkage

/-- All pairs of two collections, by right record and then by left record. -/
def crossPairs (left right : List Record) : List (Record × Record) :=
  right.flatMap fun r => left.map fun l => (l, r)

theorem mem_crossPairs {left right : List Record} {x : Record × Record} :
    x ∈ crossPairs left right ↔ x.1 ∈ left ∧ x.2 ∈ right := by
  obtain ⟨l, r⟩ := x
  simp [crossPairs, and_comm]

def sameBlock (x : Record × Record) : Bool :=
  decide (x.1.key = x.2.key)

namespace BlockIndex

def blockOf (key : String) (blocks : List (String × Array Record)) : List Record :=
  ((blocks.lookup key).getD #[]).toList

theorem blockOf_cons (key name : String) (records : Array Record)
    (blocks : List (String × Array Record)) : blockOf key ((name, records) :: blocks) =
      if key = name then records.toList else blockOf key blocks := by
  by_cases h : key = name
  · simp [blockOf, h]
  · simp [blockOf, h, List.lookup_cons, beq_eq_false_iff_ne.mpr h]

theorem blockOf_insertInto (r : Record) (key : String) (blocks : List (String × Array Record)) :
    blockOf key (insertInto r blocks) = blockOf key blocks ++ if r.key = key then [r] else [] := by
  induction blocks with
  | nil =>
      rw [insertInto, blockOf_cons]
      by_cases h : r.key = key
      · simp [h, blockOf]
      · simp [h, Ne.symm h, blockOf]
  | cons block blocks ih =>
      obtain ⟨name, records⟩ := block
      rw [insertInto, blockOf_cons]
      by_cases hname : name = r.key
      · rw [if_pos hname, blockOf_cons]
        by_cases hkey : key = name
        · simp [hkey, hname]
        · simp [hkey, hname ▸ Ne.symm hkey]
      · rw [if_neg hname, blockOf_cons, ih]
        by_cases hkey : key = name
        · simp [hkey, Ne.symm hname]
        · simp [hkey]

theorem ofRecords_snoc (records : List Record) (r : Record) :
    ofRecords (records ++ [r]) = (ofRecords records).insert r := by
  simp [ofRecords]

theorem get_ofRecords (records : List Record) (key : String) :
    ((ofRecords records).get key).toList = records.filter fun r => decide (r.key = key) := by
  change blockOf key (ofRecords records).blocks = _
  induction records using List.reverseRecOn with
  | nil => rfl
  | append_singleton records r ih =>
      rw [ofRecords_snoc, insert, blockOf_insertInto, ih, List.filter_append]
      by_cases h : r.key = key <;> simp [h]

theorem pairs_ofRecords (left right : List Record) :
    (ofRecords left).pairs right = (crossPairs left right).filter sameBlock := by
  rw [pairs, crossPairs, List.filter_flatMap]
  refine congrArg (List.flatMap · right) (funext fun r => ?_)
  rw [get_ofRecords, List.filter_map]
  rfl

theorem mem_pairs_ofRecords {left right : List Record} {x : Record × Record} :
    x ∈ (ofRecords left).pairs right ↔ x.1 ∈ left ∧ x.2 ∈ right ∧ x.1.key = x.2.key := by
  rw [pairs_ofRecords, List.mem_filter, mem_crossPairs, sameBlock, decide_eq_true_iff, and_assoc]

end BlockIndex

end Linkage
