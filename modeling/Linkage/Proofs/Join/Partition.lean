import Linkage.Proofs.Join.Frequency

/-
# The blocks of an index

The blocks of an index divide its records by their keys.  An insertion leaves the keys of the blocks
as they are if the key of its record is among them, and else it adds this key at the end.  So every
key of a record has one block and no other key has one; and what stands in the block of a key is what
a search for the key finds.  It does not matter which records were there at first and which were
inserted later.
-/

namespace Linkage.BlockIndex

variable {blocks : List (String × Array Record)} {records : List Record}

/-! ## The keys of the blocks -/

theorem keys_insertInto (r : Record) (blocks : List (String × Array Record)) :
    (insertInto r blocks).map Prod.fst =
      if r.key ∈ blocks.map Prod.fst then blocks.map Prod.fst
      else blocks.map Prod.fst ++ [r.key] := by
  induction blocks with
  | nil => rfl
  | cons block blocks ih =>
      obtain ⟨name, held⟩ := block
      rw [insertInto]
      by_cases hname : name = r.key
      · simp [hname]
      · rw [if_neg hname, List.map_cons, ih, List.map_cons]
        have hmem : r.key ∈ name :: blocks.map Prod.fst ↔ r.key ∈ blocks.map Prod.fst :=
          List.mem_cons.trans (or_iff_right (Ne.symm hname))
        by_cases hkey : r.key ∈ blocks.map Prod.fst
        · rw [if_pos hkey, if_pos (hmem.mpr hkey)]
        · rw [if_neg hkey, if_neg (hmem.not.mpr hkey), List.cons_append]

theorem nodup_keys_ofRecords (records : List Record) :
    ((ofRecords records).blocks.map Prod.fst).Nodup := by
  induction records using List.reverseRecOn with
  | nil => exact .nil
  | append_singleton records r ih =>
      rw [ofRecords_snoc, insert, keys_insertInto]
      split
      case isTrue => exact ih
      case isFalse hkey => exact List.nodup_append_comm.mp (List.nodup_cons.mpr ⟨hkey, ih⟩)

theorem mem_keys_ofRecords {key : String} :
    key ∈ (ofRecords records).blocks.map Prod.fst ↔ key ∈ records.map Record.key := by
  induction records using List.reverseRecOn with
  | nil => rfl
  | append_singleton records r ih =>
      rw [ofRecords_snoc, insert, keys_insertInto, List.map_append, List.mem_append, ← ih]
      split
      case isTrue hkey =>
        refine ⟨.inl, fun h => h.elim id fun hr => ?_⟩
        rwa [List.mem_singleton.mp hr]
      case isFalse => rw [List.mem_append, List.map_singleton]

/-! ## The records of the blocks -/

theorem blockOf_of_mem (hkeys : (blocks.map Prod.fst).Nodup) {block : String × Array Record}
    (h : block ∈ blocks) : blockOf block.1 blocks = block.2.toList := by
  induction blocks with
  | nil => cases h
  | cons first blocks ih =>
      obtain ⟨hfirst, hrest⟩ := List.nodup_cons.mp hkeys
      rw [blockOf_cons]
      rcases List.mem_cons.mp h with rfl | h
      · rw [if_pos rfl]
      · have hne : block.1 ≠ first.1 := fun heq => hfirst (heq ▸ List.mem_map_of_mem h)
        rw [if_neg hne, ih hrest h]

theorem flatMap_insertInto_perm (r : Record) (blocks : List (String × Array Record)) :
    ((insertInto r blocks).flatMap fun block => block.2.toList).Perm
      ((blocks.flatMap fun block => block.2.toList) ++ [r]) := by
  induction blocks with
  | nil => exact .refl _
  | cons block blocks ih =>
      obtain ⟨name, held⟩ := block
      rw [insertInto]
      split
      case isTrue =>
        rw [List.flatMap_cons, List.flatMap_cons, Array.toList_push, List.append_assoc,
          List.append_assoc]
        exact List.perm_append_comm.append_left _
      case isFalse =>
        rw [List.flatMap_cons, List.flatMap_cons, List.append_assoc]
        exact ih.append_left _

theorem flatMap_ofRecords_perm (records : List Record) :
    ((ofRecords records).blocks.flatMap fun block => block.2.toList).Perm records := by
  induction records using List.reverseRecOn with
  | nil => exact .refl _
  | append_singleton records r ih =>
      rw [ofRecords_snoc]
      exact (flatMap_insertInto_perm r _).trans (ih.append_right _)

theorem size_ofRecords (records : List Record) : (ofRecords records).size = records.length := by
  induction records using List.reverseRecOn with
  | nil => rfl
  | append_singleton records r ih =>
      rw [ofRecords_snoc, insert, ih, List.length_append, List.length_singleton]

theorem block_ofRecords {block : String × Array Record} (h : block ∈ (ofRecords records).blocks) :
    block.2.toList = records.filter fun r => decide (r.key = block.1) := by
  rw [← get_ofRecords, ← blockOf_of_mem (nodup_keys_ofRecords records) h]
  rfl

/-! ## The number of pairs -/

/-- The pairs are the products of both sides' blocks, whichever further keys are looked at. -/
theorem pairCount_ofRecords (left right : List Record) {keys : Finset String}
    (hkeys : ∀ r ∈ left, r.key ∈ keys) : (ofRecords left).pairCount right =
      ∑ key ∈ keys, ((ofRecords left).get key).size * keyCount right key := by
  have hzero : ∀ key, key ∉ (left ++ right).map Record.key ∨ key ∉ keys →
      keyCount left key * keyCount right key = 0 := by
    rintro key hkey
    have hleft : keyCount left key = 0 := by
      refine List.countP_eq_zero.mpr fun r hr heq => ?_
      obtain rfl := of_decide_eq_true heq
      refine hkey.elim (fun h => h ?_) fun h => h (hkeys r hr)
      exact List.mem_map_of_mem (List.mem_append_left _ hr)
    rw [hleft, Nat.zero_mul]
  simp only [size_get_ofRecords]
  rw [← countP_sameBlock_eq_pairCount, countP_sameBlock_eq_sum]
  set found := ((left ++ right).map Record.key).toFinset
  calc ∑ key ∈ found, keyCount left key * keyCount right key
      = ∑ key ∈ found ∪ keys, keyCount left key * keyCount right key :=
        Finset.sum_subset Finset.subset_union_left fun key _ hkey =>
          hzero key (.inl fun h => hkey (List.mem_toFinset.mpr h))
    _ = ∑ key ∈ keys, keyCount left key * keyCount right key :=
        (Finset.sum_subset Finset.subset_union_right fun key _ hkey => hzero key (.inr hkey)).symm

theorem pairCount_perm (index : BlockIndex) {right right' : List Record} (h : right.Perm right') :
    index.pairCount right = index.pairCount right' :=
  (h.map _).sum_eq

/-! ## Partitions -/

/-- The blocks of an index divide some records by their keys: every record stands in one block, and
every block holds the records of a key, in order. -/
structure Partitions (index : BlockIndex) (records : List Record) : Prop where
  get : ∀ key, (index.get key).toList = records.filter fun r => decide (r.key = key)
  block : ∀ block ∈ index.blocks, index.get block.1 = block.2
  occupied : ∀ block ∈ index.blocks, block.2.toList ≠ []
  unique : ∀ r ∈ records, ∃! k : Fin index.blocks.length, r ∈ index.blocks[k].2.toList
  all : (index.blocks.flatMap fun block => block.2.toList).Perm records
  blockCount : index.blockCount = (records.map Record.key).toFinset.card
  size : index.size = records.length
  sizes : index.size = (index.blocks.map fun block => block.2.size).sum
  isEmpty : index.isEmpty = true ↔ records = []
  pairCount : ∀ (right : List Record) (keys : Finset String), (∀ r ∈ records, r.key ∈ keys) →
    index.pairCount right = ∑ key ∈ keys, (index.get key).size * keyCount right key
  pairCount_perm : ∀ right right' : List Record, right.Perm right' →
    index.pairCount right = index.pairCount right'

theorem existsUnique_block {r : Record} (hr : r ∈ records) :
    ∃! k : Fin (ofRecords records).blocks.length, r ∈ (ofRecords records).blocks[k].2.toList := by
  have hblock : ∀ k : Fin (ofRecords records).blocks.length,
      r ∈ (ofRecords records).blocks[k].2.toList ↔ r.key = (ofRecords records).blocks[k].1 := by
    intro k
    rw [Fin.getElem_fin, block_ofRecords (List.getElem_mem k.isLt), List.mem_filter,
      and_iff_right hr, decide_eq_true_iff]
  simp only [hblock]
  obtain ⟨block, hmem, hkey⟩ := List.mem_map.mp
    (mem_keys_ofRecords.mpr (List.mem_map_of_mem hr : r.key ∈ records.map Record.key))
  obtain ⟨k, hk, rfl⟩ := List.getElem_of_mem hmem
  refine ⟨⟨k, hk⟩, hkey.symm, fun j hj => Fin.ext ?_⟩
  have hkeys (i : Fin (ofRecords records).blocks.length) :
      i < ((ofRecords records).blocks.map Prod.fst).length := by
    rw [List.length_map]
    exact i.isLt
  refine (@List.Nodup.getElem_inj_iff _ _ (nodup_keys_ofRecords records) j (hkeys j) k
    (hkeys ⟨k, hk⟩)).mp ?_
  rw [List.getElem_map, List.getElem_map, hkey]
  exact hj.symm

theorem partitions_ofRecords (records : List Record) : (ofRecords records).Partitions records where
  get := get_ofRecords records
  block b hb := by
    rw [← Array.toList_inj, get_ofRecords, block_ofRecords hb]
  occupied b hb := by
    obtain ⟨r, hr, hkey⟩ := List.mem_map.mp (mem_keys_ofRecords.mp (List.mem_map_of_mem hb))
    rw [block_ofRecords hb]
    exact List.ne_nil_of_mem (List.mem_filter.mpr ⟨hr, decide_eq_true hkey⟩)
  unique _ hr := existsUnique_block hr
  all := flatMap_ofRecords_perm records
  blockCount := by
    have hkeys : ((ofRecords records).blocks.map Prod.fst).toFinset =
        (records.map Record.key).toFinset := by
      ext key
      rw [List.mem_toFinset, List.mem_toFinset, mem_keys_ofRecords]
    rw [← hkeys, List.toFinset_card_of_nodup (nodup_keys_ofRecords records), List.length_map]
    rfl
  size := size_ofRecords records
  sizes := by
    rw [size_ofRecords, ← (flatMap_ofRecords_perm records).length_eq, List.length_flatMap]
    rfl
  isEmpty := by
    rw [isEmpty, size_ofRecords, beq_iff_eq, List.length_eq_zero_iff]
  pairCount right _ hkeys := pairCount_ofRecords records right hkeys
  pairCount_perm _ _ := (ofRecords records).pairCount_perm

/-- Whatever is inserted into the index of some records, its blocks divide all of them, the first ones
and those that were inserted. -/
theorem inserted_partitions (initial inserted : List Record) :
    (inserted.foldl insert (ofRecords initial)).Partitions (initial ++ inserted) := by
  have hinserted : inserted.foldl insert (ofRecords initial) = ofRecords (initial ++ inserted) :=
    List.foldl_append.symm
  rw [hinserted]
  exact partitions_ofRecords _

end Linkage.BlockIndex
