import Linkage.Proofs.Agreement.Failure
import Linkage.Proofs.Join.BlockIndex
import Linkage.Proofs.Join.Tally
import Mathlib.Algebra.BigOperators.Fin
import Mathlib.Data.Set.Card

/-
# Tallies as frequency tables

The blocked join of two collections is a nested search: by right record, and then by left record,
the pairs with one key.  A tally of the join is a table of it: under a pattern number stands how
many pairs of positions have that number, the numbers ascend, and so the halving search of the table
finds every count.  Main statements: `tally_tabulates`, and `tallyTruth_splits`, by which the labels
of the pairs divide the table in two.
-/

namespace Linkage

open PatternSpace

/-! ## Tables whose numbers ascend -/

namespace Counts

/-- Counts whose numbers ascend. -/
def Ascending (counts : Counts) : Prop :=
  counts.Pairwise fun x y => x.1 < y.1

theorem Ascending.add {counts : Counts} (h : counts.Ascending) (index n : Nat) :
    (counts.add index n).Ascending := by
  induction counts with
  | nil => exact List.pairwise_singleton _ _
  | cons x counts ih =>
      obtain ⟨i, m⟩ := x
      obtain ⟨hhead, htail⟩ := List.pairwise_cons.mp h
      rw [Counts.add]
      split
      case isTrue hlt =>
        refine List.pairwise_cons.mpr ⟨?_, h⟩
        intro y hy
        rcases List.mem_cons.mp hy with rfl | hy
        · exact hlt
        · exact hlt.trans (hhead y hy)
      case isFalse hge =>
        split
        case isTrue => exact List.pairwise_cons.mpr ⟨hhead, htail⟩
        case isFalse hne =>
          refine List.pairwise_cons.mpr ⟨?_, ih htail⟩
          intro y hy
          rcases mem_add hy with ⟨hy, -⟩ | hy
          · show i < y.1
            omega
          · exact hhead y hy

theorem ascending_ofList (is : List Nat) : (ofList is).Ascending := by
  induction is using List.reverseRecOn with
  | nil => exact .nil
  | append_singleton is i ih =>
      rw [ofList_snoc]
      exact ih.add i 1

end Counts

namespace Tally

/-- A table whose numbers ascend. -/
def Ascending (entries : List Entry) : Prop :=
  entries.Pairwise fun e f => e.index < f.index

theorem ascending_ofIndices (c : RecordComparator) (is : List Nat) :
    Ascending (ofIndices c is).entries :=
  List.pairwise_map.mpr (Counts.ascending_ofList is)

theorem seek_eq_some {entries : Array Entry} {index low high : Nat} {h : high ≤ entries.size}
    {e : Entry} (hseek : seek entries index low high h = some e) :
    e ∈ entries ∧ e.index = index := by
  fun_induction seek entries index low high h with
  | case1 low high h hlow middle hmiddle found hindex =>
      obtain rfl := Option.some.inj hseek
      exact ⟨Array.getElem_mem hmiddle, hindex⟩
  | case2 low high h hlow middle hmiddle found hindex hbelow ih => exact ih hseek
  | case3 low high h hlow middle hmiddle found hindex habove ih => exact ih hseek
  | case4 => cases hseek

theorem Ascending.index_le {entries : Array Entry} (h : Ascending entries.toList) {j k : Nat}
    (hjk : j ≤ k) (hk : k < entries.size) : entries[j].index ≤ entries[k].index := by
  rcases Nat.lt_or_eq_of_le hjk with hlt | rfl
  · exact (List.pairwise_iff_getElem.mp h j k (hlt.trans hk) hk hlt).le
  · exact le_rfl

theorem isSome_seek {entries : Array Entry} (hentries : Ascending entries.toList)
    {index low high k : Nat} {h : high ≤ entries.size} (hlow : low ≤ k) (hhigh : k < high)
    (hsize : k < entries.size) (hk : entries[k].index = index) :
    (seek entries index low high h).isSome := by
  fun_induction seek entries index low high h with
  | case1 => rfl
  | case2 low high h hlt middle hmiddle found hne hbelow ih =>
      -- What stands up to the middle is below the number, so the number stands after it.
      have hright : middle < k := by
        refine Nat.lt_of_not_le fun hle => ?_
        have hindex : entries[k].index ≤ found.index := hentries.index_le hle hmiddle
        exact absurd hbelow (Nat.not_lt.mpr (hk ▸ hindex))
      exact ih hright hhigh
  | case3 low high h hlt middle hmiddle found hne hbelow ih =>
      have hleft : k < middle := by
        refine Nat.lt_of_not_le fun hle => ?_
        have hindex : found.index ≤ entries[k].index := hentries.index_le hle hsize
        exact hne (le_antisymm (hk ▸ hindex) (Nat.not_lt.mp hbelow))
      exact ih hlow hleft
  | case4 low high h hge => exact absurd (hlow.trans_lt hhigh) hge

theorem Ascending.filter_index {entries : List Entry} (h : Ascending entries) {e : Entry}
    (he : e ∈ entries) : (entries.filter fun f => f.index == e.index) = [e] := by
  induction entries with
  | nil => cases he
  | cons x entries ih =>
      obtain ⟨hhead, htail⟩ := List.pairwise_cons.mp h
      rcases List.mem_cons.mp he with rfl | he
      · have hrest : (entries.filter fun f => f.index == e.index) = [] := by
          refine List.filter_eq_nil_iff.mpr fun f hf => ?_
          rw [beq_iff_eq]
          exact (hhead f hf).ne'
        rw [List.filter_cons, if_pos (beq_self_eq_true e.index), hrest]
      · have hne : ¬ (x.index == e.index) = true := by
          rw [beq_iff_eq]
          exact (hhead e he).ne
        rw [List.filter_cons, if_neg hne, ih htail he]

theorem countOf_of_mem {t : Tally} (ht : Ascending t.entries) {e : Entry} (he : e ∈ t.entries) :
    t.countOf e.index = e.count := by
  obtain ⟨k, hk, hget⟩ := List.mem_iff_getElem.mp he
  have hsome : (seek t.entries.toArray e.index 0 t.entries.toArray.size le_rfl).isSome :=
    isSome_seek ht (Nat.zero_le k) hk hk (congrArg Entry.index hget)
  obtain ⟨found, hfound⟩ := Option.isSome_iff_exists.mp hsome
  obtain ⟨hmem, hindex⟩ := seek_eq_some hfound
  have hfiltered : found ∈ t.entries.filter fun f => f.index == e.index :=
    List.mem_filter.mpr ⟨List.mem_toArray.mp hmem, beq_iff_eq.mpr hindex⟩
  rw [ht.filter_index he] at hfiltered
  rw [countOf, hfound, List.mem_singleton.mp hfiltered]
  rfl

theorem countOf_of_forall_ne {t : Tally} {index : Nat} (h : ∀ e ∈ t.entries, e.index ≠ index) :
    t.countOf index = 0 := by
  rw [countOf]
  cases hfound : seek t.entries.toArray index 0 t.entries.toArray.size le_rfl with
  | none => rfl
  | some e =>
      obtain ⟨hmem, hindex⟩ := seek_eq_some hfound
      exact absurd hindex (h e (List.mem_toArray.mp hmem))

theorem countOf_ofIndices (c : RecordComparator) (is : List Nat) (i : Nat) :
    (ofIndices c is).countOf i = is.count i := by
  by_cases hi : i ∈ is
  · obtain ⟨e, he, rfl, -⟩ := exists_entry_ofIndices c hi
    have hascending := ascending_ofIndices c is
    have hall := countOfAll_ofIndices c is (· == e.index)
    rw [countOfAll, hascending.filter_index he] at hall
    rw [countOf_of_mem hascending he]
    exact hall
  · rw [List.count_eq_zero_of_not_mem hi]
    refine countOf_of_forall_ne fun e he heq => ?_
    exact hi (heq ▸ index_mem_of_mem_ofIndices he)

end Tally

/-! ## Pairs of positions -/

theorem sum_ite_eq_countP {α : Type} (p : α → Prop) [DecidablePred p] (xs : List α) :
    ∑ i : Fin xs.length, (if p xs[i] then 1 else 0) = xs.countP fun x => decide (p x) := by
  refine (Fin.sum_univ_fun_getElem xs fun x => if p x then 1 else 0).trans ?_
  induction xs with
  | nil => rfl
  | cons x xs ih => simp [List.countP_cons, ih, Nat.add_comm]

/-- The pairs of positions of two collections whose records are related. -/
def positions (left right : List Record) (related : Record → Record → Prop) :
    Set (Fin left.length × Fin right.length) :=
  {x | related left[x.1] right[x.2]}

theorem ncard_positions (left right : List Record) (related : Record → Record → Prop)
    [DecidableRel related] : (positions left right related).ncard =
      (crossPairs left right).countP fun x => decide (related x.1 x.2) := by
  have hcard : (positions left right related).ncard =
      (Finset.univ.filter fun x : Fin left.length × Fin right.length =>
        related left[x.1] right[x.2]).card := by
    rw [← Set.ncard_coe_finset, Finset.coe_filter_univ]
    rfl
  calc (positions left right related).ncard
      = ∑ j : Fin right.length, ∑ i : Fin left.length,
          if related left[i] right[j] then 1 else 0 := by
        rw [hcard, Finset.card_filter, Fintype.sum_prod_type_right]
    _ = ∑ j : Fin right.length, left.countP fun l => decide (related l right[j]) :=
        Finset.sum_congr rfl fun j _ => sum_ite_eq_countP (related · right[j]) left
    _ = (right.map fun r => left.countP fun l => decide (related l r)).sum :=
        Fin.sum_univ_fun_getElem right fun r => left.countP fun l => decide (related l r)
    _ = (crossPairs left right).countP fun x => decide (related x.1 x.2) := by
        rw [crossPairs, List.countP_flatMap]
        refine congrArg List.sum (List.map_congr_left fun r _ => ?_)
        rw [Function.comp_apply, List.countP_map]
        rfl

def keyCount (records : List Record) (key : String) : Nat :=
  records.countP fun r => decide (r.key = key)

theorem size_get_ofRecords (records : List Record) (key : String) :
    ((BlockIndex.ofRecords records).get key).size = keyCount records key := by
  rw [← Array.length_toList, BlockIndex.get_ofRecords, keyCount, List.countP_eq_length_filter]

theorem countP_sameBlock (left right : List Record) : (crossPairs left right).countP sameBlock =
    ((right.map Record.key).map (keyCount left)).sum := by
  rw [crossPairs, List.countP_flatMap, List.map_map]
  refine congrArg List.sum (List.map_congr_left fun r _ => ?_)
  rw [Function.comp_apply, List.countP_map]
  rfl

theorem countP_sameBlock_eq_pairCount (left right : List Record) :
    (crossPairs left right).countP sameBlock = (BlockIndex.ofRecords left).pairCount right := by
  rw [countP_sameBlock, List.map_map, BlockIndex.pairCount]
  refine congrArg List.sum (List.map_congr_left fun r _ => ?_)
  exact (size_get_ofRecords left r.key).symm

/-- The blocked pairs are the products of both sides' blocks. -/
theorem countP_sameBlock_eq_sum (left right : List Record) :
    (crossPairs left right).countP sameBlock =
      ∑ key ∈ ((left ++ right).map Record.key).toFinset, keyCount left key * keyCount right key := by
  have hkeys : (right.map Record.key).toFinset ⊆ ((left ++ right).map Record.key).toFinset := by
    intro key hkey
    rw [List.mem_toFinset] at hkey ⊢
    rw [List.map_append]
    exact List.mem_append_right _ hkey
  have hcount (key : String) : (right.map Record.key).count key = keyCount right key := by
    rw [List.count, List.countP_map]
    rfl
  calc (crossPairs left right).countP sameBlock
      = ∑ key ∈ (right.map Record.key).toFinset,
          (right.map Record.key).count key • keyCount left key := by
        rw [countP_sameBlock, Finset.sum_list_map_count]
    _ = ∑ key ∈ ((left ++ right).map Record.key).toFinset,
          (right.map Record.key).count key • keyCount left key := by
        -- A key of left records alone has no right record to pair them with.
        refine Finset.sum_subset hkeys fun key _ hkey => ?_
        rw [List.count_eq_zero_of_not_mem fun h => hkey (List.mem_toFinset.mpr h), zero_nsmul]
    _ = ∑ key ∈ ((left ++ right).map Record.key).toFinset, keyCount left key * keyCount right key :=
        Finset.sum_congr rfl fun key _ => by rw [hcount, smul_eq_mul, Nat.mul_comm]

/-- What a traversal of the blocked pairs finds with some property stands for as many pairs of
positions. -/
theorem countP_of_blocked {β : Type} {f : Record × Record → Except Error β} {left right : List Record}
    {ys : List β} (h : ((BlockIndex.ofRecords left).pairs right).mapM f = .ok ys) {q : β → Bool}
    {related : Record → Record → Prop} (hq : ∀ x y, f x = .ok y → (q y = true ↔ related x.1 x.2)) :
    ys.countP q = (positions left right fun l r => l.key = r.key ∧ related l r).ncard := by
  classical
  rw [ncard_positions, Traversal.countP_of_mapM_eq_ok h (p := fun x => decide (related x.1 x.2)),
    BlockIndex.pairs_ofRecords, List.countP_filter]
  · refine List.countP_congr fun x _ => ?_
    rw [Bool.and_eq_true, sameBlock, decide_eq_true_iff, decide_eq_true_iff, decide_eq_true_iff]
    exact and_comm
  · intro x y hy
    exact Bool.eq_iff_iff.mpr ((hq x y hy).trans decide_eq_true_iff.symm)

/-! ## The table of a join -/

section Table

variable {c : RecordComparator}

theorem RecordComparator.indexOf_eq_error_iff {pair : Record × Record} {e : Error} :
    c.indexOf pair = .error e ↔ c.compare pair.1 pair.2 = .error e := by
  rw [indexOf, compareIndex_eq]
  exact Traversal.map_eq_error_iff

theorem RecordComparator.exists_indexOf_iff {pair : Record × Record} :
    (∃ i, c.indexOf pair = .ok i) ↔ ∃ p, c.compare pair.1 pair.2 = .ok p := by
  rw [indexOf, compareIndex_eq]
  cases c.compare pair.1 pair.2 <;> simp [Except.map]

/-- The failure of the first blocked pair that cannot be compared, by right record and then by left
record. -/
def FirstFailure (c : RecordComparator) (left right : List Record) (e : Error) : Prop :=
  ∃ before pair after, (crossPairs left right).filter sameBlock = before ++ pair :: after ∧
    (∀ x ∈ before, ∃ p, c.compare x.1 x.2 = .ok p) ∧ c.compare pair.1 pair.2 = .error e

theorem tally_eq_error_iff (hc : c.Numbered) (left right : List Record) (e : Error) :
    tally c left right = .error e ↔ FirstFailure c left right e := by
  rw [tally_eq hc, Traversal.map_eq_error_iff, BlockIndex.pairs_ofRecords,
    Traversal.mapM_eq_error_iff]
  simp only [RecordComparator.indexOf_eq_error_iff, RecordComparator.exists_indexOf_iff]
  rfl

/-- A tally is the frequency table of a join. -/
structure Tally.Tabulates (t : Tally) (c : RecordComparator) (left right : List Record) : Prop where
  comparator : t.comparator = c
  ascending : (t.entries.map Entry.index).Pairwise (· < ·)
  positive : ∀ e ∈ t.entries, 0 < e.count
  encodes : ∀ e ∈ t.entries, c.patternIndex e.pattern = .ok e.index
  countOf : ∀ i, t.countOf i =
    (positions left right fun l r => l.key = r.key ∧ c.compareIndex l r = .ok i).ncard
  total : t.total = (t.entries.map Entry.count).sum
  products : t.total =
    ∑ key ∈ ((left ++ right).map Record.key).toFinset, keyCount left key * keyCount right key
  pairCount : t.total = (BlockIndex.ofRecords left).pairCount right

theorem Tally.patternIndex_of_mem (hc : c.Numbered) {is : List Nat}
    (his : ∀ i ∈ is, i < c.patternCount) {e : Entry} (he : e ∈ (ofIndices c is).entries) :
    c.patternIndex e.pattern = .ok e.index := by
  obtain ⟨x, hx, rfl⟩ := List.mem_map.mp he
  have hindex : x.1 < PatternSpace.size c.levels := hc ▸ his x.1 (Counts.mem_ofList hx).1
  rw [RecordComparator.patternIndex_of_fits (fits_decode hindex), encode_decode hindex]

theorem tabulates_of_tally (hc : c.Numbered) {left right : List Record} {t : Tally}
    (h : tally c left right = .ok t) : t.Tabulates c left right := by
  obtain ⟨is, his, rfl⟩ := tally_eq_ok hc h
  have hlt := hc.mapM_indexOf_lt his
  have htotal : (Tally.ofIndices c is).total = (crossPairs left right).countP sameBlock := by
    rw [total_of_tally hc h, BlockIndex.pairs_ofRecords, List.countP_eq_length_filter]
  have hcount (i : Nat) : (Tally.ofIndices c is).countOf i =
      (positions left right fun l r => l.key = r.key ∧ c.compareIndex l r = .ok i).ncard := by
    rw [Tally.countOf_ofIndices, List.count]
    refine countP_of_blocked his fun x j hj => ?_
    rw [beq_iff_eq, ← RecordComparator.indexOf, hj, Except.ok.injEq]
  exact {
    comparator := rfl
    ascending := List.pairwise_map.mpr (Tally.ascending_ofIndices c is)
    positive := fun e he => (Tally.sound_ofIndices hc hlt e he).2
    encodes := fun e he => Tally.patternIndex_of_mem hc hlt he
    countOf := hcount
    total := rfl
    products := htotal.trans (countP_sameBlock_eq_sum left right)
    pairCount := htotal.trans (countP_sameBlock_eq_pairCount left right) }

/-- A tally fails if some blocked pair cannot be compared, with the failure of the first such pair;
or else it is the frequency table of the join. -/
theorem tally_frequencies {serial : Nat} {bindings : List Binding} {handleBlanks : Bool}
    {c : RecordComparator} (hmake : RecordComparator.make serial bindings handleBlanks = .ok c)
    (left right : List Record) :
    ((∃ e, tally c left right = .error e) ↔
      ∃ l ∈ left, ∃ r ∈ right, l.key = r.key ∧ ∃ e, c.compare l r = .error e) ∧
    (∀ e, tally c left right = .error e ↔ FirstFailure c left right e) ∧
    ∀ t, tally c left right = .ok t → t.Tabulates c left right := by
  have hc := RecordComparator.numbered_of_make hmake
  refine ⟨?_, tally_eq_error_iff hc left right, fun t ht => tabulates_of_tally hc ht⟩
  rw [tally_eq hc]
  simp only [Traversal.map_eq_error_iff]
  rw [Traversal.exists_mapM_eq_error_iff]
  constructor
  · rintro ⟨pair, hpair, e, he⟩
    obtain ⟨hl, hr, hkey⟩ := BlockIndex.mem_pairs_ofRecords.mp hpair
    exact ⟨pair.1, hl, pair.2, hr, hkey, e, RecordComparator.indexOf_eq_error_iff.mp he⟩
  · rintro ⟨l, hl, r, hr, hkey, e, he⟩
    exact ⟨(l, r), BlockIndex.mem_pairs_ofRecords.mpr ⟨hl, hr, hkey⟩, e,
      RecordComparator.indexOf_eq_error_iff.mpr he⟩

end Table

/-! ### Two class lists -/

namespace ClassLists

def pupil (form id name number : String) : Record :=
  Schema.recordOf ⟨0, ["form", "id", "name"], ["form"], none, some "id"⟩ [form, id, name] number

def autumn : List Record :=
  [pupil "a" "1" "Ann" "0", pupil "a" "2" "Bob" "1", pupil "b" "3" "Cy" "2"]

/-- The pupils of the next: one of them was entered twice. -/
def spring : List Record :=
  [pupil "a" "1" "Ann" "3", pupil "a" "1" "Anna" "4", pupil "c" "4" "Di" "5"]

def names : RecordComparator :=
  ⟨0, [⟨"name", "name", 0, 0, .exact⟩], false, 2⟩

/-- The patterns of the four pairs of pupils of one form. -/
def patterns : Tally :=
  ⟨names, [⟨0, [0], 3⟩, ⟨1, [1], 1⟩]⟩

theorem tally_patterns : tally names autumn spring = .ok patterns :=
  rfl

end ClassLists

open ClassLists in
theorem tally_frequencies_classLists :
    RecordComparator.make 0 names.bindings false = .ok names ∧
      tally names autumn spring = .ok patterns ∧ patterns.Tabulates names autumn spring := by
  have hmake : RecordComparator.make 0 names.bindings false = .ok names := rfl
  exact ⟨hmake, tally_patterns, (tally_frequencies hmake autumn spring).2.2 patterns tally_patterns⟩

end Linkage
