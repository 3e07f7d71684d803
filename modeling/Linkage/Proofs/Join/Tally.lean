import Linkage.Join.Tally
import Linkage.Proofs.Agreement.RecordComparator
import Linkage.Proofs.Traversal
import Mathlib.Data.List.Induction

/-
# Tallies of a comparator's patterns

The entries of a tally are patterns of its comparator that occur, whether they were counted pair by
pair or the counts come from elsewhere.

Counting pair by pair is to find the pattern numbers of the pairs, which may fail, and then to count
the numbers, which does not.  The counts of a list of numbers are a histogram of it: the counts of
the numbers with some property sum to how many elements of the list have it.
-/

namespace Linkage

open PatternSpace

namespace Counts

/-! ## The counts of a list of numbers -/

def ofList (is : List Nat) : Counts :=
  is.foldl (fun counts i => counts.add i 1) []

theorem ofList_snoc (is : List Nat) (i : Nat) : ofList (is ++ [i]) = (ofList is).add i 1 := by
  simp [ofList]

/-- The sum of the counts of the numbers with a property. -/
def totalOf (p : Nat → Bool) (counts : Counts) : Nat :=
  ((counts.filter fun x => p x.1).map Prod.snd).foldr (· + ·) 0

theorem totalOf_cons (p : Nat → Bool) (x : Nat × Nat) (counts : Counts) :
    totalOf p (x :: counts) = (if p x.1 then x.2 else 0) + totalOf p counts := by
  cases h : p x.1 <;> simp [totalOf, h]

theorem totalOf_add (p : Nat → Bool) (index n : Nat) (counts : Counts) :
    totalOf p (counts.add index n) = totalOf p counts + if p index then n else 0 := by
  induction counts with
  | nil => exact (totalOf_cons p (index, n) []).trans (Nat.add_comm _ _)
  | cons x counts ih =>
      obtain ⟨i, m⟩ := x
      rw [add]
      split
      case isTrue => rw [totalOf_cons, Nat.add_comm]
      case isFalse =>
        split
        case isTrue heq =>
          rw [totalOf_cons, totalOf_cons, heq]
          split <;> omega
        case isFalse => rw [totalOf_cons, totalOf_cons, ih, Nat.add_assoc]

theorem totalOf_ofList (p : Nat → Bool) (is : List Nat) :
    totalOf p (ofList is) = is.countP p := by
  induction is using List.reverseRecOn with
  | nil => rfl
  | append_singleton is i ih => rw [ofList_snoc, totalOf_add, ih, List.countP_append, List.countP_singleton]

theorem mem_add {index n : Nat} {counts : Counts} {x : Nat × Nat} (h : x ∈ counts.add index n) :
    (x.1 = index ∧ n ≤ x.2) ∨ x ∈ counts := by
  induction counts with
  | nil =>
      rw [List.mem_singleton.mp h]
      exact .inl ⟨rfl, le_rfl⟩
  | cons y counts ih =>
      obtain ⟨i, m⟩ := y
      rw [add] at h
      split at h
      case isTrue =>
        rcases List.mem_cons.mp h with rfl | h
        · exact .inl ⟨rfl, le_rfl⟩
        · exact .inr h
      case isFalse =>
        split at h
        case isTrue heq =>
          rcases List.mem_cons.mp h with rfl | h
          · exact .inl ⟨heq.symm, Nat.le_add_left n m⟩
          · exact .inr (List.mem_cons_of_mem _ h)
        case isFalse =>
          rcases List.mem_cons.mp h with rfl | h
          · exact .inr List.mem_cons_self
          · exact (ih h).imp_right (List.mem_cons_of_mem _)

theorem mem_ofList {is : List Nat} {x : Nat × Nat} (h : x ∈ ofList is) : x.1 ∈ is ∧ 0 < x.2 := by
  induction is using List.reverseRecOn with
  | nil => cases h
  | append_singleton is i ih =>
      rw [ofList_snoc] at h
      rcases mem_add h with ⟨hi, hcount⟩ | h
      · rw [hi]
        exact ⟨List.mem_append_right _ List.mem_cons_self, hcount⟩
      · exact ⟨List.mem_append_left _ (ih h).1, (ih h).2⟩

theorem positive_ofList (is : List Nat) : (ofList is).positive = ofList is :=
  List.filter_eq_self.mpr fun _ h => decide_eq_true (mem_ofList h).2

end Counts

namespace Tally

/-- A tally of patterns that fit its comparator, none of which is listed without occurring. -/
def Sound (t : Tally) : Prop :=
  ∀ e ∈ t.entries, Fits t.comparator.levels e.pattern ∧ 0 < e.count

theorem entryOf_spec {c : RecordComparator} (hc : c.Numbered) {x : Nat × Nat} {e : Entry}
    (h : entryOf c x = .ok e) : Fits c.levels e.pattern ∧ e.count = x.2 := by
  by_cases hx : x.1 < c.patternCount
  · rw [entryOf, RecordComparator.patternAt_of_lt hx] at h
    obtain rfl := Except.ok.inj h
    exact ⟨fits_decode (hc ▸ hx), rfl⟩
  · rw [entryOf, RecordComparator.patternAt, if_neg hx] at h
    cases h

theorem sound_ofCounts {c : RecordComparator} (hc : c.Numbered) {counts : Counts} {t : Tally}
    (h : ofCounts c counts = .ok t) : t.comparator = c ∧ t.Sound := by
  rw [ofCounts] at h
  cases hentries : counts.positive.mapM (entryOf c) with
  | error e =>
      rw [hentries] at h
      cases h
  | ok entries =>
      rw [hentries] at h
      obtain rfl := Except.ok.inj h
      refine ⟨rfl, ?_⟩
      intro e he
      obtain ⟨x, hx, hentry⟩ := (Traversal.mem_mapM_iff hentries e).mp he
      obtain ⟨hfits, hcount⟩ := entryOf_spec hc hentry
      refine ⟨hfits, hcount ▸ ?_⟩
      exact of_decide_eq_true (List.mem_filter.mp hx).2

/-! ## The tally of a list of pattern numbers -/

variable {c : RecordComparator} {is : List Nat}

def ofIndices (c : RecordComparator) (is : List Nat) : Tally :=
  ⟨c, (Counts.ofList is).map fun x => ⟨x.1, decode c.levels x.1, x.2⟩⟩

theorem ofCounts_ofList (h : ∀ i ∈ is, i < c.patternCount) :
    ofCounts c (Counts.ofList is) = .ok (ofIndices c is) := by
  have hentries : (Counts.ofList is).mapM (entryOf c) = .ok (ofIndices c is).entries := by
    refine Traversal.mapM_eq_ok_map fun x hx => ?_
    rw [entryOf, RecordComparator.patternAt_of_lt (h x.1 (Counts.mem_ofList hx).1)]
    rfl
  rw [ofCounts, Counts.positive_ofList, hentries]
  rfl

theorem sound_ofIndices (hc : c.Numbered) (h : ∀ i ∈ is, i < c.patternCount) :
    (ofIndices c is).Sound :=
  (sound_ofCounts hc (ofCounts_ofList h)).2

/-- How many pairs the entries with some property count. -/
def countOfAll (t : Tally) (p : Entry → Bool) : Nat :=
  ((t.entries.filter p).map Entry.count).foldr (· + ·) 0

theorem countOfAll_ofIndices (c : RecordComparator) (is : List Nat) (p : Nat → Bool) :
    (ofIndices c is).countOfAll (fun e => p e.index) = is.countP p := by
  rw [← Counts.totalOf_ofList, countOfAll, ofIndices, List.filter_map, List.map_map]
  rfl

theorem total_ofIndices (c : RecordComparator) (is : List Nat) :
    (ofIndices c is).total = is.length := by
  have h := countOfAll_ofIndices c is fun _ => true
  rw [List.countP_true] at h
  rw [← h, countOfAll, List.filter_true]
  rfl

theorem index_mem_of_mem_ofIndices {e : Entry} (h : e ∈ (ofIndices c is).entries) :
    e.index ∈ is := by
  obtain ⟨x, hx, rfl⟩ := List.mem_map.mp h
  exact (Counts.mem_ofList hx).1

theorem exists_entry_ofIndices (c : RecordComparator) {i : Nat} (h : i ∈ is) :
    ∃ e ∈ (ofIndices c is).entries, e.index = i ∧ e.pattern = decode c.levels i := by
  -- The entries with the number count how often it occurs, which is not 0.
  have hcount : 0 < is.countP (· == i) := List.countP_pos_iff.mpr ⟨i, h, beq_self_eq_true i⟩
  rw [← countOfAll_ofIndices c] at hcount
  have hne : (ofIndices c is).entries.filter (fun e => e.index == i) ≠ [] := by
    intro hnil
    rw [countOfAll, hnil] at hcount
    exact absurd hcount (lt_irrefl 0)
  obtain ⟨e, hfound⟩ := List.exists_mem_of_ne_nil _ hne
  obtain ⟨he, hindex⟩ := List.mem_filter.mp hfound
  obtain rfl : e.index = i := eq_of_beq hindex
  refine ⟨e, he, rfl, ?_⟩
  obtain ⟨x, -, rfl⟩ := List.mem_map.mp he
  rfl

end Tally

/-! ## Counting pairs -/

section Counting

variable {c : RecordComparator}

def RecordComparator.indexOf (c : RecordComparator) (pair : Record × Record) : Except Error Nat :=
  c.compareIndex pair.1 pair.2

theorem RecordComparator.Numbered.indexOf_lt (hc : c.Numbered) {pair : Record × Record} {i : Nat}
    (h : c.indexOf pair = .ok i) : i < c.patternCount := by
  rw [indexOf, compareIndex_eq] at h
  cases hp : c.compare pair.1 pair.2 with
  | error e =>
      rw [hp] at h
      cases h
  | ok p =>
      rw [hp] at h
      obtain rfl := Except.ok.inj h
      exact hc.encode_lt (fits_compare hp)

theorem RecordComparator.Numbered.mapM_indexOf_lt (hc : c.Numbered)
    {pairs : List (Record × Record)} {is : List Nat} (h : pairs.mapM c.indexOf = .ok is) :
    ∀ i ∈ is, i < c.patternCount := by
  intro i hi
  obtain ⟨pair, -, hpair⟩ := (Traversal.mem_mapM_iff h i).mp hi
  exact hc.indexOf_lt hpair

namespace Counter

def push (k : Counter) (i : Nat) : Counter :=
  { k with counts := k.counts.add i 1 }

theorem foldl_push (c : RecordComparator) (is : List Nat) :
    is.foldl push (empty c) = ⟨c, Counts.ofList is⟩ := by
  induction is using List.reverseRecOn with
  | nil => rfl
  | append_singleton is i ih =>
      rw [List.foldl_append, ih, Counts.ofList_snoc]
      rfl

/-- A number that is refused leaves the counter as it was. -/
theorem run_addIndex (i : Nat) (k : Counter) : (addIndex i).run k =
    if i < k.comparator.patternCount then (.ok (), k.push i)
    else (.error (.misuse (.patternIndex i k.comparator.patternCount)), k) := by
  have hget : (get : Action Counter Counter).run k = (.ok k, k) := rfl
  rw [addIndex, Action.run_bind_of_ok hget]
  split <;> rfl

/-- A pair without a number, or with one that is refused, leaves the counter as it was. -/
theorem run_addPair (a b : Record) (k : Counter) : (addPair a b).run k =
    match k.comparator.compareIndex a b with
    | .ok i =>
      if i < k.comparator.patternCount then (.ok i, k.push i)
      else (.error (.misuse (.patternIndex i k.comparator.patternCount)), k)
    | .error e => (.error e, k) := by
  have hget : (get : Action Counter Counter).run k = (.ok k, k) := rfl
  rw [addPair, Action.run_bind_of_ok hget]
  cases k.comparator.compareIndex a b with
  | error e => rfl
  | ok i =>
      have hfound : (liftM (.ok i : Except Error Nat) : Action Counter Nat).run k = (.ok i, k) := rfl
      rw [Action.run_bind_of_ok hfound]
      dsimp only
      by_cases hi : i < k.comparator.patternCount
      · have hadd : (addIndex i).run k = (.ok (), k.push i) := (run_addIndex i k).trans (if_pos hi)
        rw [Action.run_bind_of_ok hadd, if_pos hi]
        rfl
      · rw [if_neg hi]
        exact Action.run_bind_of_error ((run_addIndex i k).trans (if_neg hi)) _

theorem run_addPair_of_numbered (hc : c.Numbered) {k : Counter} (hk : k.comparator = c)
    (a b : Record) : (addPair a b).run k =
    match c.compareIndex a b with
    | .ok i => (.ok i, k.push i)
    | .error e => (.error e, k) := by
  rw [run_addPair, hk]
  cases hi : c.compareIndex a b with
  | error e => rfl
  | ok i => exact if_pos (hc.indexOf_lt (show c.indexOf (a, b) = .ok i from hi))

theorem exec_count (hc : c.Numbered) {k : Counter} (hk : k.comparator = c)
    (pair : Record × Record) : (count pair).exec k = (c.indexOf pair).map k.push := by
  rw [Action.exec, count, Action.run_discard, run_addPair_of_numbered hc hk,
    RecordComparator.indexOf]
  cases c.compareIndex pair.1 pair.2 <;> rfl

theorem exec_forM_count (hc : c.Numbered) (pairs : List (Record × Record)) :
    (pairs.forM count).exec (empty c) =
      (pairs.mapM c.indexOf).map fun is => ⟨c, Counts.ofList is⟩ := by
  have hstep (k : Counter) (pair : Record × Record) (hk : k.comparator = c) :
      (count pair).exec k = (c.indexOf pair).map k.push := exec_count hc hk pair
  have hfold := Traversal.foldlM_eq_mapM (fun k : Counter => k.comparator = c) hstep
    (fun _ _ hk => hk) (rfl : (empty c).comparator = c) pairs
  rw [Action.exec_forM, hfold, funext (foldl_push c)]

end Counter

/-- Counting the pairs of two collections is to find their numbers and to count these. -/
theorem tally_eq (hc : c.Numbered) (left right : List Record) : tally c left right =
    (((BlockIndex.ofRecords left).pairs right).mapM c.indexOf).map (Tally.ofIndices c) := by
  rw [tally, Counter.exec_forM_count hc]
  cases h : ((BlockIndex.ofRecords left).pairs right).mapM c.indexOf with
  | error e => rfl
  | ok is => exact Tally.ofCounts_ofList (hc.mapM_indexOf_lt h)

/-- The tally of two collections, with a number for each blocked pair. -/
theorem tally_eq_ok (hc : c.Numbered) {left right : List Record} {t : Tally}
    (h : tally c left right = .ok t) :
    ∃ is, ((BlockIndex.ofRecords left).pairs right).mapM c.indexOf = .ok is ∧
      t = .ofIndices c is := by
  rw [tally_eq hc] at h
  obtain ⟨is, his, rfl⟩ := Traversal.map_eq_ok_iff.mp h
  exact ⟨is, his, rfl⟩

theorem sound_tally (hc : c.Numbered) {left right : List Record} {t : Tally}
    (h : tally c left right = .ok t) : t.comparator = c ∧ t.Sound := by
  obtain ⟨is, his, rfl⟩ := tally_eq_ok hc h
  exact ⟨rfl, Tally.sound_ofIndices hc (hc.mapM_indexOf_lt his)⟩

theorem total_of_tally (hc : c.Numbered) {left right : List Record} {t : Tally}
    (h : tally c left right = .ok t) :
    t.total = ((BlockIndex.ofRecords left).pairs right).length := by
  obtain ⟨is, his, rfl⟩ := tally_eq_ok hc h
  rw [Tally.total_ofIndices]
  exact (Traversal.mapM_eq_ok_iff.mp his).length_eq.symm

/-! ## Counting labeled pairs -/

/-- The pattern number of a pair, and whether its records have the same id. -/
def RecordComparator.labeledIndexOf (c : RecordComparator) (pair : Record × Record) :
    Except Error (Bool × Nat) :=
  (c.indexOf pair).map fun i => (decide (pair.1.id = pair.2.id), i)

def labeledAs (label : Bool) (xs : List (Bool × Nat)) : List Nat :=
  (xs.filter (·.1 == label)).map Prod.snd

namespace TruthCounter

def push (k : TruthCounter) (x : Bool × Nat) : TruthCounter :=
  if x.1 then { k with matched := k.matched.push x.2 }
  else { k with unmatched := k.unmatched.push x.2 }

theorem foldl_push (c : RecordComparator) (xs : List (Bool × Nat)) :
    xs.foldl push ⟨.empty c, .empty c⟩ =
      ⟨⟨c, Counts.ofList (labeledAs true xs)⟩, ⟨c, Counts.ofList (labeledAs false xs)⟩⟩ := by
  induction xs using List.reverseRecOn with
  | nil => rfl
  | append_singleton xs x ih =>
      obtain ⟨label, i⟩ := x
      rw [List.foldl_append, ih]
      cases label <;>
        simp [push, Counter.push, labeledAs, Counts.ofList_snoc]

theorem exec_count (hc : c.Numbered) {k : TruthCounter}
    (hk : k.matched.comparator = c ∧ k.unmatched.comparator = c) (pair : Record × Record) :
    (count pair).exec k = (c.labeledIndexOf pair).map k.push := by
  have hmatched := Counter.exec_count hc hk.1 pair
  have hunmatched := Counter.exec_count hc hk.2 pair
  rw [count, RecordComparator.labeledIndexOf]
  by_cases h : pair.1.id = pair.2.id
  · rw [if_pos h, Action.exec_onPart, hmatched]
    cases c.indexOf pair with
    | error e => rfl
    | ok i => simp [push, h, Except.map]
  · rw [if_neg h, Action.exec_onPart, hunmatched]
    cases c.indexOf pair with
    | error e => rfl
    | ok i => simp [push, h, Except.map]

theorem exec_forM_count (hc : c.Numbered) (pairs : List (Record × Record)) :
    (pairs.forM count).exec ⟨.empty c, .empty c⟩ = (pairs.mapM c.labeledIndexOf).map fun xs =>
      ⟨⟨c, Counts.ofList (labeledAs true xs)⟩, ⟨c, Counts.ofList (labeledAs false xs)⟩⟩ := by
  let inv (k : TruthCounter) : Prop := k.matched.comparator = c ∧ k.unmatched.comparator = c
  have hstep (k : TruthCounter) (pair : Record × Record) (hk : inv k) :
      (count pair).exec k = (c.labeledIndexOf pair).map k.push := exec_count hc hk pair
  have hkeep (k : TruthCounter) (x : Bool × Nat) (hk : inv k) : inv (k.push x) := by
    obtain ⟨label, i⟩ := x
    cases label <;> exact hk
  have hempty : inv ⟨.empty c, .empty c⟩ := ⟨rfl, rfl⟩
  rw [Action.exec_forM, Traversal.foldlM_eq_mapM inv hstep hkeep hempty pairs, funext (foldl_push c)]

end TruthCounter

theorem RecordComparator.Numbered.labeledAs_lt (hc : c.Numbered)
    {pairs : List (Record × Record)} {xs : List (Bool × Nat)}
    (h : pairs.mapM c.labeledIndexOf = .ok xs) (label : Bool) :
    ∀ i ∈ labeledAs label xs, i < c.patternCount := by
  intro i hi
  obtain ⟨x, hx, rfl⟩ := List.mem_map.mp hi
  obtain ⟨pair, -, hpair⟩ := (Traversal.mem_mapM_iff h x).mp (List.mem_of_mem_filter hx)
  obtain ⟨i, hindex, rfl⟩ := Traversal.map_eq_ok_iff.mp hpair
  exact hc.indexOf_lt hindex

/-- Counting labeled pairs is to find their numbers and to count those with either label. -/
theorem tallyTruth_eq (hc : c.Numbered) {left right : List Record}
    (hids : (left ++ right).all (·.schema.hasId)) : tallyTruth c left right =
    (((BlockIndex.ofRecords left).pairs right).mapM c.labeledIndexOf).map fun xs =>
      (Tally.ofIndices c (labeledAs true xs), Tally.ofIndices c (labeledAs false xs)) := by
  rw [tallyTruth, if_pos hids, TruthCounter.exec_forM_count hc]
  cases h : ((BlockIndex.ofRecords left).pairs right).mapM c.labeledIndexOf with
  | error e => rfl
  | ok xs =>
      have hmatched := Tally.ofCounts_ofList (hc.labeledAs_lt h true)
      have hunmatched := Tally.ofCounts_ofList (hc.labeledAs_lt h false)
      simp only [Except.map, bind, Except.bind, Counter.snapshot, hmatched, hunmatched]
      rfl

theorem hasId_of_tallyTruth {left right : List Record} {truth : Tally × Tally}
    (h : tallyTruth c left right = .ok truth) : (left ++ right).all (·.schema.hasId) := by
  by_contra hids
  rw [tallyTruth, if_neg hids] at h
  cases h

/-- Both tallies of labeled pairs come from one list of labeled numbers. -/
theorem tallyTruth_eq_ok (hc : c.Numbered) {left right : List Record} {matched unmatched : Tally}
    (h : tallyTruth c left right = .ok (matched, unmatched)) :
    ∃ xs, ((BlockIndex.ofRecords left).pairs right).mapM c.labeledIndexOf = .ok xs ∧
      matched = .ofIndices c (labeledAs true xs) ∧ unmatched = .ofIndices c (labeledAs false xs) := by
  rw [tallyTruth_eq hc (hasId_of_tallyTruth h)] at h
  obtain ⟨xs, hxs, heq⟩ := Traversal.map_eq_ok_iff.mp h
  obtain ⟨rfl, rfl⟩ := Prod.mk.inj heq
  exact ⟨xs, hxs, rfl, rfl⟩

theorem sound_tallyTruth (hc : c.Numbered) {left right : List Record} {matched unmatched : Tally}
    (h : tallyTruth c left right = .ok (matched, unmatched)) :
    (matched.comparator = c ∧ matched.Sound) ∧ (unmatched.comparator = c ∧ unmatched.Sound) := by
  obtain ⟨xs, hxs, rfl, rfl⟩ := tallyTruth_eq_ok hc h
  exact ⟨⟨rfl, Tally.sound_ofIndices hc (hc.labeledAs_lt hxs true)⟩,
    rfl, Tally.sound_ofIndices hc (hc.labeledAs_lt hxs false)⟩

theorem mem_labeledAs {xs : List (Bool × Nat)} {label : Bool} {i : Nat} (h : (label, i) ∈ xs) :
    i ∈ labeledAs label xs :=
  List.mem_map.mpr ⟨(label, i), List.mem_filter.mpr ⟨h, beq_self_eq_true label⟩, rfl⟩

/-- The pattern of a blocked pair was counted in the tally of its label. -/
theorem exists_entry_of_tallyTruth (hc : c.Numbered) {left right : List Record}
    {matched unmatched : Tally} (h : tallyTruth c left right = .ok (matched, unmatched))
    {pair : Record × Record} (hpair : pair ∈ (BlockIndex.ofRecords left).pairs right) :
    ∃ i, c.indexOf pair = .ok i ∧
      (pair.1.id = pair.2.id → ∃ e ∈ matched.entries, e.pattern = decode c.levels i) ∧
      (pair.1.id ≠ pair.2.id → ∃ e ∈ unmatched.entries, e.pattern = decode c.levels i) := by
  obtain ⟨xs, hxs, rfl, rfl⟩ := tallyTruth_eq_ok hc h
  obtain ⟨x, hx⟩ := Traversal.exists_of_mapM_eq_ok hxs hpair
  have hmem := (Traversal.mem_mapM_iff hxs x).mpr ⟨pair, hpair, hx⟩
  obtain ⟨i, hi, rfl⟩ := Traversal.map_eq_ok_iff.mp hx
  have hentry : ∀ label, decide (pair.1.id = pair.2.id) = label →
      ∃ e ∈ (Tally.ofIndices c (labeledAs label xs)).entries, e.pattern = decode c.levels i := by
    rintro label rfl
    obtain ⟨e, he, -, hpattern⟩ := Tally.exists_entry_ofIndices c (mem_labeledAs hmem)
    exact ⟨e, he, hpattern⟩
  exact ⟨i, hi, fun hid => hentry true (decide_eq_true hid),
    fun hid => hentry false (decide_eq_false hid)⟩

end Counting

end Linkage
