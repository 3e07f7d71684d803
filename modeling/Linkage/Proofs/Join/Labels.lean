import Linkage.Proofs.Join.Frequency

/-
# Labels divide a tally

The pairs with equal ids and the others are counted apart, in a traversal of its own.  It finds the
same numbers as the traversal without labels, so it fails with it, and what it counts under the two
labels is together what the other counts.  Main statement: `tallyTruth_splits`.
-/

namespace Linkage

section Labels

variable {c : RecordComparator}

theorem countP_labeledAs (p : Nat → Bool) (xs : List (Bool × Nat)) :
    (labeledAs true xs).countP p + (labeledAs false xs).countP p =
      (xs.map Prod.snd).countP p := by
  induction xs with
  | nil => rfl
  | cons x xs ih =>
      obtain ⟨label, i⟩ := x
      cases label with
      | true =>
          show (i :: labeledAs true xs).countP p + (labeledAs false xs).countP p =
            (i :: xs.map Prod.snd).countP p
          rw [List.countP_cons, List.countP_cons, ← ih]
          exact Nat.add_right_comm _ _ _
      | false =>
          show (labeledAs true xs).countP p + (i :: labeledAs false xs).countP p =
            (i :: xs.map Prod.snd).countP p
          rw [List.countP_cons, List.countP_cons, ← ih]
          exact (Nat.add_assoc _ _ _).symm

theorem count_labeledAs (label : Bool) (xs : List (Bool × Nat)) (i : Nat) :
    (labeledAs label xs).count i = xs.countP fun x => x.1 == label && x.2 == i := by
  rw [labeledAs, List.count, List.countP_map, List.countP_filter]
  exact List.countP_congr fun x _ => by simp [and_comm]

/-- The traversal with labels finds the numbers of the traversal without. -/
theorem RecordComparator.mapM_indexOf_eq (c : RecordComparator) (pairs : List (Record × Record)) :
    pairs.mapM c.indexOf = (pairs.mapM c.labeledIndexOf).map (·.map Prod.snd) := by
  refine Traversal.mapM_map_result fun pair _ => ?_
  rw [labeledIndexOf]
  cases c.indexOf pair <;> rfl

/-- A tally is what labeled pairs count together. -/
theorem tally_eq_of_labeled (hc : c.Numbered) (left right : List Record) : tally c left right =
    (((BlockIndex.ofRecords left).pairs right).mapM c.labeledIndexOf).map fun xs =>
      Tally.ofIndices c (xs.map Prod.snd) := by
  rw [tally_eq hc, c.mapM_indexOf_eq]
  cases ((BlockIndex.ofRecords left).pairs right).mapM c.labeledIndexOf <;> rfl

theorem tallyTruth_eq_error_iff (hc : c.Numbered) {left right : List Record}
    (hids : (left ++ right).all (·.schema.hasId)) (e : Error) :
    tallyTruth c left right = .error e ↔ tally c left right = .error e := by
  rw [tallyTruth_eq hc hids, tally_eq_of_labeled hc]
  exact Traversal.map_eq_error_iff.trans Traversal.map_eq_error_iff.symm

theorem tally_ne_missingId (hc : c.Numbered) (left right : List Record) :
    tally c left right ≠ .error .missingId := by
  intro h
  obtain ⟨before, pair, after, -, -, hpair⟩ := (tally_eq_error_iff hc left right _).mp h
  rcases RecordComparator.compare_eq_error hpair with ⟨value, he⟩ | ⟨he, -⟩
  · cases he
  · cases he

theorem tallyTruth_eq_missingId_iff (hc : c.Numbered) (left right : List Record) :
    tallyTruth c left right = .error .missingId ↔
      ∃ r ∈ left ++ right, r.schema.hasId = false := by
  by_cases hids : (left ++ right).all (·.schema.hasId)
  · rw [tallyTruth_eq_error_iff hc hids]
    refine iff_of_false (tally_ne_missingId hc left right) ?_
    rintro ⟨r, hr, hnone⟩
    rw [List.all_eq_true] at hids
    exact absurd (hids r hr) (hnone ▸ Bool.false_ne_true)
  · refine iff_of_true ?_ ?_
    · rw [tallyTruth, if_neg hids]
    · rw [List.all_eq_true] at hids
      push Not at hids
      simpa using hids

/-! ## Nothing to count -/

theorem Tally.isEmpty_ofIndices_iff (c : RecordComparator) (is : List Nat) :
    (Tally.ofIndices c is).isEmpty = true ↔ is = [] := by
  rw [Tally.isEmpty, List.isEmpty_iff]
  constructor
  · intro hnil
    by_contra hne
    obtain ⟨i, hi⟩ := List.exists_mem_of_ne_nil is hne
    obtain ⟨e, he, -⟩ := Tally.exists_entry_ofIndices c hi
    rw [hnil] at he
    cases he
  · rintro rfl
    rfl

/-- A tally is empty if no two records share a key. -/
theorem isEmpty_of_tally_iff (hc : c.Numbered) {left right : List Record} {t : Tally}
    (h : tally c left right = .ok t) :
    t.isEmpty = true ↔ ∀ l ∈ left, ∀ r ∈ right, l.key ≠ r.key := by
  obtain ⟨is, his, rfl⟩ := tally_eq_ok hc h
  rw [Tally.isEmpty_ofIndices_iff]
  have hlen := (Traversal.mapM_eq_ok_iff.mp his).length_eq
  constructor
  · rintro rfl l hl r hr hkey
    have hmem : (l, r) ∈ (BlockIndex.ofRecords left).pairs right :=
      BlockIndex.mem_pairs_ofRecords.mpr ⟨hl, hr, hkey⟩
    rw [List.eq_nil_of_length_eq_zero hlen] at hmem
    cases hmem
  · intro hnone
    refine List.eq_nil_of_length_eq_zero (hlen.symm.trans (List.length_eq_zero_iff.mpr ?_))
    refine List.eq_nil_iff_forall_not_mem.mpr fun pair hpair => ?_
    obtain ⟨hl, hr, hkey⟩ := BlockIndex.mem_pairs_ofRecords.mp hpair
    exact hnone pair.1 hl pair.2 hr hkey

/-- A tally of labeled pairs is empty if no two records that share a key have the label. -/
theorem labeledAs_eq_nil_iff {left right : List Record} {xs : List (Bool × Nat)}
    (hxs : ((BlockIndex.ofRecords left).pairs right).mapM c.labeledIndexOf = .ok xs)
    (label : Bool) : labeledAs label xs = [] ↔
      ∀ l ∈ left, ∀ r ∈ right, l.key = r.key → decide (l.id = r.id) ≠ label := by
  rw [labeledAs, List.map_eq_nil_iff, List.filter_eq_nil_iff]
  constructor
  · intro hnone l hl r hr hkey hlabel
    have hpair : (l, r) ∈ (BlockIndex.ofRecords left).pairs right :=
      BlockIndex.mem_pairs_ofRecords.mpr ⟨hl, hr, hkey⟩
    obtain ⟨x, hx⟩ := Traversal.exists_of_mapM_eq_ok hxs hpair
    have hmem := (Traversal.mem_mapM_iff hxs x).mpr ⟨_, hpair, hx⟩
    obtain ⟨i, -, rfl⟩ := Traversal.map_eq_ok_iff.mp hx
    exact hnone _ hmem (beq_iff_eq.mpr hlabel)
  · intro hnone x hmem hlabel
    obtain ⟨pair, hpair, hx⟩ := (Traversal.mem_mapM_iff hxs x).mp hmem
    obtain ⟨i, -, rfl⟩ := Traversal.map_eq_ok_iff.mp hx
    obtain ⟨hl, hr, hkey⟩ := BlockIndex.mem_pairs_ofRecords.mp hpair
    exact hnone pair.1 hl pair.2 hr hkey (beq_iff_eq.mp hlabel)

theorem isEmpty_of_tallyTruth_iff (hc : c.Numbered) {left right : List Record}
    {matched unmatched : Tally} (h : tallyTruth c left right = .ok (matched, unmatched)) :
    (matched.isEmpty = true ↔ ∀ l ∈ left, ∀ r ∈ right, l.key = r.key → l.id ≠ r.id) ∧
      (unmatched.isEmpty = true ↔ ∀ l ∈ left, ∀ r ∈ right, l.key = r.key → l.id = r.id) := by
  obtain ⟨xs, hxs, rfl, rfl⟩ := tallyTruth_eq_ok hc h
  rw [Tally.isEmpty_ofIndices_iff, Tally.isEmpty_ofIndices_iff, labeledAs_eq_nil_iff hxs,
    labeledAs_eq_nil_iff hxs]
  simp

/-! ## The division of a tally -/

/-- The two tallies of labeled pairs divide a tally. -/
structure Tally.Splits (t matched unmatched : Tally) (c : RecordComparator)
    (left right : List Record) : Prop where
  comparator : matched.comparator = c ∧ unmatched.comparator = c
  countOf_add : ∀ i, matched.countOf i + unmatched.countOf i = t.countOf i
  countOf_matched : ∀ i, matched.countOf i = (positions left right fun l r =>
    l.key = r.key ∧ c.compareIndex l r = .ok i ∧ l.id = r.id).ncard
  total_add : matched.total + unmatched.total = t.total

theorem splits_of_labeled {left right : List Record} {xs : List (Bool × Nat)}
    (hxs : ((BlockIndex.ofRecords left).pairs right).mapM c.labeledIndexOf = .ok xs) :
    (Tally.ofIndices c (xs.map Prod.snd)).Splits (.ofIndices c (labeledAs true xs))
      (.ofIndices c (labeledAs false xs)) c left right := by
  refine ⟨⟨rfl, rfl⟩, fun i => ?_, fun i => ?_, ?_⟩
  · rw [Tally.countOf_ofIndices, Tally.countOf_ofIndices, Tally.countOf_ofIndices]
    exact countP_labeledAs (· == i) xs
  · rw [Tally.countOf_ofIndices, count_labeledAs]
    refine countP_of_blocked hxs fun pair x hx => ?_
    obtain ⟨j, hj, rfl⟩ := Traversal.map_eq_ok_iff.mp hx
    rw [Bool.and_eq_true, beq_iff_eq, beq_iff_eq, decide_eq_true_iff, ← RecordComparator.indexOf,
      hj, Except.ok.injEq]
    exact and_comm
  · have h := countP_labeledAs (fun _ => true) xs
    rw [List.countP_true] at h
    rw [Tally.total_ofIndices, Tally.total_ofIndices, Tally.total_ofIndices, h]

/-- Counting labeled pairs is refused if some record has no id.  Otherwise it fails as counting
without labels does, or it divides the tally. -/
theorem tallyTruth_splits {serial : Nat} {bindings : List Binding} {handleBlanks : Bool}
    {c : RecordComparator} (hmake : RecordComparator.make serial bindings handleBlanks = .ok c)
    (left right : List Record) :
    (tallyTruth c left right = .error .missingId ↔
      ∃ r ∈ left ++ right, r.schema.hasId = false) ∧
    ((∀ r ∈ left ++ right, r.schema.hasId = true) →
      (∀ e, tallyTruth c left right = .error e ↔ tally c left right = .error e) ∧
      ∀ t, tally c left right = .ok t → ∃ matched unmatched,
        tallyTruth c left right = .ok (matched, unmatched) ∧
        t.Splits matched unmatched c left right) := by
  have hc := RecordComparator.numbered_of_make hmake
  refine ⟨tallyTruth_eq_missingId_iff hc left right, fun hall => ?_⟩
  have hids : (left ++ right).all (·.schema.hasId) := List.all_eq_true.mpr hall
  refine ⟨tallyTruth_eq_error_iff hc hids, fun t ht => ?_⟩
  rw [tally_eq_of_labeled hc] at ht
  obtain ⟨xs, hxs, rfl⟩ := Traversal.map_eq_ok_iff.mp ht
  refine ⟨.ofIndices c (labeledAs true xs), .ofIndices c (labeledAs false xs), ?_,
    splits_of_labeled hxs⟩
  rw [tallyTruth_eq hc hids, hxs]
  rfl

end Labels

/-- The pupils of two years are labeled by their ids: one was entered under two names. -/
theorem tallyTruth_splits_classLists :
    RecordComparator.make 0 ClassLists.names.bindings false = .ok ClassLists.names ∧
      (∀ r ∈ ClassLists.autumn ++ ClassLists.spring, r.schema.hasId = true) ∧
      ∃ matched unmatched,
        tallyTruth ClassLists.names ClassLists.autumn ClassLists.spring =
          .ok (matched, unmatched) ∧
        ClassLists.patterns.Splits matched unmatched ClassLists.names ClassLists.autumn
          ClassLists.spring := by
  have hmake : RecordComparator.make 0 ClassLists.names.bindings false = .ok ClassLists.names := rfl
  have hids : ∀ r ∈ ClassLists.autumn ++ ClassLists.spring, r.schema.hasId = true := by decide
  exact ⟨hmake, hids, ((tallyTruth_splits hmake ClassLists.autumn ClassLists.spring).2 hids).2
    ClassLists.patterns ClassLists.tally_patterns⟩

end Linkage
