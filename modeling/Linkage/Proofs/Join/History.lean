import Linkage.Proofs.Join.Frequency

/-
# Counting in any order

A counter is given pairs and pattern numbers one after the other, and now and then it is asked for
the tally of what it has counted.  An operation may fail: a pair that cannot be compared, a number
that no pattern has.  Then nothing is counted.

All that a counter knows of its history is the list of the numbers that were added (`Holds`): the
operations that failed leave no trace, and a tally that was taken leaves none.  So a tally lists the
numbers that were added before it, each with how often it was added, whatever else was done before or
is done after; and taking the tally of two collections at once is feeding their blocked pairs to a
counter.  Main statement: `history_listed`.
-/

namespace Linkage

open PatternSpace

/-! ## Tallies of a list of numbers -/

namespace Tally

/-- A tally lists some pattern numbers: every one with its pattern and how often it stands in the
list. -/
structure Lists (t : Tally) (c : RecordComparator) (is : List Nat) : Prop where
  comparator : t.comparator = c
  ascending : (t.entries.map Entry.index).Pairwise (· < ·)
  positive : ∀ e ∈ t.entries, 0 < e.count
  encodes : ∀ e ∈ t.entries, c.patternIndex e.pattern = .ok e.index
  countOf : ∀ i, t.countOf i = is.count i
  total : t.total = is.length

theorem lists_ofIndices {c : RecordComparator} (hc : c.Numbered) {is : List Nat}
    (h : ∀ i ∈ is, i < c.patternCount) : (ofIndices c is).Lists c is where
  comparator := rfl
  ascending := List.pairwise_map.mpr (ascending_ofIndices c is)
  positive e he := (sound_ofIndices hc h e he).2
  encodes _ he := patternIndex_of_mem hc h he
  countOf := countOf_ofIndices c is
  total := total_ofIndices c is

end Tally

namespace Counter

/-! ## Operations and their outcomes -/

/-- What is done with a counter. -/
inductive Operation where
  | addPair (a b : Record)
  | addIndex (index : Nat)
  | snapshot

/-- What comes of it: a number was added, the operation failed, or a tally was taken. -/
inductive Outcome where
  | added (index : Nat)
  | failed (e : Error)
  | taken (t : Tally)

namespace Outcome

def index? : Outcome → Option Nat
  | .added i => some i
  | .failed _ | .taken _ => none

def failure? : Outcome → Option Error
  | .failed e => some e
  | .added _ | .taken _ => none

def ofAddition : Except Error Nat → Outcome
  | .ok i => .added i
  | .error e => .failed e

end Outcome

/-- The outcome of an operation, and the counter as it leaves it. -/
def perform (k : Counter) : Operation → Outcome × Counter
  | .addPair a b =>
    let (added, k) := (addPair a b).run k
    (.ofAddition added, k)
  | .addIndex i =>
    let (added, k) := (addIndex i).run k
    (.ofAddition (added.map fun _ => i), k)
  | .snapshot =>
    match k.snapshot with
    | .ok t => (.taken t, k)
    | .error e => (.failed e, k)

/-- The outcomes of some operations, one after the other, and the counter after them. -/
def replay (k : Counter) : List Operation → List Outcome × Counter
  | [] => ([], k)
  | op :: ops =>
    let first := k.perform op
    let rest := first.2.replay ops
    (first.1 :: rest.1, rest.2)

def numbers (outcomes : List Outcome) : List Nat :=
  outcomes.filterMap Outcome.index?

theorem replay_append (k : Counter) (before after : List Operation) :
    k.replay (before ++ after) =
      ((k.replay before).1 ++ ((k.replay before).2.replay after).1,
        ((k.replay before).2.replay after).2) := by
  induction before generalizing k with
  | nil => rfl
  | cons op before ih => rw [List.cons_append, replay, ih, replay, List.cons_append]

theorem perform_addPair (k : Counter) (a b : Record) : k.perform (.addPair a b) =
    (.ofAddition ((addPair a b).run k).1, ((addPair a b).run k).2) := rfl

theorem perform_addIndex (k : Counter) (i : Nat) : k.perform (.addIndex i) =
    (.ofAddition (((addIndex i).run k).1.map fun _ => i), ((addIndex i).run k).2) := rfl

/-- An operation that adds nothing changes nothing. -/
theorem perform_of_index?_eq_none {k : Counter} {op : Operation}
    (h : (k.perform op).1.index? = none) : (k.perform op).2 = k := by
  revert h
  cases op with
  | addPair a b =>
      rw [perform_addPair, run_addPair]
      cases k.comparator.compareIndex a b with
      | error e => exact fun _ => rfl
      | ok i =>
          dsimp only
          split
          case isTrue => exact nofun
          case isFalse => exact fun _ => rfl
  | addIndex i =>
      rw [perform_addIndex, run_addIndex]
      split
      case isTrue => exact nofun
      case isFalse => exact fun _ => rfl
  | snapshot =>
      rw [perform]
      cases k.snapshot <;> exact fun _ => rfl

/-! ## What a counter knows of its history -/

variable {c : RecordComparator} {k : Counter} {is : List Nat}

/-- A counter that has counted some pattern numbers, and nothing else. -/
structure Holds (k : Counter) (c : RecordComparator) (is : List Nat) : Prop where
  eq : k = ⟨c, Counts.ofList is⟩
  inRange : ∀ i ∈ is, i < c.patternCount

theorem holds_empty (c : RecordComparator) : (empty c).Holds c [] :=
  ⟨rfl, fun _ h => nomatch h⟩

theorem Holds.push (h : k.Holds c is) {i : Nat} (hi : i < c.patternCount) :
    (k.push i).Holds c (is ++ [i]) where
  eq := by
    rw [h.eq, Counts.ofList_snoc]
    rfl
  inRange j hj := (List.mem_append.mp hj).elim (h.inRange j) fun hj =>
    List.mem_singleton.mp hj ▸ hi

theorem Holds.comparator (h : k.Holds c is) : k.comparator = c := by
  rw [h.eq]

theorem Holds.total (h : k.Holds c is) : k.total = is.length := by
  have hall := Counts.totalOf_ofList (fun _ => true) is
  rw [List.countP_true, Counts.totalOf, List.filter_true] at hall
  rw [h.eq]
  exact hall

theorem Holds.snapshot (h : k.Holds c is) : k.snapshot = .ok (.ofIndices c is) := by
  rw [h.eq]
  exact Tally.ofCounts_ofList h.inRange

/-- What may come of an operation once some numbers were added. -/
inductive Operation.Gives (c : RecordComparator) (is : List Nat) : Operation → Outcome → Prop
  | pair {a b : Record} {i : Nat} (h : c.compareIndex a b = .ok i) :
      Gives c is (.addPair a b) (.added i)
  | pairFails {a b : Record} {e : Error} (h : c.compareIndex a b = .error e) :
      Gives c is (.addPair a b) (.failed e)
  | index {i : Nat} (h : i < c.patternCount) : Gives c is (.addIndex i) (.added i)
  | indexFails {i : Nat} (h : c.patternCount ≤ i) :
      Gives c is (.addIndex i) (.failed (.misuse (.patternIndex i c.patternCount)))
  | tally {t : Tally} (h : t.Lists c is) : Gives c is .snapshot (.taken t)

/-- An operation gives what the numbers added before it say, and the counter then holds the number
that it added. -/
theorem Holds.perform (hc : c.Numbered) (h : k.Holds c is) (op : Operation) :
    op.Gives c is (k.perform op).1 ∧
      (k.perform op).2.Holds c (is ++ (k.perform op).1.index?.toList) := by
  have hkept : k.Holds c (is ++ (none : Option Nat).toList) := by
    rwa [Option.toList_none, List.append_nil]
  cases op with
  | addPair a b =>
      rw [perform_addPair, run_addPair_of_numbered hc h.comparator]
      cases hi : c.compareIndex a b with
      | error e => exact ⟨.pairFails hi, hkept⟩
      | ok i => exact ⟨.pair hi, h.push (hc.indexOf_lt (show c.indexOf (a, b) = .ok i from hi))⟩
  | addIndex i =>
      rw [perform_addIndex, run_addIndex, h.comparator]
      by_cases hi : i < c.patternCount
      · rw [if_pos hi]
        exact ⟨.index hi, h.push hi⟩
      · rw [if_neg hi]
        exact ⟨.indexFails (Nat.le_of_not_lt hi), hkept⟩
  | snapshot =>
      rw [Counter.perform, h.snapshot]
      exact ⟨.tally (Tally.lists_ofIndices hc h.inRange), hkept⟩

theorem Holds.replay (hc : c.Numbered) (h : k.Holds c is) (ops : List Operation) :
    (k.replay ops).2.Holds c (is ++ numbers (k.replay ops).1) := by
  induction ops generalizing k is with
  | nil =>
      rw [Counter.replay, numbers, List.filterMap_nil, List.append_nil]
      exact h
  | cons op ops ih =>
      have hrest := ih (h.perform hc op).2
      rw [List.append_assoc] at hrest
      have hnumbers : numbers (k.replay (op :: ops)).1 =
          (k.perform op).1.index?.toList ++ numbers ((k.perform op).2.replay ops).1 := by
        rw [Counter.replay, numbers, List.filterMap_cons]
        cases (k.perform op).1.index? <;> rfl
      rw [hnumbers]
      exact hrest

/-! ## Blocked pairs -/

/-- The operation that adds a pair. -/
def Operation.ofPair (pair : Record × Record) : Operation :=
  .addPair pair.1 pair.2

/-- The operations that add the blocked pairs of two collections, by right record and then by left
record. -/
def feed (left right : List Record) : List Operation :=
  ((crossPairs left right).filter sameBlock).map .ofPair

theorem Holds.replay_pairs (hc : c.Numbered) (h : k.Holds c is) (pairs : List (Record × Record)) :
    (k.replay (pairs.map .ofPair)).1 = pairs.map fun pair => .ofAddition (c.indexOf pair) := by
  induction pairs generalizing k is with
  | nil => rfl
  | cons pair pairs ih =>
      have hfirst : (k.perform (.ofPair pair)).1 = .ofAddition (c.indexOf pair) := by
        rw [Operation.ofPair, perform_addPair, run_addPair_of_numbered hc h.comparator,
          RecordComparator.indexOf]
        cases c.compareIndex pair.1 pair.2 <;> rfl
      rw [List.map_cons, Counter.replay, hfirst, ih (h.perform hc _).2, List.map_cons]

theorem map_ofAddition_of_ok {α : Type} {f : α → Except Error Nat} {xs : List α} {is : List Nat}
    (h : xs.mapM f = .ok is) : (xs.map fun x => Outcome.ofAddition (f x)) = is.map .added := by
  have hall := Traversal.mapM_eq_ok_iff.mp h
  clear h
  induction hall with
  | nil => rfl
  | cons hx _ ih => rw [List.map_cons, List.map_cons, hx, ih, Outcome.ofAddition]

theorem findSome?_ofAddition_of_error {α : Type} {f : α → Except Error Nat} {xs : List α} {e : Error}
    (h : xs.mapM f = .error e) :
    (xs.map fun x => Outcome.ofAddition (f x)).findSome? Outcome.failure? = some e := by
  induction xs with
  | nil => cases h
  | cons x xs ih =>
      rw [List.map_cons]
      cases hx : f x with
      | error e' =>
          rw [Traversal.mapM_cons_error hx] at h
          obtain rfl := Except.error.inj h
          rfl
      | ok i => exact ih ((Traversal.mapM_cons_eq_error_iff hx).mp h)

/-! ## Histories -/

def outcomes (c : RecordComparator) (ops : List Operation) : List Outcome :=
  ((empty c).replay ops).1

def ofHistory (c : RecordComparator) (ops : List Operation) : Counter :=
  ((empty c).replay ops).2

theorem holds_ofHistory (hc : c.Numbered) (ops : List Operation) :
    (ofHistory c ops).Holds c (numbers (outcomes c ops)) :=
  (holds_empty c).replay hc ops

theorem outcomes_append (c : RecordComparator) (before after : List Operation) :
    outcomes c (before ++ after) = outcomes c before ++ ((ofHistory c before).replay after).1 := by
  rw [outcomes, replay_append]
  rfl

theorem ofHistory_append (c : RecordComparator) (before after : List Operation) :
    ofHistory c (before ++ after) = ((ofHistory c before).replay after).2 := by
  rw [ofHistory, replay_append]
  rfl

/-- The tally of two collections is what a counter gives that is fed their blocked pairs, unless a
pair cannot be compared; then it fails as the first such pair does. -/
theorem tally_eq_feed (hc : c.Numbered) (left right : List Record) :
    (∀ t, tally c left right = .ok t ↔
      (∀ o ∈ outcomes c (feed left right), o.failure? = none) ∧
        outcomes c (feed left right ++ [.snapshot]) = outcomes c (feed left right) ++ [.taken t]) ∧
    ∀ e, tally c left right = .error e ↔
      (outcomes c (feed left right)).findSome? Outcome.failure? = some e := by
  have hfed : outcomes c (feed left right) =
      ((crossPairs left right).filter sameBlock).map fun pair => .ofAddition (c.indexOf pair) :=
    (holds_empty c).replay_pairs hc _
  rw [tally_eq hc, BlockIndex.pairs_ofRecords]
  cases h : ((crossPairs left right).filter sameBlock).mapM c.indexOf with
  | error e =>
      have hfirst := findSome?_ofAddition_of_error h
      rw [← hfed] at hfirst
      rw [hfirst]
      refine ⟨fun t => ⟨fun ht => (nomatch ht), ?_⟩, fun e' => ?_⟩
      · rintro ⟨hnone, -⟩
        rw [List.findSome?_eq_none_iff.mpr hnone] at hfirst
        cases hfirst
      · rw [Traversal.map_eq_error_iff, Except.error.injEq, Option.some.injEq]
  | ok is =>
      rw [map_ofAddition_of_ok h] at hfed
      have hnone : ∀ o ∈ outcomes c (feed left right), o.failure? = none := by
        rw [hfed]
        exact List.forall_mem_map.mpr fun _ _ => rfl
      have hnumbers : numbers (outcomes c (feed left right)) = is := by
        rw [hfed, numbers, List.filterMap_map]
        exact List.filterMap_some
      have htaken : outcomes c (feed left right ++ [.snapshot]) =
          outcomes c (feed left right) ++ [.taken (.ofIndices c is)] := by
        have hholds := holds_ofHistory hc (feed left right)
        rw [outcomes_append, replay, perform, hholds.snapshot, hnumbers]
        rfl
      refine ⟨fun t => ?_, fun e => ⟨fun he => (nomatch he), ?_⟩⟩
      · rw [htaken, and_iff_right hnone, Except.map, Except.ok.injEq, List.append_cancel_left_eq,
          List.cons.injEq, Outcome.taken.injEq, and_iff_left rfl]
      · rw [List.findSome?_eq_none_iff.mpr hnone]
        exact fun he => nomatch he

/-- In any history of a counter, an operation gives what the numbers that were added before it say,
whatever is done later: a pair or a number is added or fails, and a tally lists these numbers, each
with its pattern and how often it was added.  An operation that fails, or takes a tally, might as well
be left out: nothing else in the history changes.  The counter sums to how many additions succeeded.
And to feed the blocked pairs of two collections is to take their tally. -/
theorem history_listed {serial : Nat} {bindings : List Binding} {handleBlanks : Bool}
    (hmake : RecordComparator.make serial bindings handleBlanks = .ok c) :
    (∀ before op, ∃ o, op.Gives c (numbers (outcomes c before)) o ∧ ∀ after, ∃ rest,
      outcomes c (before ++ op :: after) = outcomes c before ++ o :: rest ∧
        (o.index? = none → outcomes c (before ++ after) = outcomes c before ++ rest ∧
          ofHistory c (before ++ op :: after) = ofHistory c (before ++ after))) ∧
    (∀ ops, (ofHistory c ops).comparator = c ∧
      (ofHistory c ops).total = (numbers (outcomes c ops)).length) ∧
    ∀ left right,
      (∀ t, tally c left right = .ok t ↔
        (∀ o ∈ outcomes c (feed left right), o.failure? = none) ∧
          outcomes c (feed left right ++ [.snapshot]) =
            outcomes c (feed left right) ++ [.taken t]) ∧
      ∀ e, tally c left right = .error e ↔
        (outcomes c (feed left right)).findSome? Outcome.failure? = some e := by
  have hc := RecordComparator.numbered_of_make hmake
  refine ⟨fun before op => ?_, fun ops => ?_, tally_eq_feed hc⟩
  · set k := ofHistory c before with hk
    have hgives := ((holds_ofHistory hc before).perform hc op).1
    refine ⟨(k.perform op).1, hgives, fun after => ⟨((k.perform op).2.replay after).1, ?_, ?_⟩⟩
    · rw [outcomes_append]
      rfl
    · intro hnone
      rw [outcomes_append, ofHistory_append, ofHistory_append, ← hk, replay,
        perform_of_index?_eq_none hnone]
      exact ⟨rfl, rfl⟩
  · exact ⟨(holds_ofHistory hc ops).comparator, (holds_ofHistory hc ops).total⟩

/-! ### The marks of a class -/

namespace Marks

def marks : RecordComparator :=
  ⟨0, [⟨"mark", "mark", 0, 0, .absoluteDifference [1]⟩], false, 2⟩

def pupil (mark number : String) : Record :=
  Schema.recordOf ⟨0, ["form", "mark"], ["form"], none, none⟩ ["a", mark] number

/-- A pupil without a proper mark, and a number that no pattern has, are not counted. -/
def term : List Operation :=
  [.addPair (pupil "9" "0") (pupil "9" "2"), .addPair (pupil "x" "1") (pupil "9" "2"), .addIndex 2,
    .snapshot, .addIndex 0, .addPair (pupil "9" "0") (pupil "9" "2")]

/-- The outcomes up to the end of the term. -/
def reported : List Outcome :=
  [.added 1, .failed (.notNumeric "x" .number), .failed (.misuse (.patternIndex 2 2)),
    .taken ⟨marks, [⟨1, [1], 1⟩]⟩, .added 0, .added 1]

def finalTally : Tally :=
  ⟨marks, [⟨0, [0], 1⟩, ⟨1, [1], 2⟩]⟩

end Marks

open Marks in
theorem history_listed_marks :
    RecordComparator.make 0 marks.bindings false = .ok marks ∧
      outcomes marks (term ++ [.snapshot]) = reported ++ [.taken finalTally] ∧
      finalTally.Lists marks [1, 0, 1] := by
  have hmake : RecordComparator.make 0 marks.bindings false = .ok marks := rfl
  have hterm : outcomes marks (term ++ [.snapshot]) = reported ++ [.taken finalTally] := rfl
  obtain ⟨o, hgives, hall⟩ := (history_listed hmake).1 term .snapshot
  obtain ⟨rest, hrest, -⟩ := hall []
  have hlast : reported ++ [.taken finalTally] = reported ++ o :: rest := hterm.symm.trans hrest
  obtain ⟨rfl, -⟩ := List.cons.inj (List.append_cancel_left hlast)
  refine ⟨hmake, hterm, ?_⟩
  cases hgives with
  | tally h => exact h

end Counter

end Linkage
