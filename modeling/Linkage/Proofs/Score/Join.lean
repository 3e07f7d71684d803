import Linkage.Proofs.Join.Frequency
import Linkage.Proofs.Score.Contents
import Linkage.Proofs.Score.Counting

/-
# Score maps of a join

A place of a join is a position in each of the two collections.  The places in the order of the
search, by right position and then by left position, of which those with one key are kept, are the
places of the blocked pairs.  Matching in sequence scores them in this order, and a bucket picks the
pairs of its score out of them.  So what a bucket holds are the places with its score, in their order,
and a failure is that of the first place that cannot be compared.

Records may be equal, and so may scores.  Places are not: this is why the statements are about places.
-/

namespace Linkage

open Std.OrientedCmp Std.TransCmp

/-- A position in each of two collections. -/
abbrev Place (left right : List Record) : Type :=
  Fin left.length × Fin right.length

namespace Place

variable {left right : List Record}

def records (x : Place left right) : Record × Record :=
  (left[x.1], right[x.2])

/-- The records at a place share their key. -/
def Blocked (x : Place left right) : Prop :=
  left[x.1].key = right[x.2].key

instance (x : Place left right) : Decidable x.Blocked :=
  inferInstanceAs (Decidable (left[x.1].key = right[x.2].key))

/-- The order of the search: by right position, and then by left position. -/
def Before (x y : Place left right) : Prop :=
  x.2 < y.2 ∨ x.2 = y.2 ∧ x.1 < y.1

theorem not_before_self (x : Place left right) : ¬ x.Before x := by
  rintro (h | ⟨-, h⟩)
  · exact lt_irrefl _ h
  · exact lt_irrefl _ h

theorem Before.asymm {x y : Place left right} (h : x.Before y) : ¬ y.Before x := by
  rintro (h' | ⟨h₂', h₁'⟩)
  · rcases h with h | ⟨h₂, -⟩
    · exact lt_asymm h h'
    · exact h'.ne h₂.symm
  · rcases h with h | ⟨-, h₁⟩
    · exact h.ne h₂'.symm
    · exact lt_asymm h₁ h₁'

/-! ## The places of a join -/

def all (left right : List Record) : List (Place left right) :=
  (List.finRange right.length).flatMap fun j => (List.finRange left.length).map fun i => (i, j)

theorem mem_all (x : Place left right) : x ∈ all left right :=
  List.mem_flatMap.mpr ⟨x.2, List.mem_finRange _, List.mem_map_of_mem (List.mem_finRange x.1)⟩

theorem pairwise_all (left right : List Record) : (all left right).Pairwise Before := by
  refine List.pairwise_flatMap.mpr ⟨fun j _ => ?_, ?_⟩
  · refine List.pairwise_map.mpr ((List.pairwise_lt_finRange _).imp fun h => ?_)
    exact .inr ⟨rfl, h⟩
  · refine (List.pairwise_lt_finRange _).imp fun {j j'} h x hx y hy => ?_
    obtain ⟨i, -, rfl⟩ := List.mem_map.mp hx
    obtain ⟨i', -, rfl⟩ := List.mem_map.mp hy
    exact .inl h

theorem map_records_all (left right : List Record) :
    (all left right).map records = crossPairs left right := by
  have hleft (r : Record) : ((List.finRange left.length).map fun i => (left[i], r)) =
      left.map fun l => (l, r) := by
    conv_rhs => rw [← List.map_getElem_finRange left, List.map_map]
    rfl
  rw [all, List.map_flatMap, crossPairs]
  conv_rhs => rw [← List.map_getElem_finRange right, List.flatMap_map]
  refine congrArg (List.flatMap · _) (funext fun j => ?_)
  rw [List.map_map]
  exact hleft right[j.1]

def blocked (left right : List Record) : List (Place left right) :=
  (all left right).filter fun x => decide x.Blocked

theorem mem_blocked {x : Place left right} : x ∈ blocked left right ↔ x.Blocked := by
  rw [blocked, List.mem_filter, and_iff_right (mem_all x), decide_eq_true_iff]

theorem pairwise_blocked (left right : List Record) : (blocked left right).Pairwise Before :=
  (pairwise_all left right).filter _

theorem map_records_blocked (left right : List Record) :
    (blocked left right).map records = (BlockIndex.ofRecords left).pairs right := by
  rw [BlockIndex.pairs_ofRecords, ← map_records_all, List.filter_map]
  rfl

theorem mapM_pairs {β : Type} (f : Record × Record → Except Error β) (left right : List Record) :
    ((BlockIndex.ofRecords left).pairs right).mapM f =
      (blocked left right).mapM fun x => f x.records := by
  rw [← map_records_blocked, List.mapM_map]
  rfl

/-- In an ordered list, what stands in front of an element are the elements before it. -/
theorem mem_front_iff {places front back : List (Place left right)} {x y : Place left right}
    (h : places.Pairwise Before) (hsplit : places = front ++ x :: back) :
    y ∈ front ↔ y ∈ places ∧ y.Before x := by
  subst hsplit
  obtain ⟨-, hback, hfront⟩ := List.pairwise_append.mp h
  constructor
  · intro hy
    exact ⟨List.mem_append_left _ hy, hfront y hy x List.mem_cons_self⟩
  · rintro ⟨hy, hbefore⟩
    rcases List.mem_append.mp hy with hy | hy
    · exact hy
    · rcases List.mem_cons.mp hy with rfl | hy
      · exact absurd hbefore (not_before_self y)
      · exact absurd hbefore ((List.pairwise_cons.mp hback).1 y hy).asymm

theorem exists_mapM_pairs_iff {β : Type} {f : Record × Record → Except Error β} :
    (∃ ys, ((BlockIndex.ofRecords left).pairs right).mapM f = .ok ys) ↔
      ∀ x : Place left right, x.Blocked → ∃ y, f x.records = .ok y := by
  rw [mapM_pairs]
  constructor
  · rintro ⟨ys, hys⟩ x hx
    exact Traversal.exists_of_mapM_eq_ok hys (mem_blocked.mpr hx)
  · exact fun h => Traversal.exists_mapM_eq_ok fun x hx => h x (mem_blocked.mp hx)

theorem mapM_pairs_eq_error_iff {β : Type} {f : Record × Record → Except Error β} {e : Error} :
    ((BlockIndex.ofRecords left).pairs right).mapM f = .error e ↔
      ∃ x : Place left right, x.Blocked ∧ f x.records = .error e ∧
        ∀ y : Place left right, y.Before x → y.Blocked → ∃ z, f y.records = .ok z := by
  have hordered := pairwise_blocked left right
  rw [mapM_pairs, Traversal.mapM_eq_error_iff]
  constructor
  · rintro ⟨front, x, back, hsplit, hfront, hx⟩
    have hmem : x ∈ blocked left right := by
      rw [hsplit]
      exact List.mem_append_right _ List.mem_cons_self
    refine ⟨x, mem_blocked.mp hmem, hx, fun y hbefore hy => hfront y ?_⟩
    exact (mem_front_iff hordered hsplit).mpr ⟨mem_blocked.mpr hy, hbefore⟩
  · rintro ⟨x, hblocked, hx, hall⟩
    obtain ⟨front, back, hsplit⟩ := List.append_of_mem (mem_blocked.mpr hblocked)
    refine ⟨front, x, back, hsplit, fun y hy => ?_, hx⟩
    obtain ⟨hmem, hbefore⟩ := (mem_front_iff hordered hsplit).mp hy
    exact hall y hbefore (mem_blocked.mp hmem)

end Place

/-! ## Buckets -/

section Buckets

variable {α : Type} [Ord α] {bs : List (Bucket α)} {t : α}

theorem Bucket.Ascending.index_unique [Std.TransOrd α] (h : Bucket.Ascending bs)
    {j k : Fin bs.length} (hj : compare t bs[j].score = .eq) (hk : compare t bs[k].score = .eq) :
    j = k := by
  have hne : ∀ {j k : Fin bs.length}, compare t bs[j].score = .eq →
      compare t bs[k].score = .eq → ¬ j < k := by
    intro j k hj hk hlt
    have hless : compare bs[j].score bs[k].score = .lt :=
      List.pairwise_iff_getElem.mp h j k j.isLt k.isLt hlt
    rw [eq_trans (eq_symm hj) hk] at hless
    cases hless
  exact le_antisymm (not_lt.mp (hne hk hj)) (not_lt.mp (hne hj hk))

theorem ScoreMap.exists_bucket [Std.TransOrd α] (names : List (String × String))
    {ps : List (ScoredPair α)} {p : ScoredPair α} (hp : p ∈ ps) :
    ∃ b ∈ (ofList names ps).buckets, compare p.score b.score = .eq := by
  have hat : p ∈ Bucket.pairsAt p.score (ofList names ps).buckets := by
    rw [pairsAt_ofList]
    exact List.mem_filter.mpr ⟨hp, beq_iff_eq.mpr Std.ReflCmp.compare_self⟩
  obtain ⟨b, hb, -⟩ := List.mem_flatMap.mp hat
  obtain ⟨hb, hscore⟩ := List.mem_filter.mp hb
  exact ⟨b, hb, eq_symm (eq_of_beq hscore)⟩

end Buckets

namespace Place

variable {α : Type} [Arithmetic α] {left right : List Record} {c : RecordComparator} {m : Model α}

/-- A scored pair holds the records at a place, with their score, which is the score of the number of
their pattern. -/
structure Yields (m : Model α) (x : Place left right) (p : ScoredPair α) : Prop where
  a : p.a = left[x.1]
  b : p.b = right[x.2]
  score : m.score left[x.1] right[x.2] = .ok p.score
  scoreIndex : (m.comparator.compareIndex left[x.1] right[x.2] >>= m.scoreIndex) = .ok p.score

theorem yields_of_scored (hm : m.Shaped c) (hc : c.Numbered) {x : Place left right}
    {p : ScoredPair α} (h : m.scored x.records = .ok p) : x.Yields m p := by
  obtain ⟨t, ht, heq⟩ := Traversal.bind_eq_ok_iff.mp h
  obtain rfl := Except.ok.inj heq
  refine ⟨rfl, rfl, ht, ?_⟩
  rw [hm.comparator, ← hm.score_eq hc]
  exact ht

variable [Ord α]

/-- The records at a place have a score. -/
def HasScore (m : Model α) (x : Place left right) (s : α) : Prop :=
  ∃ t, m.score left[x.1] right[x.2] = .ok t ∧ compare t s = .eq

theorem Yields.hasScore_iff {x : Place left right} {p : ScoredPair α} (h : x.Yields m p) (s : α) :
    x.HasScore m s ↔ compare p.score s = .eq := by
  constructor
  · rintro ⟨t, ht, hts⟩
    obtain rfl := Except.ok.inj (h.score.symm.trans ht)
    exact hts
  · exact fun hs => ⟨p.score, h.score, hs⟩

end Place

/-! ## The scored join -/

section Joins

variable {α : Type} [Arithmetic α] [Ord α] {c : RecordComparator} {m : Model α}
  {left right : List Record}

/-- A score map is the scored join of two collections.  Every bucket holds what the blocked places
with its score yield, one pair for each of them and in the order of the places; every blocked place
has one bucket; and there are as many pairs as the index of the left collection says. -/
structure ScoreMap.Joins (scores : ScoreMap α) (m : Model α) (left right : List Record) : Prop where
  bucket : ∀ b ∈ scores.buckets, ∃ places : List (Place left right),
    places.Pairwise Place.Before ∧ (∀ x, x ∈ places ↔ x.Blocked ∧ x.HasScore m b.score) ∧
      List.Forall₂ (Place.Yields m) places b.pairs.toList
  unique : ∀ x : Place left right, x.Blocked →
    ∃! k : Fin scores.buckets.length, x.HasScore m scores.buckets[k].score
  size : scores.size = (BlockIndex.ofRecords left).pairCount right

namespace Model

open Classical in
/-- What the blocked places yield, inserted in their order, is the scored join. -/
theorem joins_ofList [Std.TransOrd α] {names : List (String × String)} {ps : List (ScoredPair α)}
    (h : List.Forall₂ (Place.Yields m) (Place.blocked left right) ps) :
    (ScoreMap.ofList names ps).Joins m left right where
  bucket b hb := by
    refine ⟨(Place.blocked left right).filter fun x => decide (x.HasScore m b.score),
      (Place.pairwise_blocked left right).filter _, fun x => ?_, ?_⟩
    · rw [List.mem_filter, Place.mem_blocked, decide_eq_true_iff]
    · rw [ScoreMap.pairs_eq_filter hb]
      -- A place has the score of the bucket just if the pair that it yields has.
      refine List.rel_filter (fun x p hxp => ?_) h
      exact decide_eq_true_iff.trans ((hxp.hasScore_iff b.score).trans beq_iff_eq.symm)
  unique x hx := by
    obtain ⟨k, hk, hat⟩ := List.getElem_of_mem (Place.mem_blocked.mpr hx)
    obtain ⟨hlen, hget⟩ := List.forall₂_iff_get.mp h
    have hyields : x.Yields m ps[k] := by
      have := hget k hk (hlen ▸ hk)
      rwa [List.get_eq_getElem, List.get_eq_getElem, hat] at this
    simp only [hyields.hasScore_iff]
    obtain ⟨b, hb, hscore⟩ :=
      ScoreMap.exists_bucket names (List.getElem_mem (hlen ▸ hk : k < ps.length))
    obtain ⟨j, hj, rfl⟩ := List.getElem_of_mem hb
    exact ⟨⟨j, hj⟩, hscore, fun i hi => (ScoreMap.ascending_ofList ps).index_unique hi hscore⟩
  size := by
    have hpairs : (Place.blocked left right).length =
        ((BlockIndex.ofRecords left).pairs right).length := by
      rw [← Place.map_records_blocked, List.length_map]
    rw [ScoreMap.size_ofList, ← h.length_eq, hpairs, BlockIndex.pairs_ofRecords,
      ← List.countP_eq_length_filter, countP_sameBlock_eq_pairCount]

omit [Ord α] in
theorem Shaped.exists_scored_iff (hm : m.Shaped c) (hc : c.Numbered) (pair : Record × Record) :
    (∃ p, m.scored pair = .ok p) ↔ ∃ p, c.compare pair.1 pair.2 = .ok p := by
  rw [← RecordComparator.exists_indexOf_iff]
  exact (hm.alike_scored hc pair).exists_ok_iff

omit [Ord α] in
theorem Shaped.scored_eq_error_iff (hm : m.Shaped c) (hc : c.Numbered) {pair : Record × Record}
    {e : Error} : m.scored pair = .error e ↔ c.compare pair.1 pair.2 = .error e :=
  ((hm.alike_scored hc pair).error_iff e).trans RecordComparator.indexOf_eq_error_iff

/-- Matching in sequence scores the join of two collections.  It has scores just if all blocked pairs
can be compared, which are then the scored join; and else its failure is that of the first blocked
pair, by right position and then by left position, that cannot be compared. -/
theorem matchSequential_joins [Std.TransOrd α] {serial : Nat} {bindings : List Binding}
    {handleBlanks : Bool} (hmake : RecordComparator.make serial bindings handleBlanks = .ok c)
    (hm : m.Over c) (left right : List Record) :
    ((∃ scores, m.matchSequential (.ofRecords left) right = .ok scores) ↔
      ∀ x : Place left right, x.Blocked → ∃ p, c.compare left[x.1] right[x.2] = .ok p) ∧
    (∀ scores, m.matchSequential (.ofRecords left) right = .ok scores →
      scores.Joins m left right) ∧
    ∀ e, m.matchSequential (.ofRecords left) right = .error e ↔
      ∃ x : Place left right, x.Blocked ∧ c.compare left[x.1] right[x.2] = .error e ∧
        ∀ y : Place left right, y.Before x → y.Blocked →
          ∃ p, c.compare left[y.1] right[y.2] = .ok p := by
  have hc := RecordComparator.numbered_of_make hmake
  rw [matchSequential_eq]
  refine ⟨?_, ?_, fun e => ?_⟩
  · have hscored : (∃ scores, (((BlockIndex.ofRecords left).pairs right).mapM m.scored).map
        (ScoreMap.ofList m.comparator.fieldNames) = .ok scores) ↔
          ∃ ps, ((BlockIndex.ofRecords left).pairs right).mapM m.scored = .ok ps := by
      simp only [Traversal.map_eq_ok_iff]
      exact ⟨fun ⟨_, ps, hps, _⟩ => ⟨ps, hps⟩, fun ⟨ps, hps⟩ => ⟨_, ps, hps, rfl⟩⟩
    rw [hscored, Place.exists_mapM_pairs_iff]
    exact forall₂_congr fun x _ => hm.shaped.exists_scored_iff hc x.records
  · intro scores h
    obtain ⟨ps, hps, rfl⟩ := Traversal.map_eq_ok_iff.mp h
    rw [Place.mapM_pairs, Traversal.mapM_eq_ok_iff] at hps
    exact joins_ofList (hps.imp fun x p hp => Place.yields_of_scored hm.shaped hc hp)
  · rw [Traversal.map_eq_error_iff, Place.mapM_pairs_eq_error_iff]
    simp only [hm.shaped.scored_eq_error_iff hc, hm.shaped.exists_scored_iff hc]
    rfl

/-- The visitor and the people of the household have scores; of the people without names, the one
without an age is the first that cannot be compared. -/
theorem matchSequential_joins_residents :
    RecordComparator.make 0 ageAndName.bindings false = .ok ageAndName ∧
      evenModel.Over ageAndName ∧
      (∃ scores, evenModel.matchSequential (.ofRecords residents) visitors = .ok scores ∧
        scores.Joins evenModel residents visitors) ∧
      evenModel.matchSequential (.ofRecords nameless) named = .error (.notNumeric "x" .number) ∧
      ∃ x : Place nameless named, x.Blocked ∧
        ageAndName.compare x.records.1 x.records.2 = .error (.notNumeric "x" .number) := by
  have hmake : RecordComparator.make 0 ageAndName.bindings false = .ok ageAndName := rfl
  have hm : evenModel.Over ageAndName := .make make_evenModel
  obtain ⟨-, hjoins, -⟩ := matchSequential_joins hmake hm residents visitors
  obtain ⟨-, -, hfails⟩ := matchSequential_joins hmake hm nameless named
  refine ⟨hmake, hm, ?_, matchSequential_named, ?_⟩
  · have halike := hm.shaped.alike_matchSequential (RecordComparator.numbered_of_make hmake)
      residents visitors
    cases hscores : evenModel.matchSequential (.ofRecords residents) visitors with
    | error e =>
        have ht := (halike.error_iff e).mp hscores
        rw [tally_residents] at ht
        cases ht
    | ok scores => exact ⟨scores, rfl, hjoins scores hscores⟩
  · obtain ⟨x, hx, hfail, -⟩ := (hfails _).mp matchSequential_named
    exact ⟨x, hx, hfail⟩

end Model

end Joins

end Linkage
