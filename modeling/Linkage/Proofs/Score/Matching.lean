import Linkage.Proofs.Score.ScoreMap
import Linkage.Proofs.Traversal
import Linkage.Score.Matching

/-
# Matching in parallel refines matching in sequence

`ForkJoin` is the division of the work as it happens: a part below the threshold is matched on its
own, any other part is halved and the outcomes of the halves are joined.  Whether that ends is not
said; it does for every threshold from 2 on, because then no part is divided that has less than two
records, and both halves of a part are shorter.

Whatever a division comes to agrees with matching in sequence.  Maps agree because a merge appends
pairs, and the right records of the first half come first.  Failures agree because the failure of
the first half is the first one, with one exception: a broken promise ends the whole, so that one in
the second half hides an ordinary failure in the first.
-/

namespace Linkage

theorem BlockIndex.pairs_append (index : BlockIndex) (low high : List Record) :
    index.pairs (low ++ high) = index.pairs low ++ index.pairs high :=
  List.flatMap_append

/-! ## Joining two outcomes -/

section Join

variable {β : Type} {join : β → β → β}

theorem joinHalves_ok_error (x : β) (e : Error) :
    joinHalves join (.ok x) (.error e) = .error e := by
  cases e <;> rfl

theorem joinHalves_error_ok (e : Error) (y : β) :
    joinHalves join (.error e) (.ok y) = .error e := by
  cases e <;> rfl

theorem joinHalves_misuse {e : Error} (he : ∀ p, e ≠ .misuse p) (p : Misuse) :
    joinHalves join (.error e) (.error (.misuse p)) = .error (.misuse p) := by
  cases e
  case misuse q => exact absurd rfl (he q)
  all_goals rfl

theorem joinHalves_error {e e' : Error} (h : ∀ p, e' = .misuse p → ∃ q, e = .misuse q) :
    joinHalves join (.error e) (.error e') = .error e := by
  cases e' with
  | misuse p =>
      obtain ⟨q, rfl⟩ := h p rfl
      rfl
  | _ => cases e <;> rfl

end Join

namespace Model

variable {α : Type} [Arithmetic α] [Ord α]

/-! ## Matching in sequence -/

def scored (m : Model α) (pair : Record × Record) : Except Error (ScoredPair α) := do
  return ⟨pair.1, pair.2, ← m.score pair.1 pair.2⟩

omit [Ord α] in
theorem scored_eq_error_iff {m : Model α} {pair : Record × Record} {e : Error} :
    m.scored pair = .error e ↔ m.score pair.1 pair.2 = .error e := by
  cases h : m.score pair.1 pair.2 <;> simp [scored, h, bind, Except.bind, pure, Except.pure]

omit [Ord α] in
theorem scored_isOk_iff {m : Model α} {pair : Record × Record} :
    (∃ p, m.scored pair = .ok p) ↔ ∃ x, m.score pair.1 pair.2 = .ok x := by
  cases h : m.score pair.1 pair.2 <;> simp [scored, h, bind, Except.bind, pure, Except.pure]

theorem foldlM_insertPair (m : Model α) (scores : ScoreMap α) (pairs : List (Record × Record)) :
    pairs.foldlM m.insertPair scores =
      (pairs.mapM m.scored).map (·.foldl ScoreMap.insert scores) := by
  have hstep (scores : ScoreMap α) (pair : Record × Record) (_ : True) :
      m.insertPair scores pair = (m.scored pair).map scores.insert := by
    rw [insertPair, scored]
    cases m.score pair.1 pair.2 <;> rfl
  exact Traversal.foldlM_eq_mapM (fun _ => True) hstep (fun _ _ h => h) trivial pairs

theorem matchSequential_eq (m : Model α) (index : BlockIndex) (right : List Record) :
    m.matchSequential index right =
      ((index.pairs right).mapM m.scored).map (ScoreMap.ofList m.comparator.fieldNames) :=
  foldlM_insertPair m _ _

theorem matchSequential_eq_error_iff {m : Model α} {index : BlockIndex} {right : List Record}
    {e : Error} :
    m.matchSequential index right = .error e ↔
      ∃ before pair after, index.pairs right = before ++ pair :: after ∧
        (∀ q ∈ before, ∃ x, m.score q.1 q.2 = .ok x) ∧ m.score pair.1 pair.2 = .error e := by
  have hmap : m.matchSequential index right = .error e ↔
      (index.pairs right).mapM m.scored = .error e := by
    rw [matchSequential_eq]
    cases (index.pairs right).mapM m.scored <;> simp [Except.map]
  rw [hmap, Traversal.mapM_eq_error_iff]
  simp only [scored_isOk_iff, scored_eq_error_iff]

theorem matchSequential_append [Std.TransOrd α] (m : Model α) (index : BlockIndex)
    (low high : List Record) :
    m.matchSequential index (low ++ high) = do
      return (← m.matchSequential index low).merge (← m.matchSequential index high) := by
  simp only [matchSequential_eq, BlockIndex.pairs_append, List.mapM_append]
  cases (index.pairs low).mapM m.scored with
  | error e => rfl
  | ok ps =>
      cases (index.pairs high).mapM m.scored with
      | error e => rfl
      | ok qs =>
          exact congrArg Except.ok (ScoreMap.merge_ofList ps qs).symm

/-! ## Matching in parallel -/

/-- The outcome of dividing the work on a part of the right collection: it is matched in sequence
below the threshold, and by halves from the threshold on. -/
inductive ForkJoin (m : Model α) (r : MatchRule) (index : BlockIndex) :
    List Record → Except Error (ScoreMap α) → Prop
  | leaf {right : List Record} : right.length < r.workThreshold →
      ForkJoin m r index right (m.matchSequential index right)
  | fork {right : List Record} {low high : Except Error (ScoreMap α)} :
      ¬ right.length < r.workThreshold →
      ForkJoin m r index (right.take (right.length / 2)) low →
      ForkJoin m r index (right.drop (right.length / 2)) high →
      ForkJoin m r index right (joinHalves ScoreMap.merge low high)

theorem forkJoin_deterministic {m : Model α} {r : MatchRule} {index : BlockIndex}
    {right : List Record} {x y : Except Error (ScoreMap α)} (hx : ForkJoin m r index right x)
    (hy : ForkJoin m r index right y) : x = y := by
  induction hx generalizing y with
  | leaf h =>
      cases hy with
      | leaf => rfl
      | fork h' => exact absurd h h'
  | fork h _ _ ihlow ihhigh =>
      cases hy with
      | leaf h' => exact absurd h' h
      | fork _ hlow hhigh => rw [ihlow hlow, ihhigh hhigh]

/-- Without single records to divide, the division of the work ends. -/
theorem forkJoin_matchParallel {r : MatchRule} (hr : 2 ≤ r.workThreshold) (m : Model α)
    (index : BlockIndex) (right : List Record) :
    ForkJoin m r index right (m.matchParallel r index right) := by
  induction right using matchParallel.induct r with
  | case1 right h =>
      rw [matchParallel, if_pos h]
      exact .leaf (by omega)
  | case2 right h half ihlow ihhigh =>
      rw [matchParallel, if_neg h]
      exact .fork (by omega) ihlow ihhigh

/-- The outcome of a part agrees with matching it in sequence: it is the same, or an ordinary
failure is hidden by a broken promise. -/
def Agrees (m : Model α) (index : BlockIndex) (right : List Record)
    (outcome : Except Error (ScoreMap α)) : Prop :=
  outcome = m.matchSequential index right ∨
    ∃ e p, m.matchSequential index right = .error e ∧ (∀ q, e ≠ .misuse q) ∧
      (∃ pair ∈ index.pairs right, m.score pair.1 pair.2 = .error (.misuse p)) ∧
      outcome = .error (.misuse p)

theorem Agrees.exists_misuse {m : Model α} {index : BlockIndex} {right : List Record} {p : Misuse}
    (h : Agrees m index right (.error (.misuse p))) :
    ∃ pair ∈ index.pairs right, m.score pair.1 pair.2 = .error (.misuse p) := by
  rcases h with h | ⟨e, q, -, -, hpair, hq⟩
  · obtain ⟨before, pair, after, hpairs, -, hpair⟩ := matchSequential_eq_error_iff.mp h.symm
    exact ⟨pair, by rw [hpairs]; exact List.mem_append_right _ List.mem_cons_self, hpair⟩
  · obtain rfl := Error.misuse.inj (Except.error.inj hq)
    exact hpair

theorem Agrees.join [Std.TransOrd α] {m : Model α} {index : BlockIndex} {low high : List Record}
    {x y : Except Error (ScoreMap α)} (hx : Agrees m index low x) (hy : Agrees m index high y) :
    Agrees m index (low ++ high) (joinHalves ScoreMap.merge x y) := by
  have hseq := matchSequential_append m index low high
  have hleft : ∀ {pair}, pair ∈ index.pairs low → pair ∈ index.pairs (low ++ high) := fun h => by
    rw [BlockIndex.pairs_append]; exact List.mem_append_left _ h
  have hright : ∀ {pair}, pair ∈ index.pairs high → pair ∈ index.pairs (low ++ high) := fun h => by
    rw [BlockIndex.pairs_append]; exact List.mem_append_right _ h
  have hy' := @Agrees.exists_misuse _ _ _ m index high
  rcases hx with rfl | ⟨e, p, hlow, he, ⟨pair, hmem, hpair⟩, rfl⟩
  · cases hlow : m.matchSequential index low with
    | ok scores =>
        rw [hlow] at hseq
        rcases hy with rfl | ⟨e, p, hhigh, he, ⟨pair, hmem, hpair⟩, rfl⟩
        · left
          rw [hseq]
          cases m.matchSequential index high with
          | ok => rfl
          | error e => exact joinHalves_ok_error scores e
        · right
          rw [hhigh] at hseq
          exact ⟨e, p, hseq, he, ⟨pair, hright hmem, hpair⟩, joinHalves_ok_error scores _⟩
    | error e =>
        rw [hlow] at hseq
        -- Only a broken promise in the second half competes with the failure of the first.
        cases y with
        | ok scores => exact .inl ((joinHalves_error_ok e scores).trans hseq.symm)
        | error e' =>
            by_cases h : ∀ p, e' = .misuse p → ∃ q, e = .misuse q
            · exact .inl ((joinHalves_error h).trans hseq.symm)
            · obtain ⟨p, h⟩ := not_forall.mp h
              obtain ⟨rfl, he⟩ := Classical.not_imp.mp h
              obtain ⟨pair, hmem, hpair⟩ := hy' hy
              have he : ∀ q, e ≠ .misuse q := not_exists.mp he
              exact .inr ⟨e, p, hseq, he, ⟨pair, hright hmem, hpair⟩, joinHalves_misuse he p⟩
  · right
    rw [hlow] at hseq
    exact ⟨e, p, hseq, he, ⟨pair, hleft hmem, hpair⟩, rfl⟩

/-- Every outcome of dividing the work agrees with matching in sequence. -/
theorem ForkJoin.agrees [Std.TransOrd α] {m : Model α} {r : MatchRule} {index : BlockIndex}
    {right : List Record} {outcome : Except Error (ScoreMap α)}
    (h : ForkJoin m r index right outcome) : Agrees m index right outcome := by
  induction h with
  | leaf => exact .inl rfl
  | @fork right _ _ _ _ _ ihlow ihhigh =>
      have hjoin := ihlow.join ihhigh
      rwa [List.take_append_drop] at hjoin

/-! ## Parallel against sequence -/

theorem two_le_workThreshold {r : MatchRule} (hr : r.check = .ok ()) : 2 ≤ r.workThreshold := by
  by_contra h
  rw [MatchRule.check, if_pos (by omega)] at hr
  exact absurd hr (by simp)

theorem matchSequential_of_matchParallel [Std.TransOrd α] {m : Model α} {r : MatchRule}
    (hr : r.check = .ok ()) {index : BlockIndex} {right : List Record} {scores : ScoreMap α}
    (h : m.matchParallel r index right = .ok scores) :
    m.matchSequential index right = .ok scores := by
  have hfork := forkJoin_matchParallel (two_le_workThreshold hr) m index right
  rcases hfork.agrees with hsame | ⟨e, q, -, -, -, hmisuse⟩
  · exact hsame.symm.trans h
  · exact absurd (h.symm.trans hmisuse) (by simp)

/-- For every threshold that is accepted the division of the work ends with one outcome.  Where
matching in sequence has scores, these are the scores.  Where it fails, the failure is that of the
first pair without a score, and the outcome is this failure too, unless it is an ordinary one and
the outcome is the broken promise of a later pair. -/
theorem matchParallel_refines_matchSequential (m : Model Float) (r : MatchRule)
    (hr : r.check = .ok ()) (index : BlockIndex) (right : List Record) :
    (∀ outcome, ForkJoin m r index right outcome ↔ outcome = m.matchParallel r index right) ∧
    (∀ scores, m.matchSequential index right = .ok scores →
      m.matchParallel r index right = .ok scores) ∧
    ∀ e, m.matchSequential index right = .error e →
      ∃ before pair after, index.pairs right = before ++ pair :: after ∧
        (∀ q ∈ before, ∃ x, m.score q.1 q.2 = .ok x) ∧ m.score pair.1 pair.2 = .error e ∧
        (m.matchParallel r index right = .error e ∨
          (∀ q, e ≠ .misuse q) ∧
            ∃ p, (∃ later ∈ after, m.score later.1 later.2 = .error (.misuse p)) ∧
              m.matchParallel r index right = .error (.misuse p)) := by
  have hfork := forkJoin_matchParallel (two_le_workThreshold hr) m index right
  refine ⟨fun outcome => ⟨fun h => forkJoin_deterministic h hfork, ?_⟩, ?_,
    ?_⟩
  · rintro rfl
    exact hfork
  · intro scores h
    rcases hfork.agrees with hsame | ⟨e, p, herror, -⟩
    · rw [hsame, h]
    · exact absurd (h.symm.trans herror) (by simp)
  · intro e h
    obtain ⟨before, pair, after, hpairs, hbefore, hpair⟩ := matchSequential_eq_error_iff.mp h
    refine ⟨before, pair, after, hpairs, hbefore, hpair, ?_⟩
    rcases hfork.agrees with hsame | ⟨e', p, herror, he, ⟨later, hmem, hlater⟩, hmisuse⟩
    · left
      rw [hsame, h]
    · right
      obtain rfl := Except.error.inj (h.symm.trans herror)
      refine ⟨he, p, ⟨later, ?_, hlater⟩, hmisuse⟩
      rw [hpairs] at hmem
      rcases List.mem_append.mp hmem with hmem | hmem
      · obtain ⟨x, hx⟩ := hbefore later hmem
        exact absurd (hx.symm.trans hlater) (by simp)
      · rcases List.mem_cons.mp hmem with rfl | hmem
        · exact absurd (Except.error.inj (hpair.symm.trans hlater)) (he p)
        · exact hmem

/-- Where every pair has a score, the division of the work makes no difference to that. -/
theorem exists_matchParallel {m : Model α} {r : MatchRule} {index : BlockIndex}
    {right : List Record} (h : ∀ pair ∈ index.pairs right, ∃ x, m.score pair.1 pair.2 = .ok x) :
    ∃ scores, m.matchParallel r index right = .ok scores := by
  induction right using matchParallel.induct r with
  | case1 right hsmall =>
      obtain ⟨ps, hps⟩ := Traversal.exists_mapM_eq_ok fun pair hpair =>
        scored_isOk_iff.mpr (h pair hpair)
      rw [matchParallel, if_pos hsmall, matchSequential_eq, hps]
      exact ⟨_, rfl⟩
  | case2 right hsmall half ihlow ihhigh =>
      rw [← List.take_append_drop half right, BlockIndex.pairs_append] at h
      obtain ⟨low, hlow⟩ := ihlow fun pair hpair => h pair (List.mem_append_left _ hpair)
      obtain ⟨high, hhigh⟩ := ihhigh fun pair hpair => h pair (List.mem_append_right _ hpair)
      rw [matchParallel, if_neg hsmall]
      exact ⟨low.merge high, congrArg₂ (joinHalves ScoreMap.merge) hlow hhigh⟩

/-! ### A hidden failure -/

def ageAndName : RecordComparator :=
  ⟨0, [⟨"age", "age", 0, 0, .absoluteDifference [1]⟩, ⟨"name", "name", 1, 1, .exact⟩], false, 4⟩

def evenWeights : Weights Float :=
  [[[0.5, 0.5], [0.5, 0.5]], [[0.5, 0.5], [0.5, 0.5]]]

def evenModel : Model Float :=
  ⟨ageAndName, 1, evenWeights, evenWeights.logs, none⟩

def ages : Schema := ⟨0, ["household", "age"], ["household"], none, none⟩

def agesAndNames : Schema := ⟨1, ["household", "age", "name"], ["household"], none, none⟩

def person (household age name number : String) : Record :=
  agesAndNames.recordOf [household, age, name] number

/-- People without names, the first of which has no proper age either. -/
def nameless : List Record :=
  [ages.recordOf ["1", "x"] "0", ages.recordOf ["2", "5"] "1"]

def named : List Record :=
  [person "1" "y" "n" "0", person "2" "5" "n" "1"]

theorem make_evenModel : make ageAndName evenWeights 1 = .ok evenModel := by
  have hsum : ¬ (1e-6 : Float) < Arithmetic.abs (Arithmetic.sum [0.5, 0.5] - 1) := by decide
  have hrow (cls k : Nat) : Weights.checkRow cls k 2 [(0.5 : Float), 0.5] = .ok () := by
    rw [Weights.checkRow, if_neg (by decide)]
    exact if_neg hsum
  have hcheck : evenWeights.check ageAndName.levels = .ok () := by
    simp [Weights.check, evenWeights, Weights.checkClass, RecordComparator.levels, ageAndName,
      Binding.levels, FieldComparator.levels, hrow, bind, Except.bind, pure, Except.pure]
  rw [make, hcheck]
  rfl

theorem score_noAge : evenModel.score (ages.recordOf ["1", "x"] "0") (person "1" "y" "n" "0") =
    .error (.notNumeric "x" .number) := by
  have hread : Decimal.readFloat? (Text.trim "x") = none := rfl
  have hlevel : (Binding.mk "age" "age" 0 0 (.absoluteDifference [1])).level false ⟨"x"⟩ ⟨"y"⟩ =
      .error (.notNumeric "x" .number) := by
    simp [Binding.level, Field.isBlank, show Text.allBlank "x" = false by decide,
      show Text.allBlank "y" = false by decide, FieldComparator.isExact, FieldComparator.compare,
      Field.asFloat, hread, bind, Except.bind]
  have hcompare : ageAndName.compare (ages.recordOf ["1", "x"] "0") (person "1" "y" "n" "0") =
      .error (.notNumeric "x" .number) := Traversal.mapM_cons_error hlevel
  rw [score, show evenModel.comparator = ageAndName from rfl, hcompare]
  rfl

theorem score_noName : evenModel.score (ages.recordOf ["2", "5"] "1") (person "2" "5" "n" "1") =
    .error (.misuse .outOfBounds) := by
  have hlevel : (Binding.mk "age" "age" 0 0 (.absoluteDifference [1])).level false ⟨"5"⟩ ⟨"5"⟩ =
      .ok 1 := by
    simp [Binding.level, Field.isBlank, show Text.allBlank "5" = false by decide,
      FieldComparator.levels]
  have hcompare : ageAndName.compare (ages.recordOf ["2", "5"] "1") (person "2" "5" "n" "1") =
      .error (.misuse .outOfBounds) := by
    refine (Traversal.mapM_cons_eq_error_iff (y := 1) ?_).mpr ?_
    · exact hlevel
    · rfl
  rw [score, show evenModel.comparator = ageAndName from rfl, hcompare]
  rfl

theorem matchSequential_named :
    evenModel.matchSequential (.ofRecords nameless) named = .error (.notNumeric "x" .number) :=
  matchSequential_eq_error_iff.mpr ⟨[], _, _, rfl, by simp, score_noAge⟩

theorem matchParallel_named :
    evenModel.matchParallel ⟨2⟩ (.ofRecords nameless) named = .error (.misuse .outOfBounds) := by
  have hlow : evenModel.matchParallel ⟨2⟩ (.ofRecords nameless) [person "1" "y" "n" "0"] =
      .error (.notNumeric "x" .number) := by
    rw [matchParallel, if_pos (by decide)]
    exact matchSequential_eq_error_iff.mpr ⟨[], _, _, rfl, by simp, score_noAge⟩
  have hhigh : evenModel.matchParallel ⟨2⟩ (.ofRecords nameless) [person "2" "5" "n" "1"] =
      .error (.misuse .outOfBounds) := by
    rw [matchParallel, if_pos (by decide)]
    exact matchSequential_eq_error_iff.mpr ⟨[], _, _, rfl, by simp, score_noName⟩
  rw [matchParallel, if_neg (by decide)]
  exact congrArg₂ (joinHalves ScoreMap.merge) hlow hhigh

/-- A person without a name, in the second half, hides the failure of one without an age, in the
first half. -/
theorem matchParallel_ne_matchSequential :
    MatchRule.check ⟨2⟩ = .ok () ∧ make ageAndName evenWeights 1 = .ok evenModel ∧
      evenModel.matchSequential (.ofRecords nameless) named = .error (.notNumeric "x" .number) ∧
      evenModel.matchParallel ⟨2⟩ (.ofRecords nameless) named = .error (.misuse .outOfBounds) :=
  ⟨rfl, make_evenModel, matchSequential_named, matchParallel_named⟩

/-- The failure without an age is the first one. -/
theorem matchParallel_refines_named :
    MatchRule.check ⟨2⟩ = .ok () ∧
      ∃ before pair after,
        (BlockIndex.ofRecords nameless).pairs named = before ++ pair :: after ∧
        (∀ q ∈ before, ∃ x, evenModel.score q.1 q.2 = .ok x) ∧
        evenModel.score pair.1 pair.2 = .error (.notNumeric "x" .number) :=
  have ⟨before, pair, after, hpairs, hbefore, hpair, _⟩ :=
    (matchParallel_refines_matchSequential evenModel ⟨2⟩ rfl (.ofRecords nameless) named).2.2 _
      matchSequential_named
  ⟨rfl, before, pair, after, hpairs, hbefore, hpair⟩

end Model

end Linkage
