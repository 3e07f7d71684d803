import Linkage.Proofs.Mixture.Meaning

/-
# Reordering the classes

Which classes come first is a matter of naming.  The logarithms of a model are those of its weights,
whatever was done to it: a level is silent if no class produces it, and that does not depend on the
order of the classes.  So a model with its classes reordered is the one that the reordered rows make.
Its score adds the log-likelihoods of the classes that were named and subtracts those of the others,
which with exact arithmetic does not depend on the order of the names, and changes its sign when the
others are named instead.
-/

namespace Linkage

open PatternSpace

namespace Weights

variable {α : Type} [Arithmetic α] {weights weights' : Weights α}

theorem isSilent_perm (h : weights.Perm weights') (k level : Nat) :
    weights.isSilent k level = weights'.isSilent k level :=
  h.all_eq

theorem logs_pick {order : List Nat} (h : order.Perm (List.range weights.length)) :
    logs (Model.pick order weights) = Model.pick order weights.logs := by
  have hsilent := isSilent_perm (Model.pick_perm h)
  rw [logs_eq_map, logs_eq_map, Model.pick_map]
  refine List.map_congr_left fun rows _ => ?_
  simp only [logRows, hsilent]

end Weights

namespace Model

section

variable {α : Type} [Arithmetic α] {c : RecordComparator} {m m' : Model α} {first : List Nat}

omit [Arithmetic α] in
/-- Classes can be made the match classes just if they are some but not all, in range and each named
once. -/
theorem withMatchClasses_eq_ok_iff : m.withMatchClasses first = .ok m' ↔
    (1 ≤ first.length ∧ first.length < m.classCount ∧ first.Nodup ∧ ∀ j ∈ first, j < m.classCount) ∧
      m' = m.reorder first.length (classOrder m.classCount first) := by
  constructor
  · intro h
    obtain ⟨_, hclasses, hrest⟩ := Traversal.bind_eq_ok_iff.mp h
    obtain ⟨-, hsome, hnotAll⟩ := checkClasses_eq_ok_iff.mp hclasses
    split at hrest
    case isTrue hok =>
      rw [Bool.and_eq_true, isDistinct_iff, List.all_eq_true] at hok
      obtain ⟨hrange, hdistinct⟩ := hok
      exact ⟨⟨hsome, hnotAll, hdistinct, fun j hj => of_decide_eq_true (hrange j hj)⟩,
        (Except.ok.inj hrest).symm⟩
    case isFalse => cases hrest
  · rintro ⟨⟨hsome, hnotAll, hdistinct, hrange⟩, rfl⟩
    exact withMatchClasses_eq (checkClasses_eq_ok_iff.mpr ⟨by omega, hsome, hnotAll⟩) hrange hdistinct

/-- What holds of a model whatever was done to it: its weights are accepted, its logarithms are theirs,
and it has a prior for each class if it has any. -/
structure Coherent (c : RecordComparator) (m : Model α) : Prop where
  comparator : m.comparator = c
  rows : ∀ rows ∈ m.weights, List.Forall₂ Weights.RowOk rows c.levels
  logs : m.logWeights = m.weights.logs
  priors : ∀ priors, m.priors = some priors → priors.length = m.classCount

theorem coherent_of_make {weights : Weights α} {matchCount : Nat}
    (h : make c weights matchCount = .ok m) : m.Coherent c := by
  obtain ⟨-, hrows, rfl⟩ := make_eq_ok_iff.mp h
  exact ⟨rfl, hrows, rfl, nofun⟩

theorem Coherent.withPriors (hm : m.Coherent c) {priors : List α}
    (h : m.withPriors priors = .ok m') : m'.Coherent c := by
  rw [Model.withPriors] at h
  split at h
  case isTrue => cases h
  case isFalse hlen =>
    obtain rfl := Except.ok.inj h
    refine ⟨hm.comparator, hm.rows, hm.logs, ?_⟩
    intro priors' heq
    obtain rfl := Option.some.inj heq
    exact not_not.mp hlen

theorem Coherent.reorder (hm : m.Coherent c) {order : List Nat} (matchCount : Nat)
    (horder : order.Perm (List.range m.classCount)) : (m.reorder matchCount order).Coherent c := by
  have hperm : (pick order m.weights).Perm m.weights := pick_perm horder
  refine ⟨hm.comparator, ?_, ?_, ?_⟩
  · intro rows hrows
    exact hm.rows rows (hperm.mem_iff.mp hrows)
  · exact (congrArg (pick order) hm.logs).trans (Weights.logs_pick horder).symm
  · intro priors hpriors
    obtain ⟨priors', hpriors', rfl⟩ := Option.map_eq_some_iff.mp hpriors
    have hlen := hm.priors priors' hpriors'
    exact (pick_perm (hlen ▸ horder)).length_eq.trans (hlen.trans hperm.length_eq.symm)

theorem Over.coherent (h : m.Over c) : m.Coherent c := by
  induction h with
  | make hmake => exact coherent_of_make hmake
  | withPriors _ hpriors ih => exact ih.withPriors hpriors
  | withMatchClasses _ hfirst ih =>
      obtain ⟨⟨-, -, hdistinct, hrange⟩, rfl⟩ := withMatchClasses_eq_ok_iff.mp hfirst
      exact ih.reorder _ (classOrder_perm hrange hdistinct)

theorem Coherent.withMatchClasses (hm : m.Coherent c) (h : m.withMatchClasses first = .ok m') :
    ∃ made, make c (pick (classOrder m.classCount first) m.weights) first.length = .ok made ∧
      (m.priors = none → m' = made) ∧
      ∀ priors, m.priors = some priors →
        made.withPriors (pick (classOrder m.classCount first) priors) = .ok m' := by
  obtain ⟨⟨hsome, hnotAll, hdistinct, hrange⟩, rfl⟩ := withMatchClasses_eq_ok_iff.mp h
  have horder := classOrder_perm hrange hdistinct
  set order := classOrder m.classCount first
  have hreordered := hm.reorder first.length horder
  have hlength : (pick order m.weights).length = m.classCount := (pick_perm horder).length_eq
  have hcount : checkClasses (pick order m.weights).length first.length = .ok () :=
    checkClasses_eq_ok_iff.mpr (by omega)
  have hmodel : m.reorder first.length order =
      ⟨c, first.length, pick order m.weights, Weights.logs (pick order m.weights),
        m.priors.map (pick order)⟩ := by
    rw [Model.reorder, hm.comparator, hm.logs, Weights.logs_pick horder]
  refine ⟨_, make_eq_ok_iff.mpr ⟨hcount, hreordered.rows, rfl⟩, ?_, ?_⟩
  · intro hnone
    rw [hmodel, hnone]
    rfl
  · intro priors hpriors
    have hlen : (pick order priors).length = (pick order m.weights).length := by
      have hlen := hm.priors priors hpriors
      rw [(pick_perm (hlen ▸ horder)).length_eq, hlen, hlength]
    rw [hmodel, hpriors]
    exact withPriors_eq hlen

end

/-! ## Scores -/

section Scores

variable {c : RecordComparator} {m m' : Model Extended} {first : List Nat} {p : Pattern}

theorem pick_append {β : Type} (order order' : List Nat) (xs : List β) :
    pick (order ++ order') xs = pick order xs ++ pick order' xs :=
  List.filterMap_append

theorem pick_eq_map {β : Type} {order : List Nat} {xs : List β} (d : β)
    (h : ∀ j ∈ order, j < xs.length) : pick order xs = order.map (xs.getD · d) := by
  rw [← List.filterMap_eq_map]
  refine List.filterMap_congr fun j hj => ?_
  rw [Function.comp_apply, List.getD_eq_getElem _ _ (h j hj)]
  exact List.getElem?_eq_getElem (h j hj)

def likelihoods {α : Type} [Arithmetic α] (m : Model α) (p : Pattern) (classes : List Nat) : List α :=
  classes.map fun cls => logLikelihoodOf (m.logWeights.getD cls []) p

def others (classes : Nat) (first : List Nat) : List Nat :=
  (List.range classes).filter fun j => !first.contains j

theorem mem_others {classes j : Nat} : j ∈ others classes first ↔ j < classes ∧ j ∉ first := by
  simp [others]

theorem nodup_others (classes : Nat) (first : List Nat) : (others classes first).Nodup :=
  List.nodup_range.filter _

theorem sum_likelihoods_perm {classes classes' : List Nat} (h : classes.Nodup) (h' : classes'.Nodup)
    (hmem : ∀ j, j ∈ classes ↔ j ∈ classes') :
    Arithmetic.sum (m.likelihoods p classes) = Arithmetic.sum (m.likelihoods p classes') :=
  Extended.sum_perm (((List.perm_ext_iff_of_nodup h h').mpr hmem).map _)

/-- The score after reordering, by the log-likelihoods before it. -/
theorem Coherent.scorePattern_reorder (hm : m.Coherent c) (hshaped : m.Shaped c)
    (h : m.withMatchClasses first = .ok m') (hp : Fits c.levels p) :
    m'.scorePattern p = .ok (Arithmetic.sum (m.likelihoods p first) -
      Arithmetic.sum (m.likelihoods p (others m.classCount first))) := by
  have hscore := (hshaped.withMatchClasses h).scorePattern_eq_sub hp
  obtain ⟨⟨-, -, -, hrange⟩, rfl⟩ := withMatchClasses_eq_ok_iff.mp h
  have hlength : m.logWeights.length = m.classCount := by
    rw [hm.logs, Weights.logs_eq_map, List.length_map]
    rfl
  have hfirst : pick first m.logWeights = first.map (m.logWeights.getD · []) :=
    pick_eq_map [] (by rwa [hlength])
  have hothers : pick (others m.classCount first) m.logWeights =
      (others m.classCount first).map (m.logWeights.getD · []) :=
    pick_eq_map [] (by simp [others, hlength]; omega)
  have hlogs : (m.reorder first.length (classOrder m.classCount first)).logWeights =
      pick first m.logWeights ++ pick (others m.classCount first) m.logWeights := pick_append _ _ _
  have hcount : (m.reorder first.length (classOrder m.classCount first)).matchCount =
      (pick first m.logWeights).length := by rw [hfirst, List.length_map]; rfl
  rw [hscore, hlogs, hcount, List.take_left' rfl, List.drop_left' rfl, hfirst, hothers, List.map_map,
    List.map_map]
  rfl

end Scores

/-- Reordering the classes.  The classes that are named must be some but not all, in range and each
named once.  The model is then the one that the reordered rows make, with the reordered priors.  Its
score is what the log-likelihoods of the classes that are named come to beyond those of the others, so
that the order of the names does not matter, and naming the others changes its sign. -/
theorem withMatchClasses_consistent (c : RecordComparator) :
    (∀ (α : Type) [Arithmetic α] (m : Model α) (first : List Nat), m.Over c →
      ((∃ m', m.withMatchClasses first = .ok m') ↔ 1 ≤ first.length ∧ first.length < m.classCount ∧
        first.Nodup ∧ ∀ j ∈ first, j < m.classCount) ∧
      ∀ m', m.withMatchClasses first = .ok m' →
        ∃ made, make c (pick (first ++ others m.classCount first) m.weights) first.length = .ok made ∧
          (m.priors = none → m' = made) ∧
          ∀ priors, m.priors = some priors →
            made.withPriors (pick (first ++ others m.classCount first) priors) = .ok m') ∧
    ∀ (m m' : Model Extended) (first : List Nat) (p : Pattern), m.Over c →
      m.withMatchClasses first = .ok m' → Fits c.levels p →
      m'.scorePattern p = .ok (Arithmetic.sum (m.likelihoods p first) -
        Arithmetic.sum (m.likelihoods p (others m.classCount first))) ∧
      ∀ (first' : List Nat) (m'' : Model Extended), m.withMatchClasses first' = .ok m'' →
        ((∀ j, j ∈ first' ↔ j ∈ first) → m''.scorePattern p = m'.scorePattern p) ∧
        ((∀ j < m.classCount, j ∈ first' ↔ j ∉ first) →
          ∃ score, m'.scorePattern p = .ok score ∧ m''.scorePattern p = .ok (-score)) := by
  constructor
  · intro α _ m first hm
    constructor
    · constructor
      · rintro ⟨m', h⟩
        exact (withMatchClasses_eq_ok_iff.mp h).1
      · intro h
        exact ⟨_, withMatchClasses_eq_ok_iff.mpr ⟨h, rfl⟩⟩
    · intro m' h
      exact hm.coherent.withMatchClasses h
  · intro m m' first p hm h hp
    have hscore := hm.coherent.scorePattern_reorder hm.shaped h hp
    obtain ⟨⟨-, -, hdistinct, hrange⟩, -⟩ := withMatchClasses_eq_ok_iff.mp h
    refine ⟨hscore, fun first' m'' h' => ?_⟩
    have hscore' := hm.coherent.scorePattern_reorder hm.shaped h' hp
    obtain ⟨⟨-, -, hdistinct', hrange'⟩, -⟩ := withMatchClasses_eq_ok_iff.mp h'
    constructor
    · intro hsame
      have hothers : ∀ j, j ∈ others m.classCount first' ↔ j ∈ others m.classCount first := by
        intro j
        rw [mem_others, mem_others, hsame]
      rw [hscore, hscore', sum_likelihoods_perm hdistinct' hdistinct hsame,
        sum_likelihoods_perm (nodup_others _ _) (nodup_others _ _) hothers]
    · intro hcomplement
      have hnamed : ∀ j, j ∈ first' ↔ j ∈ others m.classCount first := by
        intro j
        rw [mem_others]
        exact ⟨fun hj => ⟨hrange' j hj, (hcomplement j (hrange' j hj)).mp hj⟩,
          fun hj => (hcomplement j hj.1).mpr hj.2⟩
      have hothers : ∀ j, j ∈ others m.classCount first' ↔ j ∈ first := by
        intro j
        rw [mem_others]
        constructor
        · rintro ⟨hlt, hj⟩
          exact not_not.mp fun hnot => hj ((hcomplement j hlt).mpr hnot)
        · intro hj
          exact ⟨hrange j hj, fun hj' => (hcomplement j (hrange j hj)).mp hj' hj⟩
      refine ⟨_, hscore, ?_⟩
      rw [hscore', sum_likelihoods_perm hdistinct' (nodup_others _ _) hnamed,
        sum_likelihoods_perm (nodup_others _ _) hdistinct hothers, neg_sub]

/-- Either of two classes can be named, and the scores are opposite. -/
theorem withMatchClasses_consistent_lastNames :
    ∃ m m' m'' : Model Extended, m.Over twoNames ∧ m.withMatchClasses [1] = .ok m' ∧
      m.withMatchClasses [0] = .ok m'' ∧
      make twoNames (pick [1, 0] m.weights) 1 = .ok m' ∧
      ∃ score, m'.scorePattern [1, 0] = .ok score ∧ m''.scorePattern [1, 0] = .ok (-score) := by
  obtain ⟨m, hmake⟩ := make_lastNames
  have hm : m.Over twoNames := .make hmake
  obtain ⟨-, -, hmodel⟩ := make_eq_ok_iff.mp hmake
  have hcount : m.classCount = 2 := by rw [hmodel]; rfl
  have hp : Fits twoNames.levels [1, 0] := .cons (by decide) (.cons (by decide) .nil)
  obtain ⟨hmodels, hscores⟩ := withMatchClasses_consistent twoNames
  obtain ⟨m', h'⟩ := (hmodels Extended m [1] hm).1.mpr (by rw [hcount]; decide)
  obtain ⟨m'', h''⟩ := (hmodels Extended m [0] hm).1.mpr (by rw [hcount]; decide)
  obtain ⟨made, hmade, hnone, -⟩ := (hmodels Extended m [1] hm).2 m' h'
  have hopposite := ((hscores m m' [1] [1, 0] hm h' hp).2 [0] m'' h'').2 (by rw [hcount]; decide)
  have hnew : m' = made := hnone (by rw [hmodel])
  rw [hcount, ← hnew] at hmade
  exact ⟨m, m', m'', hm, h', h'', hmade, hopposite⟩

end Model

end Linkage
