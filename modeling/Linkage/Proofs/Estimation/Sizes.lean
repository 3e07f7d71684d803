import Linkage.Proofs.Estimation.Run
import Linkage.Proofs.Estimation.Table
import Linkage.Proofs.Random.Simplex

/-
# Sizes that a run keeps

A random estimate has the sizes that its problem asks for: a prior and a table for every class, a
share of every unlabeled pattern for every class, and in a table a row for every comparator with a
weight for every level.  A step keeps them, in any arithmetic.  So the patterns of a problem select
cells that exist, whatever the numbers in them are.  The number of the classes is kept whatever the
patterns are.
-/

namespace Linkage

open PatternSpace

variable {γ α : Type} [Arithmetic α] [Draws γ α]

/-- A problem with patterns of its levels, and with no more labels than classes. -/
structure Problem.Fitting (p : Problem α) : Prop where
  labels : p.labeled.length ≤ p.classes
  unlabeled : ∀ e ∈ p.unlabeled, Fits p.levels e.pattern
  labeled : ∀ entries ∈ p.labeled, ∀ e ∈ entries, Fits p.levels e.pattern

/-- An estimate for a number of classes: each has a prior, a table, and a share of every entry. -/
structure Estimate.OfClasses (n : Nat) (s : Estimate α) : Prop where
  priors : s.priors.length = n
  weights : s.weights.length = n
  shares : ∀ row ∈ s.shares, row.length = n

/-- An estimate of the sizes that a problem asks for. -/
structure Estimate.Sized (p : Problem α) (s : Estimate α) : Prop where
  priors : s.priors.length = p.classes
  weights : s.weights.length = p.classes
  rows : ∀ rows ∈ s.weights, RowsFit p.levels rows
  shares : s.shares.length = p.unlabeled.length
  shares_row : ∀ row ∈ s.shares, row.length = p.classes

omit [Arithmetic α] in
theorem Estimate.Sized.ofClasses {p : Problem α} {s : Estimate α} (hs : s.Sized p) :
    s.OfClasses p.classes :=
  ⟨hs.priors, hs.weights, hs.shares_row⟩

/-- A solution of the sizes that a problem asks for. -/
structure Solution.Sized (p : Problem α) (s : Solution α) : Prop where
  priors : s.priors.length = p.classes
  weights : s.weights.length = p.classes
  rows : ∀ rows ∈ s.weights, RowsFit p.levels rows

namespace Problem

variable {p : Problem α} {s u : Estimate α}

theorem sized_start (p : Problem α) (g : γ) : (p.start g).1.Sized p := by
  let priors : List α × γ := Simplex.partition p.classes g
  let weights : Weights α × γ := Simplex.tables p.levels p.classes priors.2
  let shares : List (List α) × γ :=
    Simplex.partitions (p.unlabeled.map fun _ => p.classes) weights.2
  have hshares : List.Forall₂ (fun row n => row.length = n) shares.1
      (p.unlabeled.map fun _ => p.classes) := Simplex.lengths_partitions _ weights.2
  show Estimate.Sized p ⟨priors.1, weights.1, shares.1⟩
  refine ⟨Simplex.length_partition p.classes g, (Simplex.lengths_tables _ _ _).1,
    (Simplex.lengths_tables _ _ _).2, ?_, ?_⟩
  · exact hshares.length_eq.trans (List.length_map ..)
  · rw [List.forall₂_map_right_iff] at hshares
    exact ((List.forall₂_and_left _ _).mp (hshares.imp fun _ _ h => And.intro h h)).1

/-! ## A step -/

theorem length_of_sharesOf {n : Nat} (hs : s.OfClasses n) {e : Tally.Entry} {shares : List α}
    (h : sharesOf s e = .ok shares) : shares.length = n := by
  rw [sharesOf] at h
  split at h
  case isTrue =>
    obtain rfl := Except.ok.inj h
    rw [List.length_map, List.length_zipWith, hs.priors, hs.weights, Nat.min_self]
  case isFalse => cases h

theorem ofClasses_expect {n : Nat} (hs : s.OfClasses n) (h : p.expect s = .ok u) :
    u.OfClasses n := by
  rw [expect] at h
  split at h
  case isTrue =>
    obtain ⟨shares, hshares, h⟩ := Traversal.bind_eq_ok_iff.mp h
    obtain rfl := Except.ok.inj h
    refine { hs with shares := fun row hrow => ?_ }
    obtain ⟨e, -, he⟩ := (Traversal.mem_mapM_iff hshares row).mp hrow
    exact length_of_sharesOf hs he
  case isFalse => exact Except.ok.inj h ▸ hs

theorem ofClasses_step (hs : s.OfClasses p.classes) (h : p.step s = .ok u) :
    u.OfClasses p.classes := by
  obtain ⟨v, hexpect, hmaximize⟩ := Traversal.bind_eq_ok_iff.mp h
  obtain ⟨-, rfl⟩ := maximize_eq_ok_iff.mp hmaximize
  exact {
    priors := (List.length_map ..).trans List.length_range
    weights := (List.length_map ..).trans List.length_range
    shares := (ofClasses_expect hs hexpect).shares }

theorem sized_expect (hs : s.Sized p) (h : p.expect s = .ok u) : u.Sized p := by
  have hclasses := ofClasses_expect hs.ofClasses h
  rw [expect] at h
  split at h
  case isTrue =>
    obtain ⟨shares, hshares, h⟩ := Traversal.bind_eq_ok_iff.mp h
    obtain rfl := Except.ok.inj h
    exact { hs with
      shares := (Traversal.mapM_eq_ok_iff.mp hshares).length_eq.symm
      shares_row := hclasses.shares }
  case isFalse => exact Except.ok.inj h ▸ hs

theorem Fitting.mass (hp : p.Fitting) (s : Estimate α) (cls : Nat) :
    ∀ m ∈ p.mass s cls, Fits p.levels m.pattern := by
  intro m hm
  rcases List.mem_append.mp hm with hm | hm
  · rw [labeledMass] at hm
    split at hm
    case isTrue =>
      obtain ⟨e, he, rfl⟩ := List.mem_map.mp hm
      rcases Nat.lt_or_ge cls p.labeled.length with hcls | hcls
      · rw [List.getD_eq_getElem _ _ hcls] at he
        exact hp.labeled _ (List.getElem_mem hcls) e he
      · rw [List.getD_eq_default _ _ hcls] at he
        cases he
    case isFalse => cases hm
  · rw [unlabeledMass] at hm
    split at hm
    case isTrue =>
      rw [← List.map_uncurry_zip_eq_zipWith] at hm
      obtain ⟨z, hz, rfl⟩ := List.mem_map.mp hm
      exact hp.unlabeled z.1 (List.of_mem_zip hz).1
    case isFalse => cases hm

theorem sized_maximize (hp : p.Fitting) (hs : s.Sized p) (h : p.maximize s = .ok u) :
    u.Sized p := by
  obtain ⟨-, rfl⟩ := maximize_eq_ok_iff.mp h
  refine { hs with priors := ?_, weights := ?_, rows := ?_ }
  · exact (List.length_map ..).trans List.length_range
  · exact (List.length_map ..).trans List.length_range
  · intro rows hrows
    obtain ⟨cls, -, rfl⟩ := List.mem_map.mp hrows
    exact rowsFit_normalize_table (hp.mass s cls) _

theorem sized_step (hp : p.Fitting) (hs : s.Sized p) (h : p.step s = .ok u) : u.Sized p := by
  obtain ⟨v, hexpect, hmaximize⟩ := Traversal.bind_eq_ok_iff.mp h
  exact sized_maximize hp (sized_expect hs hexpect) hmaximize

/-! ## A run -/

theorem Steps.sized {n : Nat} (hp : p.Fitting) (h : p.Steps n s u) (hs : s.Sized p) :
    u.Sized p := by
  induction h with
  | refl => exact hs
  | cons hstep _ ih => exact ih (sized_step hp hs hstep)

theorem sized_of_solve {r : StopRule} {g : γ} {solution : Solution α} (hp : p.Fitting)
    (h : (p.solve r g).1.result = .ok solution) : solution.Sized p := by
  refine of_solve ?_ h
  intro g events new hnew
  obtain ⟨n, u, hsteps, hpriors, hweights, -⟩ := steps_of_continueRun hnew
  have hu := hsteps.sized hp (p.sized_start g)
  exact ⟨hpriors ▸ hu.priors, hweights ▸ hu.weights, hweights ▸ hu.rows⟩

end Problem

end Linkage
