import Linkage.Proofs.Exact.Extended
import Linkage.Proofs.Mixture.Scoring

/-
# Models whose scores are numbers

A level to which every class gives weight has a logarithm in every class, and a level to which none
does counts 0.  Only a level on which the classes differ, some giving it weight and some not, has a
logarithm at the lower end.  A model without such a level scores every pattern by a number, and
neither priors nor the order of the classes change this.
-/

namespace Linkage

open Extended (number top bottom)
open PatternSpace

theorem Extended.exists_eq_number {x : Extended} (hbottom : bottom < x) (htop : x < top) :
    ∃ y : ℝ, x = number y := by
  cases x with
  | number y => exact ⟨y, rfl⟩
  | top => exact htop.elim
  | bottom => exact hbottom.elim
  | undefined => exact hbottom.elim

/-- Weights by which every level has weight in all classes that have it, or in none. -/
def Weights.Unanimous (weights : Weights Extended) : Prop :=
  ∀ k level : Nat, weights.isSilent k level = true ∨
    ∀ rows ∈ weights, ∀ w, ((rows[k]?).bind (·[level]?)) = some w →
      ∃ x : ℝ, 0 < x ∧ w = number x

namespace Model

variable {c : RecordComparator} {m m' : Model Extended}

/-- A model whose logarithms are numbers. -/
def Finite (m : Model Extended) : Prop :=
  ∀ rows ∈ m.logWeights, ∀ k level : Nat, ∀ x,
    ((rows[k]?).bind (·[level]?)) = some x → bottom < x ∧ x < top

theorem finite_of_make {weights : Weights Extended} {matchCount : Nat}
    (h : make c weights matchCount = .ok m) (hweights : weights.Unanimous) : m.Finite := by
  obtain ⟨-, -, rfl⟩ := make_eq_ok_iff.mp h
  intro lrows hl k level y hy
  obtain ⟨rows, hrows, rfl⟩ := List.mem_map.mp hl
  have hentry := weights.entry_logRows rows k level
  rw [Weights.logRows, hy] at hentry
  obtain ⟨w, hw, heq⟩ := Option.map_eq_some_iff.mp hentry.symm
  rcases hweights k level with hsilent | hpos
  · rw [if_pos hsilent] at heq
    exact heq ▸ ⟨trivial, trivial⟩
  · obtain ⟨x, hx, rfl⟩ := hpos rows hrows w hw
    split at heq
    · exact heq ▸ ⟨trivial, trivial⟩
    · exact heq ▸ ⟨Extended.bottom_lt_log hx, Extended.log_lt_top hx.le⟩

theorem Finite.withPriors (hm : m.Finite) {priors : List Extended}
    (h : m.withPriors priors = .ok m') : m'.Finite := by
  rw [Model.withPriors] at h
  split at h
  case isTrue => cases h
  case isFalse =>
    obtain rfl := Except.ok.inj h
    exact hm

theorem Finite.withMatchClasses (hm : m.Finite) {first : List Nat}
    (h : m.withMatchClasses first = .ok m') : m'.Finite := by
  rw [Model.withMatchClasses] at h
  obtain ⟨-, -, h⟩ := Traversal.bind_eq_ok_iff.mp h
  split at h
  case isTrue =>
    obtain rfl := Except.ok.inj h
    intro rows hrows
    obtain ⟨j, -, hj⟩ := List.mem_filterMap.mp hrows
    exact hm rows (List.mem_of_getElem? hj)
  case isFalse => cases h

/-- The logarithms that a pattern selects sum to a number, and the sign keeps it one. -/
theorem Finite.classScore (hm : m.Finite) (hshaped : m.Shaped c) {p : Pattern} (hp : Fits c.levels p)
    {rows : List (List Extended)} (hrows : rows ∈ m.logWeights) {cls : Nat} {x : Extended}
    (h : m.classScore p rows cls = .ok x) : bottom < x ∧ x < top := by
  obtain ⟨xs, hxs, hmem⟩ := cells_eq_ok (hshaped.logs rows hrows) hp
  have hends : ∀ x ∈ xs, bottom < x ∧ x < top := by
    intro x hx
    obtain ⟨k, level, -, hentry⟩ := (hmem x).mp hx
    exact hm rows hrows k level x hentry
  have hbottom := Extended.bottom_lt_sum fun x hx => (hends x hx).1
  have htop := Extended.sum_lt_top fun x hx => (hends x hx).2
  rw [Model.classScore, hxs] at h
  obtain rfl := Except.ok.inj h
  split
  · exact ⟨hbottom, htop⟩
  · exact ⟨Extended.bottom_lt_neg htop, Extended.neg_lt_top hbottom⟩

theorem Finite.scorePattern (hm : m.Finite) (hshaped : m.Shaped c) {p : Pattern}
    (hp : Fits c.levels p) : ∃ x : ℝ, m.scorePattern p = .ok (number x) := by
  obtain ⟨score, hscore⟩ := hshaped.scorePattern_eq_ok hp
  obtain ⟨xs, hxs, heq⟩ := Traversal.bind_eq_ok_iff.mp hscore
  have hends : ∀ x ∈ xs, bottom < x ∧ x < top := by
    intro x hx
    obtain ⟨⟨rows, cls⟩, hrows, hclass⟩ := (Traversal.mem_mapM_iff hxs x).mp hx
    exact hm.classScore hshaped hp (List.fst_mem_of_mem_zipIdx hrows) hclass
  have hbottom := Extended.bottom_lt_sum fun x hx => (hends x hx).1
  have htop := Extended.sum_lt_top fun x hx => (hends x hx).2
  rw [Except.ok.inj heq] at hbottom htop
  obtain ⟨x, rfl⟩ := Extended.exists_eq_number hbottom htop
  exact ⟨x, hscore⟩

end Model

end Linkage
