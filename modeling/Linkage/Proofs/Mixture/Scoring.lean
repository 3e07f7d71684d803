import Linkage.Proofs.Agreement.RecordComparator
import Linkage.Proofs.Mixture.Weights

/-
# The patterns of a comparator have scores

A model is made over a comparator, may be given priors, and may have its classes reordered.
Whichever of these was done, its logarithms have the shape of the comparator's levels.  So every
pattern of the comparator has a score, and two records score what the number of their pattern does.
-/

namespace Linkage

open PatternSpace

namespace Model

variable {α : Type} [Arithmetic α] {c : RecordComparator} {m m' : Model α}

/-- The models over a comparator. -/
inductive Over (c : RecordComparator) : Model α → Prop
  | make {weights : Weights α} {matchCount : Nat} {m : Model α} :
      Model.make c weights matchCount = .ok m → Over c m
  | withPriors {m m' : Model α} {priors : List α} :
      Over c m → m.withPriors priors = .ok m' → Over c m'
  | withMatchClasses {m m' : Model α} {first : List Nat} :
      Over c m → m.withMatchClasses first = .ok m' → Over c m'

/-- Logarithms for the levels of a comparator. -/
structure Shaped (c : RecordComparator) (m : Model α) : Prop where
  comparator : m.comparator = c
  logs : ∀ rows ∈ m.logWeights, RowsFit c.levels rows

theorem shaped_of_make {weights : Weights α} {matchCount : Nat}
    (h : make c weights matchCount = .ok m) : m.Shaped c := by
  obtain ⟨-, hrows, rfl⟩ := make_eq_ok_iff.mp h
  refine ⟨rfl, ?_⟩
  intro lrows hl
  obtain ⟨rows, hmem, rfl⟩ := List.mem_map.mp hl
  exact Weights.rowsFit_logRows weights ((hrows rows hmem).imp fun _ _ hrow => hrow.1)

omit [Arithmetic α] in
theorem Shaped.withPriors (hm : m.Shaped c) {priors : List α}
    (h : m.withPriors priors = .ok m') : m'.Shaped c := by
  rw [Model.withPriors] at h
  split at h
  case isTrue => cases h
  case isFalse =>
    obtain rfl := Except.ok.inj h
    exact ⟨hm.comparator, hm.logs⟩

omit [Arithmetic α] in
theorem Shaped.withMatchClasses (hm : m.Shaped c) {first : List Nat}
    (h : m.withMatchClasses first = .ok m') : m'.Shaped c := by
  rw [Model.withMatchClasses] at h
  obtain ⟨-, -, h⟩ := Traversal.bind_eq_ok_iff.mp h
  split at h
  case isTrue =>
    obtain rfl := Except.ok.inj h
    refine ⟨hm.comparator, ?_⟩
    intro rows hrows
    obtain ⟨j, -, hj⟩ := List.mem_filterMap.mp hrows
    exact hm.logs rows (List.mem_of_getElem? hj)
  case isFalse => cases h

theorem Over.shaped (h : m.Over c) : m.Shaped c := by
  induction h with
  | make hmake => exact shaped_of_make hmake
  | withPriors _ hpriors ih => exact ih.withPriors hpriors
  | withMatchClasses _ hfirst ih => exact ih.withMatchClasses hfirst

theorem Shaped.scorePattern_eq_ok (hm : m.Shaped c) {p : Pattern} (hp : Fits c.levels p) :
    ∃ x, m.scorePattern p = .ok x := by
  have hclass : ∀ x ∈ m.logWeights.zipIdx, ∃ y, m.classScore p x.1 x.2 = .ok y := by
    rintro ⟨rows, cls⟩ hx
    have hrows := hm.logs rows (List.fst_mem_of_mem_zipIdx hx)
    obtain ⟨xs, hxs, -⟩ := cells_eq_ok hrows hp
    rw [classScore, hxs]
    exact ⟨_, rfl⟩
  obtain ⟨ys, hys⟩ := Traversal.exists_mapM_eq_ok hclass
  exact ⟨Arithmetic.sum ys, Traversal.bind_eq_ok_iff.mpr ⟨ys, hys, rfl⟩⟩

theorem Shaped.scoreIndex_eq_ok (hm : m.Shaped c) (hc : c.Numbered) {i : Nat}
    (hi : i < c.patternCount) : ∃ x, m.scoreIndex i = .ok x := by
  obtain ⟨x, hx⟩ := hm.scorePattern_eq_ok (fits_decode (hc ▸ hi))
  refine ⟨x, Traversal.bind_eq_ok_iff.mpr ⟨_, ?_, hx⟩⟩
  rw [hm.comparator, RecordComparator.patternAt_of_lt hi]

theorem Shaped.score_eq (hm : m.Shaped c) (hc : c.Numbered) (a b : Record) :
    m.score a b = c.compareIndex a b >>= m.scoreIndex := by
  rw [score, hm.comparator, RecordComparator.compareIndex_eq]
  cases hp : c.compare a b with
  | error e => rfl
  | ok p =>
      have hnumber := hc.patternAt_encode (RecordComparator.fits_compare hp)
      show m.scorePattern p = m.scoreIndex (encode c.levels p)
      rw [scoreIndex, hm.comparator, hnumber]
      rfl

end Model

end Linkage
