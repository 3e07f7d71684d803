import Linkage.Proofs.Exact.Monotone
import Linkage.Proofs.Mixture.Distribution
import Linkage.Proofs.Mixture.Scoring

/-
# Which tables become models

A table of weights becomes a model if it has the shape of the comparator's levels and its rows sum
to 1, up to a millionth.  The distance from 1 is computed with doubles, but what is refused is what
is too far off exactly: subtracting 1 keeps the order, so that it is enough to look at the doubles
next to the two ends.  The test asks whether the distance is too great.  So it passes over a sum
that is not a number, which has no distance.
-/

namespace Linkage

open Extended (number ofFloat number_le_number le_iff_ofFloat_le)
open Double

/-! ## Sums near 1 -/

section

variable {s : Float}

/-- The doubles next to a millionth above 1 and to a millionth below it. -/
theorem ofFloat_millionth :
    ofFloat 1.000001 = number (4503604130970123 * 2 ^ (-52 : Int)) ∧
    ofFloat 1.0000010000000001 = number (4503604130970124 * 2 ^ (-52 : Int)) ∧
    ofFloat 0.9999990000000001 = number (9007190247541738 * 2 ^ (-53 : Int)) ∧
    ofFloat 0.999999 = number (9007190247541737 * 2 ^ (-53 : Int)) := by
  have hvalue : ∀ {x : Float} {m : Nat} {e : Int} {hm : 0 < m}, view x = .finite .positive m e hm →
      ofFloat x = number (m * 2 ^ e) := fun h =>
    (Extended.ofFloat_eq h).trans (congrArg number (binary_eq_signed _ _ _))
  have habove : view 1.000001 = .finite .positive 4503604130970123 (-52) (by decide) := rfl
  have habove' : view 1.0000010000000001 = .finite .positive 4503604130970124 (-52) (by decide) := rfl
  have hbelow : view 0.9999990000000001 = .finite .positive 9007190247541738 (-53) (by decide) := rfl
  have hbelow' : view 0.999999 = .finite .positive 9007190247541737 (-53) (by decide) := rfl
  exact ⟨by exact_mod_cast hvalue habove, by exact_mod_cast hvalue habove',
    by exact_mod_cast hvalue hbelow, by exact_mod_cast hvalue hbelow'⟩

theorem next_le (hs : s.isNaN = false) (h : ¬ s ≤ 1.000001) : 1.0000010000000001 ≤ s :=
  le_of_lt_of_rank (Double.lt_of_not_le hs (by decide) h) (by decide) (by decide)

theorem le_previous (hs : s.isNaN = false) (h : ¬ 0.9999990000000001 ≤ s) : s ≤ 0.999999 :=
  le_of_gt_of_rank (Double.lt_of_not_le (by decide) hs h) (by decide) (by decide)

theorem above_iff (hs : s.isNaN = false) : 1e-6 < s - 1 ↔ ¬ s ≤ 1.000001 := by
  have hone : (1 : Float).isFinite = true := by decide
  constructor
  · intro hlt hle
    have hend : 1.000001 - 1 ≤ (1e-6 : Float) := by decide
    exact Double.not_lt_of_le (Double.le_trans (Double.sub_le_sub_right hle hone) hend) hlt
  · intro h
    have hend : (1e-6 : Float) < 1.0000010000000001 - 1 := by decide
    exact Double.lt_of_lt_of_le hend (Double.sub_le_sub_right (next_le hs h) hone)

theorem below_iff (hs : s.isNaN = false) : s - 1 < -1e-6 ↔ ¬ 0.9999990000000001 ≤ s := by
  have hone : (1 : Float).isFinite = true := by decide
  constructor
  · intro hlt hle
    have hend : -1e-6 ≤ (0.9999990000000001 - 1 : Float) := by decide
    exact Double.not_lt_of_le (Double.le_trans hend (Double.sub_le_sub_right hle hone)) hlt
  · intro h
    have hend : 0.999999 - 1 < (-1e-6 : Float) := by decide
    exact Double.lt_of_le_of_lt (Double.sub_le_sub_right (le_previous hs h) hone) hend

/-- The doubles between them are those that stand for a number near 1. -/
theorem near_one_iff (hs : s.isNaN = false) : s ≤ 1.000001 ∧ 0.9999990000000001 ≤ s ↔
    ∃ x : ℝ, ofFloat s = number x ∧ |x - 1| ≤ 1e-6 := by
  obtain ⟨hhigh, hhigh', hlow, hlow'⟩ := ofFloat_millionth
  constructor
  · rintro ⟨hle, hge⟩
    rw [le_iff_ofFloat_le, hhigh] at hle
    rw [le_iff_ofFloat_le, hlow] at hge
    cases hx : ofFloat s with
    | number x =>
        rw [hx, number_le_number] at hle hge
        refine ⟨x, rfl, abs_le.mpr ⟨?_, ?_⟩⟩
        · norm_num at hge ⊢
          linarith
        · norm_num at hle ⊢
          linarith
    | top => rw [hx] at hle; exact (hle.elim id id).elim
    | bottom => rw [hx] at hge; exact (hge.elim id id).elim
    | undefined => rw [hx] at hge; exact (hge.elim id id).elim
  · rintro ⟨x, hx, hnear⟩
    obtain ⟨hge, hle⟩ := abs_le.mp hnear
    constructor <;> by_contra hnot
    · have hnext := next_le hs hnot
      rw [le_iff_ofFloat_le, hx, hhigh', number_le_number] at hnext
      norm_num at hnext hle
      linarith
    · have hprevious := le_previous hs hnot
      rw [le_iff_ofFloat_le, hx, hlow', number_le_number] at hprevious
      norm_num at hprevious hge
      linarith

/-- A sum is near 1 as doubles compute the distance just if it is so exactly, or is not a number. -/
theorem not_lt_distance_iff : ¬ 1e-6 < Arithmetic.abs (s - 1) ↔
    s.isNaN = true ∨ ∃ x : ℝ, ofFloat s = number x ∧ |x - 1| ≤ 1e-6 := by
  rw [lt_abs_iff (by decide) (by decide), not_or]
  cases hs : s.isNaN with
  | true =>
      have hnan : (s - 1).isNaN = true := isNaN_sub hs
      refine iff_of_true ⟨fun h => ?_, fun h => ?_⟩ (.inl rfl)
      · rw [Score.lt_iff_rank_lt, hnan] at h
        cases h.2.1
      · rw [Score.lt_iff_rank_lt, hnan] at h
        cases h.1
  | false =>
      rw [above_iff hs, below_iff hs, not_not, not_not, near_one_iff hs,
        or_iff_right Bool.false_ne_true]

end

/-! ## Tables -/

/-- A row of weights that sums to 1, up to a millionth. -/
def Weights.SumsToOne (row : List Float) : Prop :=
  ∃ x : ℝ, ofFloat (Arithmetic.sum row) = number x ∧ |x - 1| ≤ 1e-6

theorem Weights.rowOk_iff {row : List Float} {n : Nat} :
    RowOk row n ↔ row.length = n ∧ ((Arithmetic.sum row).isNaN = true ∨ SumsToOne row) :=
  and_congr_right fun _ => not_lt_distance_iff

namespace Model

open PatternSpace

/-- A table becomes a model just if it has two classes, of which some but not all are match classes,
and each class has a row for every comparator, with a weight for every level, of which the sum is 1 up
to a millionth or is not a number.  A model scores every pattern of its comparator. -/
theorem make_accepts_iff {serial : Nat} {bindings : List Binding} {handleBlanks : Bool}
    {c : RecordComparator} (hc : RecordComparator.make serial bindings handleBlanks = .ok c)
    (weights : Weights Float) (matchCount : Nat) :
    ((∃ m, make c weights matchCount = .ok m) ↔
      2 ≤ weights.length ∧ 1 ≤ matchCount ∧ matchCount < weights.length ∧
        ∀ rows ∈ weights, List.Forall₂ (fun row n => row.length = n ∧
          ((Arithmetic.sum row).isNaN = true ∨ Weights.SumsToOne row)) rows c.levels) ∧
    ∀ m, make c weights matchCount = .ok m →
      (∀ p, Fits c.levels p → ∃ score, m.scorePattern p = .ok score) ∧
        ∀ index < c.patternCount, ∃ score, m.scoreIndex index = .ok score := by
  constructor
  · have hrows : ∀ rows : List (List Float), List.Forall₂ Weights.RowOk rows c.levels ↔
        List.Forall₂ (fun row n => row.length = n ∧
          ((Arithmetic.sum row).isNaN = true ∨ Weights.SumsToOne row)) rows c.levels := fun rows =>
      ⟨fun h => h.imp fun _ _ => Weights.rowOk_iff.mp, fun h => h.imp fun _ _ => Weights.rowOk_iff.mpr⟩
    simp only [make_eq_ok_iff, checkClasses_eq_ok_iff, hrows]
    constructor
    · rintro ⟨m, ⟨hclasses, hfirst, hlast⟩, hweights, -⟩
      exact ⟨hclasses, hfirst, hlast, hweights⟩
    · rintro ⟨hclasses, hfirst, hlast, hweights⟩
      exact ⟨_, ⟨hclasses, hfirst, hlast⟩, hweights, rfl⟩
  · intro m hm
    have hshaped := shaped_of_make hm
    exact ⟨fun p hp => hshaped.scorePattern_eq_ok hp,
      fun index hindex => hshaped.scoreIndex_eq_ok (RecordComparator.numbered_of_make hc) hindex⟩

/-! Two names and two classes. -/

def names : List Binding :=
  [⟨"first", "first", 0, 0, .exact⟩, ⟨"last", "last", 1, 1, .exact⟩]

def evenTable : Weights Float :=
  [[[0.5, 0.5], [0.5, 0.5]], [[0.5, 0.5], [0.5, 0.5]]]

def spoiltTable : Weights Float :=
  [[[0 / 0, 0.5], [0.5, 0.5]], [[0.9, 0.1], [0.7, 0.3]]]

theorem make_accepts_iff_even :
    ∃ m, make ⟨0, names, false, 4⟩ evenTable 1 = .ok m ∧ ∃ score, m.scorePattern [1, 0] = .ok score := by
  have hc : RecordComparator.make 0 names false = .ok ⟨0, names, false, 4⟩ := rfl
  obtain ⟨haccepts, hscores⟩ := make_accepts_iff hc evenTable 1
  have hrow := Weights.rowOk_iff.mp (⟨rfl, by decide⟩ : Weights.RowOk [0.5, 0.5] 2)
  have hrows : ∀ rows ∈ evenTable, List.Forall₂ (fun row n => row.length = n ∧
      ((Arithmetic.sum row).isNaN = true ∨ Weights.SumsToOne row)) rows [2, 2] := by
    intro rows hrows
    obtain rfl : rows = [[0.5, 0.5], [0.5, 0.5]] := by simpa [evenTable] using hrows
    exact .cons hrow (.cons hrow .nil)
  obtain ⟨m, hm⟩ := haccepts.mpr ⟨by decide, by decide, by decide, hrows⟩
  exact ⟨m, hm, (hscores m hm).1 [1, 0] (.cons (by decide) (.cons (by decide) .nil))⟩

/-- A table with a weight that is not a number becomes a model, though the row has no sum. -/
theorem make_accepts_spoilt :
    (∃ m, make ⟨0, names, false, 4⟩ spoiltTable 1 = .ok m) ∧
      (Arithmetic.sum [0 / 0, (0.5 : Float)]).isNaN = true := by
  refine ⟨⟨_, make_eq_ok_iff.mpr ⟨rfl, ?_, rfl⟩⟩, by decide⟩
  intro rows hrows
  have hrows : rows = [[0 / 0, 0.5], [0.5, 0.5]] ∨ rows = [[0.9, 0.1], [0.7, 0.3]] := by
    simpa [spoiltTable] using hrows
  rcases hrows with rfl | rfl
  · exact .cons ⟨rfl, by decide⟩ (.cons ⟨rfl, by decide⟩ .nil)
  · exact .cons ⟨rfl, by decide⟩ (.cons ⟨rfl, by decide⟩ .nil)

end Model

end Linkage
