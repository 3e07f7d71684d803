import Linkage.Proofs.Agreement.Comparison
import Linkage.Proofs.Agreement.Strength
import Linkage.Proofs.Exact.Monotone

/-
# Two texts of one number

Texts like `42` and `42.0` differ and write the same number, so that the comparators of numbers are
asked for a level.  The gap is 0 then.  A fixed threshold that is not negative admits it.  A bound
that scales with the lesser number admits it only if the bound is positive, and the bounds of the
standard comparators are so just above -11.
-/

namespace Linkage

open Extended (ofFloat)
open Double

/-! ## Levels of equal numbers -/

namespace Agreement

theorem levelOf_eq_zero {β : Type} {n : Nat} {holds : β → Bool} {conditions : List β}
    (h : ∀ condition ∈ conditions, holds condition = false) : levelOf n holds conditions = 0 := by
  rw [levelOf, List.findIdx?_eq_none_iff.mpr h]

theorem bound_mono {x y : Float} (slope intercept : Float) (hslope : slope.isFinite = true)
    (hpos : 0 < slope) (hintercept : intercept.isFinite = true) (hx : x.isFinite = true)
    (hy : y.isFinite = true) (h : x ≤ y) : slope * x + intercept ≤ slope * y + intercept :=
  Double.add_le_add_right (Double.mul_le_mul_left h hx hy hslope hpos) hintercept

/-- The first bound of the standard comparators is positive above -11. -/
theorem strictest_pos {x : Float} (hx : x.isFinite = true) (h : -11 < x) : 0 < 0.1 * x + 1.1 := by
  have hnext : -10.999999999999998 ≤ x := le_of_lt_of_rank h (by decide) (by decide)
  have hmono := bound_mono 0.1 1.1 (by decide) (by decide) (by decide) (by decide) hx hnext
  exact Double.lt_of_lt_of_le (by decide) hmono

theorem bound_nonpos {x : Float} (hx : x.isFinite = true) (h : x ≤ -11) :
    ∀ condition ∈ FieldComparator.standardSlopes.zip FieldComparator.standardIntercepts,
      condition.1 * x + condition.2 ≤ 0 := by
  have hbound : ∀ condition ∈ FieldComparator.standardSlopes.zip FieldComparator.standardIntercepts,
      condition.1.isFinite = true ∧ 0 < condition.1 ∧ condition.2.isFinite = true ∧
        condition.1 * -11 + condition.2 ≤ 0 := by
    decide
  intro condition hmem
  obtain ⟨hslope, hpos, hintercept, hle⟩ := hbound condition hmem
  exact Double.le_trans (bound_mono _ _ hslope hpos hintercept hx (by decide) h) hle

section

variable {x y : Float} (hxy : (x == y) = true) (hx : x.isFinite = true)
include hxy hx

theorem ofFloat_gap : ofFloat (Arithmetic.abs (x - y)) = ofFloat 0 := by
  have hzero : ofFloat (x - y) = ofFloat 0 := ofFloat_sub_eq_zero hxy hx
  rw [Arithmetic.abs]
  split
  case isTrue hneg =>
    have hlt : ofFloat (x - y) < ofFloat 0 := Extended.lt_iff_ofFloat_lt.mp hneg
    rw [hzero] at hlt
    exact (Extended.lt_irrefl _ hlt).elim
  case isFalse => exact hzero

theorem gap_lt_iff {bound : Float} : Arithmetic.abs (x - y) < bound ↔ 0 < bound := by
  rw [Extended.lt_iff_ofFloat_lt, Extended.lt_iff_ofFloat_lt, ofFloat_gap hxy hx]

theorem gap_le_iff {bound : Float} : Arithmetic.abs (x - y) ≤ bound ↔ 0 ≤ bound := by
  rw [Extended.le_iff_ofFloat_le, Extended.le_iff_ofFloat_le, ofFloat_gap hxy hx]

omit hx in
theorem least_of_beq : Arithmetic.least x y = x := by
  obtain ⟨heq, hdefined⟩ := beq_iff_ofFloat_eq.mp hxy
  have hself : (x == x) = true := beq_iff_ofFloat_eq.mpr ⟨rfl, hdefined⟩
  have hlt : ¬ x < y := by
    rw [Extended.lt_iff_ofFloat_lt, heq]
    exact Extended.lt_irrefl _
  have hgt : ¬ y < x := by
    rw [Extended.lt_iff_ofFloat_lt, heq]
    exact Extended.lt_irrefl _
  rw [Arithmetic.least]
  exact (if_neg hlt).trans ((if_neg hgt).trans (if_pos hself))

/-- Equal numbers have the top level of the standard comparators above -11, and level 0 elsewhere. -/
theorem proratedLevel_of_beq :
    proratedLevel FieldComparator.standardSlopes FieldComparator.standardIntercepts x y =
      if -11 < x then 3 else 0 := by
  rw [proratedLevel, least_of_beq hxy]
  split
  case isTrue h =>
    have hfirst := decide_eq_true ((gap_lt_iff hxy hx).mpr (strictest_pos hx h))
    exact (levelOf_cons _).trans (if_pos hfirst)
  case isFalse h =>
    have hle := Double.le_of_not_lt (isNaN_of_isFinite hx) (by decide) h
    refine levelOf_eq_zero fun condition hmem => decide_eq_false ?_
    rw [gap_lt_iff hxy hx]
    exact Double.not_lt_of_le (bound_nonpos hx hle condition hmem)

theorem differenceLevel_of_beq {first : Float} {thresholds : List Float} (h : 0 ≤ first) :
    differenceLevel (first :: thresholds) x y = thresholds.length + 1 := by
  rw [differenceLevel, levelOf_cons, if_pos (decide_eq_true ((gap_le_iff hxy hx).mpr h))]
  rfl

end

end Agreement

/-! ## Years -/

/-- The base year of a comparator is a whole number of 32 bits. -/
def IsBaseYear (base : Int) : Prop :=
  -2147483648 ≤ base ∧ base < 2147483648

namespace IsBaseYear

variable {base : Int} {x y : Float}

theorem isFinite_sub (h : IsBaseYear base) (hx : x.isFinite = true) :
    (Float.ofInt base - x).isFinite = true := by
  obtain ⟨hlow, hhigh⟩ := h
  obtain ⟨hxlow, hxhigh⟩ := isFinite_iff_le.mp hx
  have hbase : (Float.ofInt base).isFinite = true :=
    Extended.ofFloat_eq_number_iff.mp ⟨_, ofFloat_ofInt (by omega)⟩
  have hleast : Float.ofInt (-2147483648) ≤ Float.ofInt base :=
    ofInt_mono (by decide) (by omega) hlow
  have hgreatest : Float.ofInt base ≤ Float.ofInt 2147483648 :=
    ofInt_mono (by omega) (by decide) hhigh.le
  have hlargest : largest.isFinite = true := by decide
  have hlargest' : (-largest).isFinite = true := by decide
  have hstart : -largest ≤ Float.ofInt (-2147483648) - largest := by decide +kernel
  have hend : Float.ofInt 2147483648 - -largest ≤ largest := by decide +kernel
  have habove : Float.ofInt (-2147483648) - largest ≤ Float.ofInt base - x :=
    Double.le_trans (Double.sub_le_sub_right hleast hlargest) (Double.sub_le_sub_left hxhigh hbase)
  have hbelow : Float.ofInt base - x ≤ Float.ofInt 2147483648 - -largest :=
    Double.le_trans (Double.sub_le_sub_left hxlow hbase) (Double.sub_le_sub_right hgreatest hlargest')
  exact isFinite_iff_le.mpr ⟨Double.le_trans hstart habove, Double.le_trans hbelow hend⟩

theorem sub_beq_sub (h : IsBaseYear base) (hxy : (x == y) = true) (hx : x.isFinite = true) :
    (Float.ofInt base - x == Float.ofInt base - y) = true := by
  obtain ⟨d, hd⟩ := Extended.ofFloat_eq_number_iff.mpr (h.isFinite_sub hx)
  exact beq_iff_ofFloat_eq.mpr ⟨ofFloat_sub_congr hxy _, hd ▸ nofun⟩

end IsBaseYear

/-! ## Patterns -/

theorem RecordComparator.getElem?_compare {c : RecordComparator} {r s : Record} {p : Pattern}
    {k : Nat} {binding : Binding} {x y : Field} (h : c.compare r s = .ok p)
    (hbinding : c.bindings[k]? = some binding) (hx : r.fields[binding.indexA]? = some x)
    (hy : s.fields[binding.indexB]? = some y) :
    ∃ level, p[k]? = some level ∧ binding.level c.handleBlanks x y = .ok level := by
  obtain ⟨hlength, hlevels⟩ := List.forall₂_iff_get.mp (Traversal.mapM_eq_ok_iff.mp h)
  obtain ⟨hk, rfl⟩ := List.getElem?_eq_some_iff.mp hbinding
  have hkp : k < p.length := hlength ▸ hk
  have hlevel : Binding.levelOn c.bindings[k] c.handleBlanks r s = .ok p[k] := hlevels k hk hkp
  rw [Binding.levelOn_eq hx hy] at hlevel
  exact ⟨_, List.getElem?_eq_getElem hkp, hlevel⟩

/-- Fields that are not blank have the level of their comparator, behind the one for blanks. -/
theorem Binding.level_eq_top {binding : Binding} {handleBlanks : Bool} {x y : Field}
    (hx : x.isBlank = false) (hy : y.isBlank = false)
    (h : binding.comparator.compare x y = .ok (binding.comparator.levels - 1)) :
    binding.level handleBlanks x y = .ok (binding.levels handleBlanks - 1) := by
  have hlevels := binding.comparator.levels_pos
  have htop : binding.comparator.levels - 1 + handleBlanks.toNat = binding.levels handleBlanks - 1 := by
    rw [levels]
    omega
  rw [level, hx, hy, ← htop]
  split
  case isTrue hblank => cases hblank
  case isFalse =>
    split
    case isTrue => rfl
    case isFalse hne =>
      split
      case isTrue hexact =>
        -- Equality is not met by texts that differ.
        cases hc : binding.comparator with
        | exact =>
            rw [hc, FieldComparator.compare, if_neg hne] at h
            cases h
        | _ => rw [hc] at hexact; cases hexact
      case isFalse =>
        rw [Traversal.bind_of_ok h]
        rfl

/-! ## Two texts of one number -/

open FieldComparator in
/-- Two texts of one number have the top level of fixed thresholds of which the first is not
negative.  They have that of the standard comparators if the number, or the years from it to the base
year, lies above -11, and level 0 otherwise.  The top level is what equal texts have in a pattern. -/
theorem FieldComparator.level_of_same_number {x y : Field} {a b : Float} (hx : x.isBlank = false)
    (hy : y.isBlank = false) (ha : x.asFloat = .ok a) (hb : y.asFloat = .ok b)
    (hfinite : a.isFinite = true) (hab : (a == b) = true) :
    (standardProrated.compare x y = .ok (if -11 < a then standardProrated.levels - 1 else 0)) ∧
    (∀ base, IsBaseYear base → (standardYear base).compare x y =
      .ok (if -11 < Float.ofInt base - a then (standardYear base).levels - 1 else 0)) ∧
    (∀ first thresholds, 0 ≤ first → (absoluteDifference (first :: thresholds)).compare x y =
      .ok ((absoluteDifference (first :: thresholds)).levels - 1)) ∧
    ∀ (c : RecordComparator) (r s : Record) (p : Pattern) (k : Nat) (binding : Binding),
      c.compare r s = .ok p → c.bindings[k]? = some binding → r.fields[binding.indexA]? = some x →
      (s.fields[binding.indexB]? = some x → p[k]? = some (binding.levels c.handleBlanks - 1)) ∧
      (s.fields[binding.indexB]? = some y →
        binding.comparator.compare x y = .ok (binding.comparator.levels - 1) →
        p[k]? = some (binding.levels c.handleBlanks - 1)) := by
  refine ⟨?_, ?_, ?_, ?_⟩
  · rw [standardProrated, compare, ha, hb]
    exact congrArg Except.ok (Agreement.proratedLevel_of_beq hab hfinite)
  · intro base hbase
    rw [standardYear, compare, ha, hb]
    exact congrArg Except.ok (Agreement.proratedLevel_of_beq (hbase.sub_beq_sub hab hfinite)
      (hbase.isFinite_sub hfinite))
  · intro first thresholds hfirst
    rw [compare, ha, hb]
    exact congrArg Except.ok (Agreement.differenceLevel_of_beq hab hfinite hfirst)
  · intro c r s p k binding hcompare hbinding hleft
    constructor
    · intro hright
      obtain ⟨level, hp, hlevel⟩ := RecordComparator.getElem?_compare hcompare hbinding hleft hright
      have hlevels := binding.comparator.levels_pos
      have htop := (Binding.grades_of_level hlevel).top hx hx rfl
      rw [hp]
      exact congrArg some (by omega)
    · intro hright htop
      obtain ⟨level, hp, hlevel⟩ := RecordComparator.getElem?_compare hcompare hbinding hleft hright
      rw [Binding.level_eq_top hx hy htop] at hlevel
      rw [hp, Except.ok.inj hlevel]

namespace FieldComparator

/-! Two spellings of an age, compared by the standard comparator. -/

def aged (text number : String) : Record :=
  Schema.recordOf ⟨0, ["age"], [], none, none⟩ [text] number

def bound : Binding := ⟨"age", "age", 0, 0, standardProrated⟩

def ages : RecordComparator := ⟨0, [bound], true, 5⟩

theorem compare_ages {text text' : String} {level : Nat}
    (h : bound.level true ⟨text⟩ ⟨text'⟩ = .ok level) :
    ages.compare (aged text "0") (aged text' "1") = .ok [level] :=
  Traversal.mapM_cons_ok h rfl

theorem level_of_same_number_ages :
    standardProrated.compare ⟨"42"⟩ ⟨"42.0"⟩ = .ok 3 ∧
      (standardYear 2000).compare ⟨"42"⟩ ⟨"42.0"⟩ = .ok 3 ∧
        (absoluteDifference [0, 2]).compare ⟨"42"⟩ ⟨"42.0"⟩ = .ok 2 ∧
          ∃ p, ages.compare (aged "42" "0") (aged "42.0" "1") = .ok p ∧ p[0]? = some 4 := by
  have hleft : Field.asFloat ⟨"42"⟩ = .ok 42 := rfl
  have hright : Field.asFloat ⟨"42.0"⟩ = .ok 42 := rfl
  obtain ⟨hprorated, hyear, hdifference, hpattern⟩ :=
    level_of_same_number (x := ⟨"42"⟩) (y := ⟨"42.0"⟩) rfl rfl hleft hright (by decide) (by decide)
  have hage : (-11 : Float) < 42 := by decide
  have hyears : -11 < Float.ofInt 2000 - 42 := by decide
  rw [if_pos hage] at hprorated
  have hbase := hyear 2000 ⟨by decide, by decide⟩
  rw [if_pos hyears] at hbase
  have hpair := compare_ages (Binding.level_eq_top rfl rfl hprorated)
  exact ⟨hprorated, hbase, hdifference 0 [2] (by decide), _, hpair,
    (hpattern ages (aged "42" "0") (aged "42.0" "1") _ 0 bound hpair rfl rfl).2 rfl hprorated⟩

/-- At -11 and below, two texts of one number do not agree at all, while equal texts still have the
top level. -/
theorem level_of_same_number_below :
    (Field.isBlank ⟨"-20"⟩ = false ∧ Field.isBlank ⟨"-20.0"⟩ = false) ∧
      (Field.asFloat ⟨"-20"⟩ = .ok (-20) ∧ Field.asFloat ⟨"-20.0"⟩ = .ok (-20)) ∧
        (-20 : Float).isFinite = true ∧ standardProrated.levels - 1 = 3 ∧
          standardProrated.compare ⟨"-20"⟩ ⟨"-20.0"⟩ = .ok 0 ∧
            ages.compare (aged "-20" "0") (aged "-20" "1") = .ok [4] := by
  have hleft : Field.asFloat ⟨"-20"⟩ = .ok (-20) := rfl
  have hright : Field.asFloat ⟨"-20.0"⟩ = .ok (-20) := rfl
  have hlevel : Agreement.proratedLevel standardSlopes standardIntercepts (-20 : Float) (-20) = 0 :=
    (Agreement.proratedLevel_of_beq (by decide) (by decide)).trans (if_neg (by decide))
  refine ⟨⟨rfl, rfl⟩, ⟨hleft, hright⟩, by decide, rfl, ?_, compare_ages rfl⟩
  rw [standardProrated, compare, hleft, hright]
  exact congrArg Except.ok hlevel

end FieldComparator

end Linkage
