import Linkage.Proofs.Double.Sum
import Linkage.Proofs.Score.ScoreMap

/-
# The order of scores is that of numbers

Scores are compared by the bits of their doubles.  The bits without the sign hold the exponent,
counted from the least one, and behind it the mantissa, so that they ascend with the distance from
zero: an exponent that is greater outweighs any mantissa, because only the least exponent comes with
a mantissa that has no first bit.  So what is compared are the numbers, and NaN, which has no place
among them, lies above all.
-/

namespace Linkage.Score

open Float.Model (Format UnpackedFloat)
open Float.Model.UnpackedFloat
open Double (view)

/-! ## Bits -/

section Bits

variable (b : BitVec Format.binary64.numBits)

theorem toNat_unpackMantissa : (unpackMantissa b).toNat = b.toNat % 2 ^ 52 := by
  simp only [unpackMantissa, BitVec.toNat_cast, BitVec.extractLsb_toNat, Nat.shiftRight_zero]

theorem toNat_unpackExponent : (unpackExponent b).toNat = b.toNat / 2 ^ 52 % 2 ^ 11 := by
  simp only [unpackExponent, BitVec.toNat_cast, BitVec.extractLsb_toNat, Nat.shiftRight_eq_div_pow]

theorem toNat_unpackSign : (unpackSign b).toNat = b.toNat / 2 ^ 63 % 2 := by
  simp only [unpackSign, BitVec.toNat_cast, BitVec.extractLsb_toNat, Nat.shiftRight_eq_div_pow]

theorem unpackMantissa_eq_zero_iff : unpackMantissa b = 0#52 ↔ b.toNat % 2 ^ 52 = 0 := by
  rw [← BitVec.toNat_inj, toNat_unpackMantissa]
  rfl

theorem unpackExponent_eq_zero_iff : unpackExponent b = 0#11 ↔ b.toNat / 2 ^ 52 % 2 ^ 11 = 0 := by
  rw [← BitVec.toNat_inj, toNat_unpackExponent]
  rfl

theorem unpackExponent_eq_ones_iff :
    unpackExponent b = -1#11 ↔ b.toNat / 2 ^ 52 % 2 ^ 11 = 2047 := by
  rw [← BitVec.toNat_inj, toNat_unpackExponent]
  rfl

theorem toNat_append_unpackMantissa :
    (1#1 ++ unpackMantissa b).toNat = 2 ^ 52 + b.toNat % 2 ^ 52 := by
  rw [BitVec.toNat_append, Nat.or_comm, Nat.shiftLeft_eq, toNat_unpackMantissa]
  change b.toNat % 2 ^ 52 ||| 1 * 2 ^ 52 = _
  rw [one_mul, Nat.or_two_pow_eq_add_of_lt (Nat.mod_lt _ (Nat.two_pow_pos 52)), Nat.add_comm]

/-- The sign that the first bit stands for. -/
def signOf (bits : Nat) : Sign :=
  if bits < 2 ^ 63 then .positive else .negative

theorem ofBitVec_unpackSign : Sign.ofBitVec (unpackSign b) = signOf b.toNat := by
  have hlt : b.toNat < 2 ^ 64 := b.isLt
  have hsign : unpackSign b = 0#1 ↔ b.toNat < 2 ^ 63 := by
    rw [← BitVec.toNat_inj, toNat_unpackSign, BitVec.toNat_ofNat]
    omega
  simp only [Sign.ofBitVec, signOf, hsign]

end Bits

/-! ## The place of a number among the bits -/

/-- The bits of an exponent and a mantissa. -/
def magnitude (e : Int) (m : Nat) : Nat :=
  (e + 1074).toNat * 2 ^ 52 + m

/-- The place of a number. -/
def place : UnpackedFloat → Int
  | .zero _ => 0
  | .finite s m e _ => s.apply (magnitude e m)
  | .infinity s => s.apply (2047 * 2 ^ 52 : Nat)
  | .notANumber => 2 ^ 64

/-- An exponent and a mantissa that a double can hold.  The mantissa has its first bit, unless the
exponent is the least one. -/
def Fits (e : Int) (m : Nat) : Prop :=
  -1074 ≤ e ∧ e ≤ 971 ∧ m < 2 ^ 53 ∧ (e = -1074 ∨ 2 ^ 52 ≤ m)

/-- A number that a double can stand for. -/
def Stored : UnpackedFloat → Prop
  | .finite _ m e _ => Fits e m
  | _ => True

theorem stored_unpack (b : BitVec Format.binary64.numBits) :
    Stored (unpack Format.binary64 b) := by
  have hlt : b.toNat < 2 ^ 64 := b.isLt
  have hbias : (Format.binary64.exponentBias : Int) = 1023 := rfl
  have hwidth : (Format.binary64.mantissaBitsWithoutImplicit : Int) = 52 := rfl
  simp only [unpack, hbias, hwidth]
  split
  case isTrue => split <;> trivial
  case isFalse he =>
    have he := (unpackExponent_eq_ones_iff b).not.mp he
    split
    case isTrue he' =>
      have he' := (unpackExponent_eq_zero_iff b).mp he'
      split
      · trivial
      · change _ ∧ _ ∧ (unpackMantissa b).toNat < _ ∧ (_ ∨ _ ≤ (unpackMantissa b).toNat)
        rw [toNat_unpackMantissa, toNat_unpackExponent]
        omega
    case isFalse he' =>
      have he' := (unpackExponent_eq_zero_iff b).not.mp he'
      change _ ∧ _ ∧ (1#1 ++ unpackMantissa b).toNat < _ ∧ (_ ∨ _ ≤ (1#1 ++ unpackMantissa b).toNat)
      rw [toNat_append_unpackMantissa, toNat_unpackExponent]
      omega

/-- The place of a number is what its bits without the sign come to. -/
theorem place_unpack (b : BitVec Format.binary64.numBits)
    (h : (unpack Format.binary64 b).isNaN = false) :
    place (unpack Format.binary64 b) = (signOf b.toNat).apply (b.toNat % 2 ^ 63 : Nat) := by
  have hlt : b.toNat < 2 ^ 64 := b.isLt
  have hbias : (Format.binary64.exponentBias : Int) = 1023 := rfl
  have hwidth : (Format.binary64.mantissaBitsWithoutImplicit : Int) = 52 := rfl
  revert h
  simp only [unpack, hbias, hwidth, ofBitVec_unpackSign]
  split
  case isTrue he =>
    have he := (unpackExponent_eq_ones_iff b).mp he
    split
    case isTrue hm =>
      have hm := (unpackMantissa_eq_zero_iff b).mp hm
      intro _
      have hbits : 2047 * 2 ^ 52 = b.toNat % 2 ^ 63 := by omega
      rw [place, hbits]
    case isFalse => exact nofun
  case isFalse he =>
    have he := (unpackExponent_eq_ones_iff b).not.mp he
    split
    case isTrue he' =>
      have he' := (unpackExponent_eq_zero_iff b).mp he'
      split
      case isTrue hm =>
        have hm := (unpackMantissa_eq_zero_iff b).mp hm
        intro _
        have hbits : b.toNat % 2 ^ 63 = 0 := by omega
        rw [place, hbits]
        cases signOf b.toNat <;> rfl
      case isFalse hm =>
        intro _
        rw [place, magnitude, toNat_unpackMantissa, toNat_unpackExponent]
        congr 2
        omega
    case isFalse he' =>
      have he' := (unpackExponent_eq_zero_iff b).not.mp he'
      intro _
      rw [place, magnitude, toNat_append_unpackMantissa, toNat_unpackExponent]
      congr 2
      omega

theorem stored_view (x : Float) : Stored (view x) :=
  stored_unpack _

theorem rank_eq_place (x : Float) : rank x = place (view x) := by
  have hbits : x.toBits.toNat < 2 ^ 64 := x.toBits.toBitVec.isLt
  cases hnan : x.isNaN with
  | true =>
      have hview : view x = .notANumber := by
        change (view x).isNaN = true at hnan
        revert hnan
        cases view x <;> simp [UnpackedFloat.isNaN]
      rw [rank, if_pos hnan, hview]
      rfl
  | false =>
      have hplace : place (view x) =
          (signOf x.toBits.toNat).apply (x.toBits.toNat % 2 ^ 63 : Nat) := place_unpack _ hnan
      rw [rank, hplace, signOf]
      simp only [hnan, Nat.pow_eq]
      by_cases hsign : x.toBits.toNat < 2 ^ 63
      · simp only [hsign, if_true, Bool.false_eq_true, if_false, Sign.apply]
        omega
      · simp only [hsign, Bool.false_eq_true, if_false, Sign.apply]
        omega

/-! ## Comparisons -/

section Comparisons

variable {e e' : Int} {m m' : Nat}

theorem compare_magnitude (h : Fits e m) (h' : Fits e' m') :
    (compare e e').then (compare m m') = compare (magnitude e m : Int) (magnitude e' m') := by
  simp only [magnitude, Fits] at h h' ⊢
  rcases lt_trichotomy e e' with he | rfl | he
  · rw [Int.compare_eq_lt.mpr he, eq_comm]
    change _ = Ordering.lt
    rw [Int.compare_eq_lt]
    omega
  · rw [Int.compare_eq_eq.mpr rfl]
    change compare m m' = _
    rcases lt_trichotomy m m' with hm | rfl | hm
    · rw [Nat.compare_eq_lt.mpr hm, eq_comm, Int.compare_eq_lt]
      omega
    · rw [Nat.compare_eq_eq.mpr rfl, Int.compare_eq_eq.mpr rfl]
    · rw [Nat.compare_eq_gt.mpr hm, eq_comm, Int.compare_eq_gt]
      omega
  · rw [Int.compare_eq_gt.mpr he, eq_comm]
    change _ = Ordering.gt
    rw [Int.compare_eq_gt]
    omega

theorem magnitude_lt (h : Fits e m) : magnitude e m < 2047 * 2 ^ 52 := by
  simp only [magnitude, Fits] at h ⊢
  omega

theorem magnitude_pos (hm : 0 < m) : 0 < magnitude e m :=
  Nat.lt_of_lt_of_le hm (Nat.le_add_left _ _)

theorem compare_neg (i j : Int) : compare (-i) (-j) = (compare i j).swap := by
  rw [← Std.OrientedCmp.eq_swap]
  rcases lt_trichotomy j i with h | rfl | h
  · rw [Int.compare_eq_lt.mpr h, Int.compare_eq_lt]
    omega
  · rw [Int.compare_eq_eq.mpr rfl, Int.compare_eq_eq.mpr rfl]
  · rw [Int.compare_eq_gt.mpr h, Int.compare_eq_gt]
    omega

theorem compare_eq_compare_place {x y : UnpackedFloat} (hx : Stored x) (hy : Stored y)
    (hxn : x.isNaN = false) (hyn : y.isNaN = false) :
    x.compare y = some (compare (place x) (place y)) := by
  have hlt : ∀ {i j : Int}, i < j → some Ordering.lt = some (compare i j) := fun h =>
    congrArg some (Int.compare_eq_lt.mpr h).symm
  have hgt : ∀ {i j : Int}, j < i → some Ordering.gt = some (compare i j) := fun h =>
    congrArg some (Int.compare_eq_gt.mpr h).symm
  cases x with
  | notANumber => cases hxn
  | zero s =>
      cases y with
      | notANumber => cases hyn
      | zero s' => rfl
      | infinity s' => cases s' <;> rfl
      | finite s' m' e' hm' =>
          have hpos := @magnitude_pos e' m' hm'
          cases s'
          · exact hgt (by simp only [place, Sign.apply]; omega)
          · exact hlt (by simp only [place, Sign.apply]; omega)
  | infinity s =>
      cases y with
      | notANumber => cases hyn
      | zero s' => cases s <;> rfl
      | infinity s' => cases s <;> cases s' <;> rfl
      | finite s' m' e' hm' =>
          have hfar := magnitude_lt hy
          cases s <;> cases s'
          case negative.negative => exact hlt (by simp only [place, Sign.apply]; omega)
          case negative.positive => exact hlt (by simp only [place, Sign.apply]; omega)
          case positive.negative => exact hgt (by simp only [place, Sign.apply]; omega)
          case positive.positive => exact hgt (by simp only [place, Sign.apply]; omega)
  | finite s m e hm =>
      have hpos := @magnitude_pos e m hm
      have hfar := magnitude_lt hx
      cases y with
      | notANumber => cases hyn
      | zero s' =>
          cases s
          · exact hlt (by simp only [place, Sign.apply]; omega)
          · exact hgt (by simp only [place, Sign.apply]; omega)
      | infinity s' =>
          cases s <;> cases s'
          case negative.negative => exact hgt (by simp only [place, Sign.apply]; omega)
          case negative.positive => exact hlt (by simp only [place, Sign.apply]; omega)
          case positive.negative => exact hgt (by simp only [place, Sign.apply]; omega)
          case positive.positive => exact hlt (by simp only [place, Sign.apply]; omega)
      | finite s' m' e' hm' =>
          have hpos' := @magnitude_pos e' m' hm'
          cases s <;> cases s'
          case negative.negative =>
            exact congrArg some ((congrArg Ordering.swap (compare_magnitude hx hy)).trans
              (compare_neg _ _).symm)
          case negative.positive => exact hlt (by simp only [place, Sign.apply]; omega)
          case positive.negative => exact hgt (by simp only [place, Sign.apply]; omega)
          case positive.positive => exact congrArg some (compare_magnitude hx hy)

theorem place_lt {x : UnpackedFloat} (hx : Stored x) (hxn : x.isNaN = false) :
    place x < 2 ^ 64 := by
  cases x with
  | notANumber => cases hxn
  | zero s => exact show (0 : Int) < 2 ^ 64 by decide
  | infinity s => cases s <;> decide
  | finite s m e hm =>
      have hfar := magnitude_lt hx
      cases s <;> simp only [place, Sign.apply] <;> omega

end Comparisons

/-! ## Scores -/

/-- Whether a score is at least another one: it is not the lesser number, or not a number at all. -/
def atLeast (x y : Float) : Bool :=
  x.isNaN || decide (y ≤ x)

def below (x y : Float) : Bool :=
  !atLeast x y

/-- Whether two scores are equal: as numbers, or because neither is one. -/
def same (x y : Float) : Bool :=
  x.isNaN && y.isNaN || x == y

section Scores

variable {x y : Float}

theorem view_of_isNaN (hx : x.isNaN = true) : view x = .notANumber := by
  change (view x).isNaN = true at hx
  revert hx
  cases view x <;> simp [UnpackedFloat.isNaN]

theorem rank_of_isNaN (hx : x.isNaN = true) : rank x = 2 ^ 64 := by
  rw [rank, if_pos hx]
  rfl

theorem rank_lt (hx : x.isNaN = false) : rank x < 2 ^ 64 := by
  rw [rank_eq_place]
  exact place_lt (stored_view x) hx

theorem compare_view (hx : x.isNaN = false) (hy : y.isNaN = false) :
    (view x).compare (view y) = some (compare x y) := by
  rw [compare_eq_compare_place (stored_view x) (stored_view y) hx hy, ← rank_eq_place,
    ← rank_eq_place]
  rfl

theorem isNaN_of_compare_view {o : Ordering} (h : (view x).compare (view y) = some o) :
    x.isNaN = false ∧ y.isNaN = false := by
  constructor
  · by_contra hx
    rw [view_of_isNaN (Bool.eq_true_of_not_eq_false hx)] at h
    cases h
  · by_contra hy
    rw [view_of_isNaN (Bool.eq_true_of_not_eq_false hy)] at h
    cases hview : view x <;> rw [hview] at h <;> cases h

/-- Scores have an outcome when they are compared as numbers just if both are numbers. -/
theorem compare_view_eq_some_iff {o : Ordering} :
    (view x).compare (view y) = some o ↔
      x.isNaN = false ∧ y.isNaN = false ∧ compare x y = o := by
  constructor
  · intro h
    obtain ⟨hx, hy⟩ := isNaN_of_compare_view h
    rw [compare_view hx hy] at h
    exact ⟨hx, hy, Option.some.inj h⟩
  · rintro ⟨hx, hy, rfl⟩
    exact compare_view hx hy

theorem lt_iff_rank_lt : x < y ↔ x.isNaN = false ∧ y.isNaN = false ∧ rank x < rank y := by
  rw [Double.lt_iff, compare_view_eq_some_iff, ← Int.compare_eq_lt]
  rfl

theorem le_iff_rank_le : x ≤ y ↔ x.isNaN = false ∧ y.isNaN = false ∧ rank x ≤ rank y := by
  rw [Double.le_iff, Option.any_eq_true, ← Int.isLE_compare]
  simp only [compare_view_eq_some_iff]
  constructor
  · rintro ⟨_, ⟨hx, hy, rfl⟩, h⟩
    exact ⟨hx, hy, h⟩
  · rintro ⟨hx, hy, h⟩
    exact ⟨_, ⟨hx, hy, rfl⟩, h⟩

theorem lt_of_lt_of_lt {z : Float} (hxy : x < y) (hyz : y < z) : x < z := by
  rw [lt_iff_rank_lt] at hxy hyz ⊢
  exact ⟨hxy.1, hyz.2.1, hxy.2.2.trans hyz.2.2⟩

theorem le_of_le_of_lt {z : Float} (hxy : x ≤ y) (hyz : y < z) : x ≤ z := by
  rw [lt_iff_rank_lt] at hyz
  rw [le_iff_rank_le] at hxy ⊢
  exact ⟨hxy.1, hyz.2.1, hxy.2.2.trans hyz.2.2.le⟩

theorem compare_of_isNaN (hx : x.isNaN = true) (hy : y.isNaN = true) : compare x y = .eq :=
  Int.compare_eq_eq.mpr (by rw [rank_of_isNaN hx, rank_of_isNaN hy])

theorem compare_isNaN_left (hx : x.isNaN = true) (hy : y.isNaN = false) : compare x y = .gt :=
  Int.compare_eq_gt.mpr (by rw [rank_of_isNaN hx]; exact rank_lt hy)

theorem compare_isNaN_right (hx : x.isNaN = false) (hy : y.isNaN = true) : compare x y = .lt :=
  Int.compare_eq_lt.mpr (by rw [rank_of_isNaN hy]; exact rank_lt hx)

theorem decide_le (hx : x.isNaN = false) (hy : y.isNaN = false) :
    decide (y ≤ x) = (compare y x).isLE := by
  have hle : y ≤ x ↔ (compare y x).isLE = true := by
    rw [Double.le_iff, compare_view hy hx]
    rfl
  exact Bool.eq_iff_iff.mpr (decide_eq_true_iff.trans hle)

theorem isLE_compare {α : Type} [Ord α] [Std.OrientedOrd α] (x y : α) :
    (compare y x).isLE = (compare x y != .lt) := by
  have hswap : compare y x = (compare x y).swap := Std.OrientedCmp.eq_swap
  rw [hswap]
  cases compare x y <;> rfl

theorem compare_ne_lt (x y : Float) : (compare x y != .lt) = atLeast x y := by
  rw [atLeast]
  cases hx : x.isNaN <;> cases hy : y.isNaN
  case true.true => rw [compare_of_isNaN hx hy]; rfl
  case true.false => rw [compare_isNaN_left hx hy]; rfl
  case false.true =>
    have hnot : ¬ y ≤ x := by
      rw [Double.le_iff, view_of_isNaN hy]
      exact nofun
    rw [compare_isNaN_right hx hy, decide_eq_false hnot]
    rfl
  case false.false => exact ((decide_le hx hy).trans (isLE_compare x y)).symm

theorem compare_eq_lt (x y : Float) : (compare x y == .lt) = below x y := by
  rw [below, ← compare_ne_lt]
  cases compare x y <;> rfl

theorem compare_eq_eq (x y : Float) : (compare x y == .eq) = same x y := by
  rw [same]
  cases hx : x.isNaN <;> cases hy : y.isNaN
  case true.true => rw [compare_of_isNaN hx hy]; rfl
  case true.false =>
    have hne : (x == y) = false := by
      rw [← Bool.not_eq_true, Double.beq_iff, view_of_isNaN hx]
      exact nofun
    rw [compare_isNaN_left hx hy, hne]
    rfl
  case false.true =>
    have hne : (x == y) = false := by
      rw [← Bool.not_eq_true, Double.beq_iff, view_of_isNaN hy]
      cases view x <;> exact nofun
    rw [compare_isNaN_right hx hy, hne]
    rfl
  case false.false =>
    rw [Bool.false_and, Bool.false_or, Bool.eq_iff_iff, Double.beq_iff, compare_view hx hy,
      beq_iff_eq, Option.some_inj]

/-- NaN equals itself and is at least every score; the two zeros are one score. -/
example : same (0 / 0) (0 / 0) = true ∧ atLeast (0 / 0) (1 / 0) = true ∧ same 0 (-0) = true := by
  decide

end Scores

end Linkage.Score
