import Linkage.Arithmetic
import Linkage.Proofs.Double.Rounding

/-
# Sums of doubles with infinite summands

What a sum of small doubles comes to is decided by its infinite summands.  Without one it is small
again, with infinities of one sign it is that infinity, and with both it is undefined.  So a double
is described by the ends of the number line that it has reached, and a sum has reached the ends
that its summands have reached.
-/

namespace Linkage.Double

open Float.Model (Format UnpackedFloat)
open Float.Model.UnpackedFloat

/-! ## Packing -/

theorem unpack_pack_infinity (s : Sign) :
    unpack Format.binary64 (pack Format.binary64 (.infinity s)) = .infinity s := by
  cases s <;> rfl

theorem unpack_pack_notANumber :
    unpack Format.binary64 (pack Format.binary64 .notANumber) = .notANumber :=
  rfl

theorem unpack_pack_zero (s : Sign) :
    unpack Format.binary64 (pack Format.binary64 (.zero s)) = .zero s := by
  cases s <;> rfl

theorem short_unpack (bits : BitVec Format.binary64.numBits) :
    Short (unpack Format.binary64 bits) := by
  simp only [unpack]
  split
  · split <;> trivial
  · split
    · split
      · trivial
      · exact (unpackMantissa bits).isLt.trans (by decide)
    · exact (1#1 ++ unpackMantissa bits).isLt

/-- The exponent that is read back is the packed one, or the least one. -/
theorem within_unpack_packComponents {s : Sign} {e : BitVec 11} {m : BitVec 52} {bound : Int}
    (he : e ≠ -1#11) (hbound : (e.toNat : Int) - 1075 ≤ bound) (hmin : -1074 ≤ bound) :
    Within bound (unpack Format.binary64 (packComponents Format.binary64 s e m)) := by
  have hbias : (Format.binary64.exponentBias : Int) = 1023 := rfl
  simp only [unpack, unpackExponent_packComponents, unpackMantissa_packComponents, hbias]
  rw [if_neg he]
  split
  case isTrue hzero =>
    split
    · trivial
    · rw [hzero]
      simp only [Within, BitVec.toNat_zero]
      omega
  case isFalse =>
    simp only [Within]
    omega

theorem within_unpack_pack {x : UnpackedFloat} {bound : Int} (hx : Within bound x)
    (hmin : -1074 ≤ bound) (hmax : bound ≤ 970) :
    Within bound (unpack Format.binary64 (pack Format.binary64 x)) := by
  cases x with
  | infinity => exact hx.elim
  | notANumber => exact hx.elim
  | zero s => rw [unpack_pack_zero]; trivial
  | finite s m e hm =>
      change e ≤ bound at hx
      have hbias : (Format.binary64.exponentBias : Int) = 1023 := rfl
      have hsmall : (e + 1023 + 52).toNat < 2046 := by omega
      simp only [pack, hbias]
      rw [if_neg (by omega)]
      split
      · refine within_unpack_packComponents ?_ ?_ hmin
        · intro h
          have := congrArg BitVec.toNat h
          simp at this
          omega
        · rw [BitVec.toNat_ofNat]
          omega
      · exact within_unpack_packComponents (by decide) (by simpa using by omega) hmin

/-! ## The ends of the number line -/

/-- Whether a number has gone below all numbers, and whether it has gone above.  One that is
undefined has gone both ways. -/
def ends : UnpackedFloat → Bool × Bool
  | .infinity .negative => (true, false)
  | .infinity .positive => (false, true)
  | .notANumber => (true, true)
  | _ => (false, false)

theorem Within.ends_eq {x : UnpackedFloat} {bound : Int} (h : Within bound x) :
    ends x = (false, false) := by
  cases x with
  | infinity => exact h.elim
  | notANumber => exact h.elim
  | _ => rfl

/-- Addition joins the ends, and keeps a bound on what has gone to neither. -/
theorem ends_unpack_pack_add {x y : UnpackedFloat} {bound : Int}
    (hx : ends x = (false, false) → Within bound x)
    (hy : ends y = (false, false) → Within (bound - 55) y) (hxs : Short x) (hys : Short y)
    (hmin : -1074 ≤ bound) (hmax : bound ≤ 970) :
    let z := unpack Format.binary64 (pack Format.binary64 (UnpackedFloat.add Format.binary64 x y))
    ends z = ((ends x).1 || (ends y).1, (ends x).2 || (ends y).2) ∧
      (ends z = (false, false) → Within bound z) := by
  by_cases hboth : ends x = (false, false) ∧ ends y = (false, false)
  · have hsum := within_add (hx hboth.1) (hy hboth.2) hxs hys hmin
    have hz := within_unpack_pack hsum hmin hmax
    simp only
    rw [hz.ends_eq, hboth.1, hboth.2]
    exact ⟨rfl, fun _ => hz⟩
  · -- Without two numbers that can be added the sum is an infinity or undefined.
    suffices h : ∃ w, (w = .notANumber ∨ ∃ s, w = .infinity s) ∧
        UnpackedFloat.add Format.binary64 x y = w ∧
        ends w = ((ends x).1 || (ends y).1, (ends x).2 || (ends y).2) by
      obtain ⟨w, hw, hadd, hends⟩ := h
      have hz : unpack Format.binary64 (pack Format.binary64 w) = w := by
        rcases hw with rfl | ⟨s, rfl⟩
        · exact unpack_pack_notANumber
        · exact unpack_pack_infinity s
      have hne : ends w ≠ (false, false) := by
        rcases hw with rfl | ⟨s, rfl⟩
        · decide
        · cases s <;> decide
      simp only [hadd, hz]
      exact ⟨hends, fun h => absurd h hne⟩
    cases x with
    | notANumber => exact ⟨.notANumber, .inl rfl, rfl, rfl⟩
    | infinity s =>
        cases y with
        | notANumber => exact ⟨.notANumber, .inl rfl, rfl, by cases s <;> rfl⟩
        | infinity s' =>
            cases s <;> cases s'
            case negative.negative => exact ⟨_, .inr ⟨.negative, rfl⟩, rfl, rfl⟩
            case positive.positive => exact ⟨_, .inr ⟨.positive, rfl⟩, rfl, rfl⟩
            all_goals exact ⟨.notANumber, .inl rfl, rfl, rfl⟩
        | zero => exact ⟨_, .inr ⟨s, rfl⟩, rfl, by cases s <;> rfl⟩
        | finite => exact ⟨_, .inr ⟨s, rfl⟩, rfl, by cases s <;> rfl⟩
    | zero =>
        cases y with
        | notANumber => exact ⟨.notANumber, .inl rfl, rfl, rfl⟩
        | infinity s => exact ⟨_, .inr ⟨s, rfl⟩, rfl, rfl⟩
        | zero => exact absurd ⟨rfl, rfl⟩ hboth
        | finite => exact absurd ⟨rfl, rfl⟩ hboth
    | finite =>
        cases y with
        | notANumber => exact ⟨.notANumber, .inl rfl, rfl, rfl⟩
        | infinity s => exact ⟨_, .inr ⟨s, rfl⟩, rfl, rfl⟩
        | zero => exact absurd ⟨rfl, rfl⟩ hboth
        | finite => exact absurd ⟨rfl, rfl⟩ hboth

/-! ## Doubles -/

/-- A number as it is stored. -/
def view (x : Float) : UnpackedFloat :=
  x.toModel.unpack

def below (x : Float) : Bool :=
  (ends (view x)).1

def above (x : Float) : Bool :=
  (ends (view x)).2

/-- A double with an exponent within a bound, unless it has gone to an end. -/
def Tame (bound : Int) (x : Float) : Prop :=
  ends (view x) = (false, false) → Within bound (view x)

theorem isNaN_eq (x : Float) : x.isNaN = (below x && above x) := by
  change (view x).isNaN = _
  rw [below, above]
  cases view x with
  | infinity s => cases s <;> rfl
  | _ => rfl

theorem isFinite_eq (x : Float) : x.isFinite = (!below x && !above x) := by
  change (view x).isFinite = _
  rw [below, above]
  cases view x with
  | infinity s => cases s <;> rfl
  | _ => rfl

variable {x y : Float} {bound : Int}

theorem view_neg : view (-x) = unpack Format.binary64 (pack Format.binary64 (view x).neg) :=
  rfl

theorem ends_add (hx : Tame bound x) (hy : Tame (bound - 55) y) (hmin : -1074 ≤ bound)
    (hmax : bound ≤ 970) :
    Tame bound (x + y) ∧ below (x + y) = (below x || below y) ∧
      above (x + y) = (above x || above y) := by
  obtain ⟨hends, htame⟩ := ends_unpack_pack_add hx hy (short_unpack _) (short_unpack _) hmin hmax
  exact ⟨htame, congrArg Prod.fst hends, congrArg Prod.snd hends⟩

theorem ends_neg (hx : Tame bound x) (hmin : -1074 ≤ bound) (hmax : bound ≤ 970) :
    Tame bound (-x) ∧ below (-x) = above x ∧ above (-x) = below x := by
  rw [Tame, below, above, below, above, view_neg]
  rw [Tame] at hx
  cases hview : view x with
  | notANumber => rw [UnpackedFloat.neg, unpack_pack_notANumber]; simp [ends]
  | infinity s =>
      rw [UnpackedFloat.neg, unpack_pack_infinity]
      cases s <;> simp [ends, Neg.neg]
  | zero s =>
      rw [UnpackedFloat.neg, unpack_pack_zero]
      exact ⟨fun _ => trivial, rfl, rfl⟩
  | finite s m e hm =>
      rw [hview] at hx
      have hneg : Within bound (UnpackedFloat.finite (-s) m e hm) := hx rfl
      have hz := within_unpack_pack hneg hmin hmax
      exact ⟨fun _ => hz, congrArg Prod.fst hz.ends_eq, congrArg Prod.snd hz.ends_eq⟩

theorem ends_foldl {xs : List Float} {start : Float} (hxs : ∀ x ∈ xs, Tame (bound - 55) x)
    (hstart : Tame bound start) (hmin : -1074 ≤ bound) (hmax : bound ≤ 970) :
    Tame bound (xs.foldl (· + ·) start) ∧
      below (xs.foldl (· + ·) start) = (below start || xs.any below) ∧
      above (xs.foldl (· + ·) start) = (above start || xs.any above) := by
  induction xs generalizing start with
  | nil => simp [hstart]
  | cons x xs ih =>
      obtain ⟨htame, hbelow, habove⟩ := ends_add hstart (hxs x List.mem_cons_self) hmin hmax
      obtain ⟨hsum, hsumBelow, hsumAbove⟩ :=
        ih (fun y hy => hxs y (List.mem_cons_of_mem x hy)) htame
      refine ⟨hsum, ?_, ?_⟩
      · rw [List.foldl_cons, hsumBelow, hbelow, List.any_cons, Bool.or_assoc]
      · rw [List.foldl_cons, hsumAbove, habove, List.any_cons, Bool.or_assoc]

/-- A sum of small doubles has reached the ends that they have reached. -/
theorem ends_sum {xs : List Float} (hxs : ∀ x ∈ xs, Tame (bound - 55) x) (hmin : -1074 ≤ bound)
    (hmax : bound ≤ 970) :
    Tame bound (Arithmetic.sum xs) ∧ below (Arithmetic.sum xs) = xs.any below ∧
      above (Arithmetic.sum xs) = xs.any above := by
  have hzero : Tame bound (-0) := fun _ => trivial
  exact ends_foldl hxs hzero hmin hmax

/-! ## Comparisons -/

theorem le_iff : x ≤ y ↔ ((view x).compare (view y)).any (·.isLE) = true :=
  decide_eq_true_iff

theorem lt_iff : x < y ↔ (view x).compare (view y) = some .lt :=
  decide_eq_true_iff.trans beq_iff_eq

theorem beq_iff : (x == y) = true ↔ (view x).compare (view y) = some .eq := by
  change ((view x).compare (view y) == some .eq) = true ↔ _
  exact beq_iff_eq

theorem pos_of_nonneg (hle : 0 ≤ x) (hne : (x == 0) = false) : 0 < x := by
  have hzero : view 0 = .zero .positive := rfl
  rw [le_iff, hzero] at hle
  rw [← Bool.not_eq_true, beq_iff, hzero] at hne
  rw [lt_iff, hzero]
  cases hx : view x with
  | notANumber => simp [hx, UnpackedFloat.compare] at hle
  | zero => simp [hx, UnpackedFloat.compare] at hne
  | infinity s => cases s <;> simp_all [UnpackedFloat.compare, Ordering.isLE]
  | finite s => cases s <;> simp_all [UnpackedFloat.compare, Ordering.isLE]

theorem beq_zero_of_pos (h : 0 < x) : (x == 0) = false := by
  have hzero : view 0 = .zero .positive := rfl
  rw [lt_iff, hzero] at h
  rw [← Bool.not_eq_true, beq_iff, hzero]
  cases hx : view x with
  | zero => simp [hx, UnpackedFloat.compare] at h
  | notANumber => simp [UnpackedFloat.compare]
  | infinity s => cases s <;> simp [UnpackedFloat.compare]
  | finite s => cases s <;> simp [UnpackedFloat.compare]

/-- The last place of a number between `-745` and 0 counts at most `2 ^ -43`. -/
theorem within_of_le (hlow : -745 ≤ x) (hhigh : x ≤ 0) : Within (-43) (view x) := by
  have hleast : view (-745) = .finite .negative 6553089301544960 (-43) (by decide) := rfl
  have hzero : view 0 = .zero .positive := rfl
  rw [le_iff, hleast] at hlow
  rw [le_iff, hzero] at hhigh
  cases hx : view x with
  | notANumber => simp [hx, UnpackedFloat.compare] at hlow
  | zero => trivial
  | infinity s => cases s <;> simp [hx, UnpackedFloat.compare, Ordering.isLE] at hlow hhigh
  | finite s m e hm =>
      cases s with
      | positive => simp [hx, UnpackedFloat.compare, Ordering.isLE] at hhigh
      | negative =>
          rw [Within]
          by_contra hlt
          have hexponent : compare (-43) e = .lt := Int.compare_eq_lt.mpr (by omega)
          simp [hx, UnpackedFloat.compare, hexponent] at hlow

end Linkage.Double
