import Linkage.Proofs.Double.Nearest
import Linkage.Proofs.Exact.Order

/-
# Results are exact ones, rounded

A sum or a product of doubles is the exact one, rounded, and then stored, which makes it an end if it
is too large.  Both keep the order: a greater result is not stored as a lesser one.  And both leave
what some double stands for as it is, as they do whole numbers that are not too large.
-/

namespace Linkage

open Double
open Float.Model (Format UnpackedFloat)
open Float.Model.UnpackedFloat

/-! ## Rounding with a sign -/

theorem signed_mul_signed (s s' : Sign) (x y : ℝ) :
    signed s x * signed s' y = signed (s * s') (x * y) := by
  cases s <;> cases s'
  case negative.negative => exact neg_mul_neg x y
  case negative.positive => exact neg_mul x y
  case positive.negative => exact mul_neg x y
  case positive.positive => rfl

/-- A number `x` is rounded to a number `t`. -/
def Rounded (x t : ℝ) : Prop :=
  ∃ s y n e, 0 ≤ y ∧ Rounds y n e ∧ x = signed s y ∧ t = signed s (n * (2 : ℕ) ^ e)

namespace Rounded

variable {x y t u : ℝ}

theorem self {s : Sign} {m : Nat} {e : Int} (hhigh : m < 2 ^ 53) (he : -1074 ≤ e)
    (hnormal : e = -1074 ∨ 2 ^ 52 ≤ m) : Rounded (signed s (m * 2 ^ e)) (signed s (m * 2 ^ e)) := by
  have hlt : (m : ℝ) < 2 ^ 53 := by exact_mod_cast hhigh
  have hge : 2 ^ 52 ≤ m → (2 : ℝ) ^ 52 ≤ m := fun h => by exact_mod_cast h
  refine ⟨s, m * 2 ^ e, m, e, by positivity, ⟨he, by gcongr, ?_, ⟨m, false, false⟩, ?_, rfl⟩, rfl, rfl⟩
  · exact hnormal.imp_right fun h => by have := hge h; gcongr
  · rw [mul_div_cancel_right₀ _ (by positivity)]
    exact Stands.natCast m

theorem zero : Rounded 0 0 := by
  simpa [signed] using self (s := .positive) (m := 0) (e := -1074) (by decide) le_rfl (.inl rfl)

theorem mono (hx : Rounded x t) (hy : Rounded y u) (hle : x ≤ y) : t ≤ u := by
  obtain ⟨s, a, n, e, ha, hn, rfl, rfl⟩ := hx
  obtain ⟨s', b, k, i, hb, hk, rfl, rfl⟩ := hy
  have hnpos : (0 : ℝ) ≤ n * (2 : ℕ) ^ e := by positivity
  have hkpos : (0 : ℝ) ≤ k * (2 : ℕ) ^ i := by positivity
  cases s <;> cases s' <;> simp only [signed] at hle ⊢
  case negative.negative => exact neg_le_neg (hk.mono hn (neg_le_neg_iff.mp hle))
  case negative.positive => linarith
  case positive.negative =>
    obtain rfl : a = 0 := by linarith
    obtain rfl : b = 0 := by linarith
    rw [hn.eq_zero, hk.eq_zero]
    simp
  case positive.positive => exact hn.mono hk hle

end Rounded

/-! ## Storing -/

namespace Extended

open Score (Stored)

/-- What a rounded number is stored as. -/
noncomputable def stored (t : ℝ) : Extended :=
  if (2 : ℕ) ^ 1024 ≤ t then top else if t ≤ -(2 : ℕ) ^ 1024 then bottom else number t

theorem stored_of_lt {t : ℝ} (hlow : -2 ^ 1024 < t) (hhigh : t < 2 ^ 1024) : stored t = number t :=
  (if_neg (not_le.mpr hhigh)).trans (if_neg (not_le.mpr hlow))

theorem stored_of_ge {t : ℝ} (h : 2 ^ 1024 ≤ t) : stored t = top :=
  if_pos h

theorem stored_of_le {t : ℝ} (h : t ≤ -2 ^ 1024) : stored t = bottom := by
  have hlarge : (0 : ℝ) < 2 ^ 1024 := by positivity
  exact (if_neg (not_le.mpr (h.trans_lt (neg_lt_self hlarge)))).trans (if_pos h)

theorem stored_signed {s : Sign} {t : ℝ} (ht : 0 ≤ t) (h : t < 2 ^ 1024) :
    stored (signed s t) = number (signed s t) := by
  have hlarge : (0 : ℝ) < 2 ^ 1024 := by positivity
  cases s
  case negative => exact stored_of_lt (neg_lt_neg h) ((neg_nonpos.mpr ht).trans_lt hlarge)
  case positive => exact stored_of_lt ((neg_neg_of_pos hlarge).trans_le ht) h

theorem stored_zero : stored 0 = number 0 :=
  stored_signed (s := .positive) le_rfl (by positivity)

theorem stored_ne_undefined (t : ℝ) : stored t ≠ undefined := by
  rw [stored]
  split
  · exact nofun
  · split <;> exact nofun

theorem ofView_unpack_pack {x : UnpackedFloat} {s : Sign} {t : ℝ} (h : Holds x s t) :
    ofView (unpack Format.binary64 (pack Format.binary64 x)) = stored (signed s t) := by
  rw [h.unpack_pack]
  rcases h with ⟨rfl, rfl⟩ | ⟨m, e, hm, rfl, rfl, -⟩
  · rw [if_pos (by positivity), stored_signed le_rfl (by positivity)]
    cases s <;> simp [ofView, signed]
  · split
    case isTrue hlt => rw [stored_signed (by positivity) hlt, ofView, binary_eq_signed, Nat.cast_ofNat]
    case isFalse hge =>
      have hge := not_lt.mp hge
      cases s
      case negative => exact (stored_of_le (neg_le_neg_iff.mpr hge)).symm
      case positive => exact (stored_of_ge hge).symm

/-! ## Sums and products -/

section

variable {x y : UnpackedFloat}

/-- A number that doubles hold is read back as it was stored. -/
theorem unpack_pack_of_stored (h : Stored x) :
    unpack Format.binary64 (pack Format.binary64 x) = x := by
  cases x with
  | notANumber => exact unpack_pack_notANumber
  | infinity s => exact unpack_pack_infinity s
  | zero s => exact unpack_pack_zero s
  | finite s m e hm =>
      obtain ⟨he, he', hhigh, hnormal⟩ := h
      exact unpack_pack_finite_of_fits hm hhigh he hnormal he'

/-- The exact value of what is read back. -/
noncomputable def kept (x : UnpackedFloat) : Extended :=
  ofView (unpack Format.binary64 (pack Format.binary64 x))

theorem kept_of_stored (h : Stored x) : kept x = ofView x :=
  congrArg ofView (unpack_pack_of_stored h)

/-- What an exact result is stored as.  Numbers are rounded. -/
def StoredAs : Extended → Extended → Prop
  | number a, y => ∃ t, Rounded a t ∧ y = stored t
  | x, y => y = x

theorem storedAs_zero (s : Sign) : StoredAs (number 0) (kept (.zero s)) :=
  ⟨0, .zero, (kept_of_stored (x := .zero s) trivial).trans stored_zero.symm⟩

theorem storedAs_self (h : Stored x) : StoredAs (ofView x) (kept x) := by
  rw [kept_of_stored h]
  cases x with
  | notANumber => rfl
  | infinity s => cases s <;> rfl
  | zero s => exact ⟨0, .zero, stored_zero.symm⟩
  | finite s m e hm =>
      obtain ⟨he, he', hhigh, hnormal⟩ := h
      rw [ofView, binary_eq_signed]
      refine ⟨_, .self hhigh he hnormal, ?_⟩
      exact (stored_signed (by positivity) (lt_overflow hhigh he')).symm

theorem storedAs_normalize (m e : Int) (zero : Sign) :
    StoredAs (number (m * 2 ^ e)) (kept (UnpackedFloat.normalize Format.binary64 m e zero)) := by
  rw [UnpackedFloat.normalize]
  split
  case h_1 h =>
    have hneg := Int.compare_eq_lt.mp h
    obtain ⟨n, t, hrounds, hholds⟩ := round_spec (s := .negative) (m := (-m).toNat) (e := e) (by omega)
    refine ⟨_, ⟨.negative, _, n, t, by positivity, hrounds, ?_, rfl⟩, ofView_unpack_pack hholds⟩
    have hcast : (((-m).toNat : Nat) : ℝ) = -m := by
      exact_mod_cast Int.toNat_of_nonneg (by omega : 0 ≤ -m)
    rw [signed, hcast]
    ring
  case h_2 h =>
    obtain rfl := Int.compare_eq_eq.mp h
    simpa using storedAs_zero zero
  case h_3 h =>
    have hpos := Int.compare_eq_gt.mp h
    obtain ⟨n, t, hrounds, hholds⟩ := round_spec (s := .positive) (m := m.toNat) (e := e) (by omega)
    refine ⟨_, ⟨.positive, _, n, t, by positivity, hrounds, ?_, rfl⟩, ofView_unpack_pack hholds⟩
    have hcast : ((m.toNat : Nat) : ℝ) = m := by
      exact_mod_cast Int.toNat_of_nonneg (by omega : 0 ≤ m)
    rw [signed, hcast]

/-- A mantissa that is moved to a lesser exponent is the same number. -/
theorem apply_shiftLeft (s : Sign) (m : Nat) {e i : Int} (h : i ≤ e) :
    (s.apply (m <<< (e - i).toNat : Nat) : ℝ) * 2 ^ i = binary s m e := by
  have hexact : ((m <<< (e - i).toNat : Nat) : ℝ) * 2 ^ i = m * 2 ^ e := by
    have hpow : (2 : ℝ) ^ e = 2 ^ (e - i).toNat * 2 ^ i := by
      rw [← zpow_natCast, ← zpow_add₀ two_ne_zero]
      congr 1
      omega
    rw [Nat.shiftLeft_eq, hpow]
    push_cast
    ring
  rw [binary_eq_signed, ← hexact]
  generalize m <<< (e - i).toNat = n
  cases s <;> simp [Sign.apply, signed]

/-- A sum is the exact one, rounded. -/
theorem storedAs_add (hx : Stored x) (hy : Stored y) :
    StoredAs (ofView x + ofView y) (kept (UnpackedFloat.add Format.binary64 x y)) := by
  have hnone : StoredAs undefined (kept .notANumber) := congrArg ofView unpack_pack_notANumber
  cases x with
  | notANumber =>
      cases y with
      | infinity s => cases s <;> exact hnone
      | _ => exact hnone
  | infinity s =>
      cases y with
      | infinity s' => cases s <;> cases s' <;> first | exact storedAs_self hx | exact hnone
      | notANumber => cases s <;> exact hnone
      | _ => cases s <;> exact storedAs_self hx
  | zero s =>
      cases y with
      | notANumber => exact hnone
      | infinity s' => cases s' <;> exact storedAs_self hy
      | zero s' =>
          rw [ofView, ofView, number_add, add_zero, UnpackedFloat.add]
          split <;> exact storedAs_zero _
      | finite s' m' e' hm' =>
          rw [ofView, ofView, number_add, zero_add]
          exact storedAs_self hy
  | finite s m e hm =>
      cases y with
      | notANumber => exact hnone
      | infinity s' => cases s' <;> exact storedAs_self hy
      | zero s' =>
          rw [ofView, ofView, number_add, add_zero]
          exact storedAs_self hx
      | finite s' m' e' hm' =>
          have hsum := storedAs_normalize
            (s.apply (m <<< (e - min e e').toNat : Nat) + s'.apply (m' <<< (e' - min e e').toNat : Nat))
            (min e e') .positive
          rw [Int.cast_add, add_mul, apply_shiftLeft s m (min_le_left e e'),
            apply_shiftLeft s' m' (min_le_right e e')] at hsum
          exact hsum

theorem ofView_neg (x : UnpackedFloat) : ofView x.neg = -ofView x := by
  cases x with
  | notANumber => rfl
  | infinity s => cases s <;> rfl
  | zero s => exact congrArg number neg_zero.symm
  | finite s m e hm =>
      rw [UnpackedFloat.neg, ofView, ofView, binary_eq_signed, binary_eq_signed]
      refine congrArg number ?_
      cases s
      case negative => exact (neg_neg _).symm
      case positive => rfl

theorem sub_eq_add (x y : UnpackedFloat) :
    UnpackedFloat.sub Format.binary64 x y = UnpackedFloat.add Format.binary64 x y.neg := by
  have hsign : ∀ (s : Sign) (n : Nat), (-s).apply n = -s.apply n := by
    rintro (_ | _) n
    · exact (neg_neg _).symm
    · rfl
  cases x <;> cases y
  case finite.finite s m e hm s' m' e' hm' =>
    simp only [UnpackedFloat.sub, UnpackedFloat.add, UnpackedFloat.neg, hsign]
    rfl
  all_goals rfl

theorem stored_neg (h : Stored x) : Stored x.neg := by
  cases x <;> exact h

theorem eq_zero_or_finite (h : x.isFinite = true) :
    (∃ s, x = .zero s) ∨ ∃ s m e hm, x = .finite s m e hm := by
  cases x with
  | notANumber => cases h
  | infinity s => cases h
  | zero s => exact .inl ⟨s, rfl⟩
  | finite s m e hm => exact .inr ⟨s, m, e, hm, rfl⟩

theorem storedAs_mul (hx : Stored x) (hy : Stored y) (hxfinite : x.isFinite = true)
    (hyfinite : y.isFinite = true) :
    StoredAs (ofView x * ofView y) (kept (UnpackedFloat.mul Format.binary64 x y)) := by
  rcases eq_zero_or_finite hxfinite with ⟨s, rfl⟩ | ⟨s, m, e, hm, rfl⟩ <;>
    rcases eq_zero_or_finite hyfinite with ⟨s', rfl⟩ | ⟨s', m', e', hm', rfl⟩ <;>
    rw [ofView, ofView, number_mul]
  · rw [mul_zero]
    exact storedAs_zero _
  · rw [zero_mul]
    exact storedAs_zero _
  · rw [mul_zero]
    exact storedAs_zero _
  · have hexponent : e + e' ≤ max ((m * m').log2 + (e + e') - 52) (-1074) := by
      obtain ⟨-, -, -, hnormal⟩ := hx
      obtain ⟨-, -, -, hnormal'⟩ := hy
      have hlog : 2 ^ 52 ≤ m * m' → 52 ≤ (m * m').log2 :=
        (Nat.le_log2 (Nat.mul_pos hm hm').ne').mpr
      rcases hnormal with rfl | hnormal
      · rcases hnormal' with rfl | hnormal'
        · exact le_max_of_le_right (by decide)
        · have := hlog (hnormal'.trans (Nat.le_mul_of_pos_left m' hm))
          omega
      · have := hlog (hnormal.trans (Nat.le_mul_of_pos_right m hm'))
        omega
    obtain ⟨n, t, hrounds, hholds⟩ :=
      roundWithAccuracy_spec (s := s * s') (Nat.mul_pos hm hm') hexponent
    refine ⟨_, ⟨s * s', _, n, t, by positivity, hrounds, ?_, rfl⟩, ofView_unpack_pack hholds⟩
    rw [binary_eq_signed, binary_eq_signed, signed_mul_signed, zpow_add₀ two_ne_zero]
    push_cast
    ring_nf

end

section

variable {x y t u : Extended}

theorem stored_mono {a b : ℝ} (h : a ≤ b) : stored a ≤ stored b := by
  rcases le_or_gt (2 ^ 1024) b with hb | hb
  · rw [stored_of_ge hb]
    exact Extended.le_top (stored_ne_undefined a)
  · rcases le_or_gt a (-2 ^ 1024) with ha | ha
    · rw [stored_of_le ha]
      exact bottom_le (stored_ne_undefined b)
    · rw [stored_of_lt ha (h.trans_lt hb), stored_of_lt (ha.trans_le h) hb]
      exact number_le_number.mpr h

theorem StoredAs.mono (hx : StoredAs x t) (hy : StoredAs y u) (hle : x ≤ y) : t ≤ u := by
  obtain ⟨hxn, hyn, hlt⟩ := le_iff_not_lt.mp hle
  cases x with
  | undefined => exact absurd rfl hxn
  | bottom =>
      obtain rfl := hx
      refine bottom_le ?_
      cases y with
      | number b =>
          obtain ⟨t, -, rfl⟩ := hy
          exact stored_ne_undefined t
      | _ => rwa [hy]
  | top =>
      cases y with
      | top => rwa [hx, hy]
      | undefined => exact absurd rfl hyn
      | _ => exact absurd trivial hlt
  | number a =>
      obtain ⟨t, ht, rfl⟩ := hx
      cases y with
      | undefined => exact absurd rfl hyn
      | bottom => exact absurd trivial hlt
      | top =>
          rw [hy]
          exact Extended.le_top (stored_ne_undefined t)
      | number b =>
          obtain ⟨u, hu, rfl⟩ := hy
          exact stored_mono (ht.mono hu (number_le_number.mp hle))

theorem StoredAs.unique (ht : StoredAs x t) (hu : StoredAs x u) : t = u := by
  cases x with
  | number a =>
      exact Extended.le_antisymm (ht.mono hu (number_le_number.mpr le_rfl))
        (hu.mono ht (number_le_number.mpr le_rfl))
  | _ => exact ht.trans hu.symm

end

end Extended

/-! ## Results of doubles -/

namespace Double

open Extended

theorem storedAs_add (x y : Float) : StoredAs (ofFloat x + ofFloat y) (ofFloat (x + y)) :=
  Extended.storedAs_add (Score.stored_view x) (Score.stored_view y)

theorem storedAs_sub (x y : Float) : StoredAs (ofFloat x - ofFloat y) (ofFloat (x - y)) := by
  have h := Extended.storedAs_add (Score.stored_view x) (stored_neg (Score.stored_view y))
  rw [← sub_eq_add, ofView_neg] at h
  exact h

variable {x y : Float}

theorem storedAs_mul (hx : x.isFinite = true) (hy : y.isFinite = true) :
    StoredAs (ofFloat x * ofFloat y) (ofFloat (x * y)) :=
  Extended.storedAs_mul (Score.stored_view x) (Score.stored_view y) hx hy

/-- An exact result that some double stands for is stored as it is. -/
theorem storedAs_ofFloat (x : Float) : StoredAs (ofFloat x) (ofFloat x) := by
  have h := storedAs_self (Score.stored_view x)
  rwa [kept_of_stored (Score.stored_view x)] at h

theorem ofFloat_sub_eq_zero (h : (x == y) = true) (hx : x.isFinite = true) :
    ofFloat (x - y) = number 0 := by
  obtain ⟨heq, -⟩ := beq_iff_ofFloat_eq.mp h
  obtain ⟨a, ha⟩ := ofFloat_eq_number_iff.mpr hx
  have hstored := storedAs_sub x y
  rw [← heq, ha, number_sub, sub_self] at hstored
  exact hstored.unique (storedAs_ofFloat 0)

theorem ofFloat_neg (x : Float) : ofFloat (-x) = -ofFloat x :=
  (kept_of_stored (stored_neg (Score.stored_view x))).trans (ofView_neg (view x))

theorem ofFloat_toFloat {w : UInt64} (h : w.toNat < 2 ^ 53) : ofFloat w.toFloat = number w.toNat := by
  by_cases hw : w.toNat = 0
  · obtain rfl : w = 0 := UInt64.toNat.inj hw
    exact congrArg number Nat.cast_zero.symm
  · rw [ofFloat_eq (view_toFloat hw h)]
    simpa using binary_leading w.toNat 0

theorem ofFloat_one : ofFloat 1 = number 1 :=
  (ofFloat_toFloat (w := 1) (by decide)).trans (congrArg number Nat.cast_one)

theorem ofFloat_ofNat {n : Nat} (h : n < 2 ^ 53) : ofFloat (Float.ofNat n) = number n := by
  have hw : n.toUInt64.toNat = n := by
    rw [Nat.toUInt64, UInt64.toNat_ofNat']
    omega
  have hproduct : Float.ofNat n = n.toUInt64.toFloat * 1 := by
    change Float.ofScientific n false 0 = _
    rw [Float.ofScientific, dif_pos ⟨h, by decide⟩]
    rfl
  have hvalue := ofFloat_toFloat (hw.trans_lt h)
  rw [hw] at hvalue
  have hstored := storedAs_mul (ofFloat_eq_number_iff.mp ⟨_, hvalue⟩)
    (show (1 : Float).isFinite = true by decide)
  rw [hvalue, ofFloat_one, number_mul, mul_one, ← hvalue, ← hproduct] at hstored
  exact (hstored.unique (storedAs_ofFloat _)).trans hvalue

theorem ofFloat_ofInt {n : Int} (h : n.natAbs < 2 ^ 53) : ofFloat (Float.ofInt n) = number n := by
  cases n with
  | ofNat n => exact ofFloat_ofNat h
  | negSucc n =>
      change ofFloat (-Float.ofNat (n + 1)) = _
      rw [ofFloat_neg, ofFloat_ofNat (n := n + 1) h, Int.cast_negSucc]
      rfl

end Double

end Linkage
