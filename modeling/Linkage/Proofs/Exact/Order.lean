import Linkage.Proofs.Exact.Double
import Linkage.Proofs.Score.Order

/-
# Doubles are in the order of their exact values

Two doubles compare like the numbers that they stand for: the place of a double in the order counts
exponents first and mantissas within them, and so does the size of the number.  The two ends lie
beyond all numbers on both sides, and what is undefined compares with nothing.
-/

namespace Linkage

open Double
open Float.Model (UnpackedFloat)
open Float.Model.UnpackedFloat

def signed : Sign → ℝ → ℝ
  | .positive, t => t
  | .negative, t => -t

theorem binary_eq_signed (s : Sign) (m : Nat) (e : Int) : binary s m e = signed s (m * 2 ^ e) := by
  cases s <;> simp [binary, signed, Sign.apply]

namespace Extended

/-! ## The order of extended numbers -/

section

variable {x y : Extended}

theorem number_lt_number {x y : ℝ} : number x < number y ↔ x < y := Iff.rfl

protected theorem lt_irrefl (x : Extended) : ¬ x < x := by
  cases x
  case number a => exact (lt_self_iff_false a).mp
  all_goals exact id

protected theorem le_antisymm (hxy : x ≤ y) (hyx : y ≤ x) : x = y := by
  cases x <;> cases y
  case number.number a b =>
    exact congrArg number ((number_le_number.mp hxy).antisymm (number_le_number.mp hyx))
  all_goals first | rfl | exact (hxy.elim id id).elim | exact (hyx.elim id id).elim

protected theorem le_refl (hx : x ≠ undefined) : x ≤ x := by
  cases x <;> first | exact .inr trivial | exact .inr rfl | exact absurd rfl hx

theorem bottom_le (hx : x ≠ undefined) : bottom ≤ x := by
  cases x <;> first | exact .inl trivial | exact .inr trivial | exact absurd rfl hx

protected theorem le_top (hx : x ≠ undefined) : x ≤ top := by
  cases x <;> first | exact .inl trivial | exact .inr trivial | exact absurd rfl hx

theorem ne_undefined_of_lt (h : x < y) : x ≠ undefined ∧ y ≠ undefined := by
  cases x <;> cases y <;> first | exact h.elim | exact ⟨nofun, nofun⟩

theorem le_iff_not_lt :
    x ≤ y ↔ x ≠ undefined ∧ y ≠ undefined ∧ ¬ y < x := by
  change lt x y ∨ Same x y ↔ x ≠ undefined ∧ y ≠ undefined ∧ ¬ lt y x
  cases x <;> cases y
  case number.number x y => simpa [lt, Same] using le_iff_lt_or_eq.symm
  all_goals simp [lt, Same]

protected theorem lt_of_not_le (hx : x ≠ undefined) (hy : y ≠ undefined) (h : ¬ x ≤ y) : y < x := by
  by_contra hlt
  exact h (le_iff_not_lt.mpr ⟨hx, hy, hlt⟩)

protected theorem lt_of_le_of_lt {z : Extended} (hxy : x ≤ y) (hyz : y < z) : x < z := by
  cases x <;> cases y <;> cases z
  case number.number.number x y z =>
    exact number_lt_number.mpr ((number_le_number.mp hxy).trans_lt hyz)
  all_goals first | exact trivial | exact hyz.elim | exact (hxy.elim id id).elim

theorem add_number_le (h : x ≤ y) (c : ℝ) : x + number c ≤ y + number c := by
  cases x <;> cases y
  case number.number a b =>
    exact number_le_number.mpr (by linarith only [number_le_number.mp h])
  all_goals exact h

theorem number_add_le (h : x ≤ y) (c : ℝ) : number c + x ≤ number c + y := by
  cases x <;> cases y
  case number.number a b =>
    exact number_le_number.mpr (by linarith only [number_le_number.mp h])
  all_goals exact h

protected theorem neg_le_neg (h : x ≤ y) : -y ≤ -x := by
  cases x <;> cases y
  case number.number a b =>
    exact number_le_number.mpr (by linarith only [number_le_number.mp h])
  all_goals exact h

end

/-! ## Places and sizes -/

/-- The exact value of a number that doubles are computed with. -/
noncomputable def ofView : UnpackedFloat → Extended
  | .finite s m e _ => number (binary s m e)
  | .zero _ => number 0
  | .infinity .positive => top
  | .infinity .negative => bottom
  | .notANumber => undefined

open Score (Fits Stored place magnitude)

theorem magnitude_lt_iff {e e' : Int} {m m' : Nat} (h : Fits e m) (h' : Fits e' m') :
    magnitude e m < magnitude e' m' ↔ (m : ℝ) * 2 ^ e < m' * 2 ^ e' := by
  have hlt : ∀ {e e' : Int} {m m' : Nat}, Fits e m → Fits e' m' →
      magnitude e m < magnitude e' m' → (m : ℝ) * 2 ^ e < m' * 2 ^ e' := by
    rintro e e' m m' ⟨he, -, hm, hleast⟩ ⟨he', -, hm', hnormal⟩ hlt
    simp only [magnitude] at hlt
    rcases lt_trichotomy e e' with hexp | rfl | hexp
    · have hm : (m : ℝ) < 2 ^ 53 := by exact_mod_cast hm
      have hm' : (2 : ℝ) ^ 52 ≤ m' := by exact_mod_cast hnormal.resolve_left (by omega)
      calc (m : ℝ) * 2 ^ e < 2 ^ 53 * 2 ^ e := by gcongr
        _ = 2 ^ 52 * 2 ^ (e + 1) := by rw [zpow_add_one₀ two_ne_zero]; ring
        _ ≤ 2 ^ 52 * 2 ^ e' := by gcongr <;> first | exact one_le_two | omega
        _ ≤ m' * 2 ^ e' := by gcongr
    · have : (m : ℝ) < m' := by exact_mod_cast (by omega : m < m')
      gcongr
    · omega
  refine ⟨hlt h h', fun hreal => ?_⟩
  by_contra hnot
  rcases (not_lt.mp hnot).lt_or_eq with hgt | heq
  · exact lt_asymm hreal (hlt h' h hgt)
  · obtain ⟨he, -, hm, hnormal⟩ := h
    obtain ⟨he', -, hm', hnormal'⟩ := h'
    simp only [magnitude] at heq
    obtain rfl : e = e' := by omega
    obtain rfl : m = m' := by omega
    exact hreal.false

theorem fits_zero : Fits (-1074) 0 :=
  ⟨le_rfl, by decide, by decide, .inl rfl⟩

/-- Zero is a number with the least exponent and no mantissa. -/
theorem exists_signed {x : UnpackedFloat} (hx : Stored x) (hfinite : x.isFinite = true) :
    ∃ s e m, Fits e m ∧ place x = s.apply (magnitude e m) ∧
      ofView x = number (signed s (m * 2 ^ e)) := by
  cases x with
  | notANumber => cases hfinite
  | infinity s => cases hfinite
  | zero s => exact ⟨.positive, -1074, 0, fits_zero, rfl, by simp [ofView, signed]⟩
  | finite s m e hm => exact ⟨s, e, m, hx, rfl, by rw [ofView, binary_eq_signed]⟩

theorem signed_magnitude_lt_iff {s s' : Sign} {e e' : Int} {m m' : Nat} (h : Fits e m)
    (h' : Fits e' m') : s.apply (magnitude e m) < s'.apply (magnitude e' m') ↔
      signed s (m * 2 ^ e) < signed s' (m' * 2 ^ e') := by
  have hpos : ∀ {e : Int} {m : Nat}, Fits e m → (0 < magnitude e m ↔ (0 : ℝ) < m * 2 ^ e) := by
    intro e m h
    simpa [magnitude] using magnitude_lt_iff fits_zero h
  have hnonneg : ∀ (e : Int) (m : Nat), (0 : ℝ) ≤ m * 2 ^ e := fun e m => by positivity
  cases s <;> cases s' <;> simp only [Sign.apply, signed]
  case negative.negative =>
    rw [neg_lt_neg_iff, neg_lt_neg_iff, Nat.cast_lt]
    exact magnitude_lt_iff h' h
  case negative.positive =>
    have hint : -(magnitude e m : Int) < magnitude e' m' ↔ 0 < magnitude e m ∨ 0 < magnitude e' m' := by
      omega
    rw [hint, hpos h, hpos h']
    have := hnonneg e m
    have := hnonneg e' m'
    constructor
    · rintro (h | h) <;> linarith
    · intro h
      by_contra hnot
      obtain ⟨hle, hle'⟩ := not_or.mp hnot
      linarith
  case positive.negative =>
    have := hnonneg e m
    have := hnonneg e' m'
    exact iff_of_false (by omega) (by linarith)
  case positive.positive => rw [Nat.cast_lt, magnitude_lt_iff h h']

theorem place_lt_iff {x y : UnpackedFloat} (hx : Stored x) (hy : Stored y) (hxn : x.isNaN = false)
    (hyn : y.isNaN = false) : place x < place y ↔ ofView x < ofView y := by
  have hends : ∀ {x : UnpackedFloat}, x.isNaN = false → x.isFinite = true ∨ ∃ s, x = .infinity s := by
    rintro (s | _ | s | _) h
    · exact .inr ⟨s, rfl⟩
    · cases h
    · exact .inl rfl
    · exact .inl rfl
  have hfar : ∀ {s : Sign} {e : Int} {m : Nat}, Fits e m →
      -(2047 * 2 ^ 52) < s.apply (magnitude e m) ∧ s.apply (magnitude e m) < 2047 * 2 ^ 52 := by
    intro s e m h
    have := Score.magnitude_lt h
    cases s <;> simp only [Sign.apply] <;> omega
  rcases hends hxn with hfinite | ⟨s, rfl⟩ <;> rcases hends hyn with hfinite' | ⟨s', rfl⟩
  · obtain ⟨s, e, m, hfits, hplace, hvalue⟩ := exists_signed hx hfinite
    obtain ⟨s', e', m', hfits', hplace', hvalue'⟩ := exists_signed hy hfinite'
    rw [hplace, hplace', hvalue, hvalue', number_lt_number]
    exact signed_magnitude_lt_iff hfits hfits'
  · obtain ⟨s, e, m, hfits, hplace, hvalue⟩ := exists_signed hx hfinite
    obtain ⟨hlow, hhigh⟩ := hfar (s := s) hfits
    rw [hplace, hvalue]
    cases s'
    · exact iff_of_false (not_lt.mpr hlow.le) id
    · exact iff_of_true hhigh trivial
  · obtain ⟨s', e', m', hfits', hplace', hvalue'⟩ := exists_signed hy hfinite'
    obtain ⟨hlow, hhigh⟩ := hfar (s := s') hfits'
    rw [hplace', hvalue']
    cases s
    · exact iff_of_true hlow trivial
    · exact iff_of_false (not_lt.mpr hhigh.le) id
  · cases s <;> cases s'
    case negative.positive => exact iff_of_true (by decide) trivial
    all_goals exact iff_of_false (by decide) id

theorem ofFloat_ne_undefined_iff {x : Float} : ofFloat x ≠ undefined ↔ x.isNaN = false := by
  change ofView (view x) ≠ undefined ↔ (view x).isNaN = false
  cases view x with
  | notANumber => simp [ofView, UnpackedFloat.isNaN]
  | infinity s => cases s <;> simp [ofView, UnpackedFloat.isNaN]
  | _ => simp [ofView, UnpackedFloat.isNaN]

theorem ofFloat_eq_number_iff {x : Float} : (∃ a, ofFloat x = number a) ↔ x.isFinite = true := by
  change (∃ a, ofView (view x) = number a) ↔ (view x).isFinite = true
  cases view x with
  | notANumber => simp [ofView, UnpackedFloat.isFinite]
  | infinity s => cases s <;> simp [ofView, UnpackedFloat.isFinite]
  | _ => simp [ofView, UnpackedFloat.isFinite]

/-- Doubles compare like the numbers that they stand for. -/
theorem lt_iff_ofFloat_lt {x y : Float} : x < y ↔ ofFloat x < ofFloat y := by
  rw [Score.lt_iff_rank_lt, Score.rank_eq_place, Score.rank_eq_place]
  constructor
  · rintro ⟨hx, hy, h⟩
    exact (place_lt_iff (Score.stored_view x) (Score.stored_view y) hx hy).mp h
  · intro h
    obtain ⟨hx, hy⟩ := ne_undefined_of_lt h
    have hx := ofFloat_ne_undefined_iff.mp hx
    have hy := ofFloat_ne_undefined_iff.mp hy
    exact ⟨hx, hy, (place_lt_iff (Score.stored_view x) (Score.stored_view y) hx hy).mpr h⟩

theorem le_iff_ofFloat_le {x y : Float} : x ≤ y ↔ ofFloat x ≤ ofFloat y := by
  rw [le_iff_not_lt, ofFloat_ne_undefined_iff, ofFloat_ne_undefined_iff, ← lt_iff_ofFloat_lt,
    Score.le_iff_rank_le, Score.lt_iff_rank_lt, ← not_lt]
  tauto

end Extended

/-! ## The order of doubles -/

namespace Double

open Extended

variable {x y z : Float}

protected theorem le_trans (hxy : x ≤ y) (hyz : y ≤ z) : x ≤ z := by
  rw [Score.le_iff_rank_le] at hxy hyz ⊢
  exact ⟨hxy.1, hyz.2.1, hxy.2.2.trans hyz.2.2⟩

protected theorem lt_of_lt_of_le (hxy : x < y) (hyz : y ≤ z) : x < z := by
  rw [Score.lt_iff_rank_lt] at hxy ⊢
  rw [Score.le_iff_rank_le] at hyz
  exact ⟨hxy.1, hyz.2.1, hxy.2.2.trans_le hyz.2.2⟩

protected theorem lt_of_le_of_lt (hxy : x ≤ y) (hyz : y < z) : x < z := by
  rw [Score.lt_iff_rank_lt] at hyz ⊢
  rw [Score.le_iff_rank_le] at hxy
  exact ⟨hxy.1, hyz.2.1, hxy.2.2.trans_lt hyz.2.2⟩

theorem isNaN_of_isFinite (h : x.isFinite = true) : x.isNaN = false := by
  change (view x).isFinite = true at h
  change (view x).isNaN = false
  cases hx : view x <;> rw [hx] at h <;> first | rfl | cases h

protected theorem not_lt_of_le (h : x ≤ y) : ¬ y < x := by
  rw [Score.le_iff_rank_le] at h
  rw [Score.lt_iff_rank_lt]
  exact fun hlt => not_lt.mpr h.2.2 hlt.2.2

protected theorem lt_of_not_le (hx : x.isNaN = false) (hy : y.isNaN = false) (h : ¬ x ≤ y) : y < x := by
  rw [Score.le_iff_rank_le] at h
  exact Score.lt_iff_rank_lt.mpr ⟨hy, hx, not_le.mp fun hle => h ⟨hx, hy, hle⟩⟩

protected theorem le_of_not_lt (hx : x.isNaN = false) (hy : y.isNaN = false) (h : ¬ y < x) : x ≤ y := by
  rw [Score.lt_iff_rank_lt] at h
  exact Score.le_iff_rank_le.mpr ⟨hx, hy, not_lt.mp fun hlt => h ⟨hy, hx, hlt⟩⟩

/-- Doubles are equal just if they stand for the same number or the same end. -/
theorem beq_iff_ofFloat_eq : (x == y) = true ↔ ofFloat x = ofFloat y ∧ ofFloat x ≠ undefined := by
  have horder : (x == y) = true ↔ x ≤ y ∧ y ≤ x := by
    have hrank : compare x y = .eq ↔ Score.rank x = Score.rank y := Int.compare_eq_eq
    rw [beq_iff, Score.compare_view_eq_some_iff, Score.le_iff_rank_le, Score.le_iff_rank_le, hrank]
    constructor
    · rintro ⟨hx, hy, h⟩
      exact ⟨⟨hx, hy, h.le⟩, hy, hx, h.ge⟩
    · rintro ⟨⟨hx, hy, h⟩, -, -, h'⟩
      exact ⟨hx, hy, h.antisymm h'⟩
  rw [horder, le_iff_ofFloat_le, le_iff_ofFloat_le]
  constructor
  · rintro ⟨hxy, hyx⟩
    exact ⟨Extended.le_antisymm hxy hyx, (le_iff_not_lt.mp hxy).1⟩
  · rintro ⟨h, hx⟩
    rw [← h]
    exact ⟨Extended.le_refl hx, Extended.le_refl hx⟩

/-- The greatest double that is not infinite. -/
def largest : Float := .ofBits 0x7FEFFFFFFFFFFFFF

theorem isFinite_iff_le : x.isFinite = true ↔ -largest ≤ x ∧ x ≤ largest := by
  constructor
  · intro h
    obtain ⟨s, e, m, hfits, hplace, -⟩ := exists_signed (Score.stored_view x) h
    have hnan := isNaN_of_isFinite h
    have hlt := Score.magnitude_lt hfits
    rw [Score.le_iff_rank_le, Score.le_iff_rank_le, Score.rank_eq_place x, hplace]
    have hlow : Score.rank (-largest) = -(2047 * 2 ^ 52 - 1) := by decide
    have hhigh : Score.rank largest = 2047 * 2 ^ 52 - 1 := by decide
    rw [hlow, hhigh]
    refine ⟨⟨by decide, hnan, ?_⟩, hnan, by decide, ?_⟩ <;> cases s <;> simp only [Sign.apply] <;> omega
  · rintro ⟨hlow, hhigh⟩
    obtain ⟨a, ha⟩ := ofFloat_eq_number_iff.mpr (show largest.isFinite = true by decide)
    obtain ⟨b, hb⟩ := ofFloat_eq_number_iff.mpr (show (-largest).isFinite = true by decide)
    rw [le_iff_ofFloat_le, hb] at hlow
    rw [le_iff_ofFloat_le, ha] at hhigh
    refine ofFloat_eq_number_iff.mp ?_
    cases hx : ofFloat x with
    | number c => exact ⟨c, rfl⟩
    | top => rw [hx] at hhigh; exact (hhigh.elim id id).elim
    | bottom => rw [hx] at hlow; exact (hlow.elim id id).elim
    | undefined => rw [hx] at hlow; exact (hlow.elim id id).elim

/-- No double lies between two whose places are neighbours. -/
theorem le_of_lt_of_rank {low next : Float} (h : low < x) (hnext : next.isNaN = false)
    (hrank : Score.rank next = Score.rank low + 1) : next ≤ x := by
  obtain ⟨-, hx, hlt⟩ := Score.lt_iff_rank_lt.mp h
  exact Score.le_iff_rank_le.mpr ⟨hnext, hx, by omega⟩

theorem le_of_gt_of_rank {high previous : Float} (h : x < high) (hprevious : previous.isNaN = false)
    (hrank : Score.rank high = Score.rank previous + 1) : x ≤ previous := by
  obtain ⟨hx, -, hlt⟩ := Score.lt_iff_rank_lt.mp h
  exact Score.le_iff_rank_le.mpr ⟨hx, hprevious, by omega⟩

end Double

end Linkage
