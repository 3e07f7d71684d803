import Linkage.Arithmetic
import Mathlib.Analysis.SpecialFunctions.Log.Basic
import Mathlib.Data.List.GetD
import Mathlib.Data.Sign.Basic

/-
# Exact arithmetic

Two arithmetics compute exactly.  The real numbers have a value for every operation, also where
there is nothing to compute: a quotient by 0 is 0, and so is the logarithm of 0.  The extended
numbers follow the rules of doubles there: they have the two ends of the number line, the logarithm
of 0 is the lower end, and the difference of two equal ends is undefined.

A computation with extended numbers that meets none of these cases is the one with real numbers.
-/

namespace Linkage

/-- The division of real numbers.  Without this instance there are two, of which either may be
found first. -/
noncomputable instance divReal : Div ℝ :=
  DivInvMonoid.toDiv

/-- The decimal fractions of real numbers, for the same reason. -/
noncomputable instance ofScientificReal : OfScientific ℝ :=
  NNRatCast.toOfScientific

/-- The number with a sign, a mantissa and an exponent of 2. -/
noncomputable def binary (s : Float.Model.UnpackedFloat.Sign) (mantissa : Nat) (exponent : Int) : ℝ :=
  s.apply mantissa * (2 : ℕ) ^ exponent

open Classical in
/-- The real numbers.  Texts of real numbers say nothing about them. -/
noncomputable instance : Arithmetic ℝ where
  decidableLT := inferInstance
  decidableLE := inferInstance
  beq x y := decide (x = y)
  log := Real.log
  ofFloat x :=
    match x.toModel.unpack with
    | .finite s m e _ => binary s m e
    | _ => 0
  ceil x := ⌈x⌉₊
  text _ := "a real number"
  order := compare

/-! ## Real numbers -/

section Real

variable {β : Type} (f : β → ℝ) (xs : List β)

theorem foldl_add_eq (start : ℝ) :
    xs.foldl (fun sum x => sum + f x) start = start + (xs.map f).sum := by
  induction xs generalizing start with
  | nil => exact (add_zero start).symm
  | cons x xs ih => rw [List.foldl_cons, ih, List.map_cons, List.sum_cons, add_assoc]

theorem foldl_mul_eq (start : ℝ) :
    xs.foldl (fun product x => product * f x) start = start * (xs.map f).prod := by
  induction xs generalizing start with
  | nil => exact (mul_one start).symm
  | cons x xs ih => rw [List.foldl_cons, ih, List.map_cons, List.prod_cons, mul_assoc]

theorem getD_nonneg {row : List ℝ} (h : ∀ w ∈ row, 0 ≤ w) (i : Nat) : 0 ≤ row.getD i 0 := by
  rcases lt_or_ge i row.length with hi | hi
  · rw [List.getD_eq_getElem _ _ hi]
    exact h _ (List.getElem_mem hi)
  · rw [List.getD_eq_default _ _ hi]

end Real

theorem beq_real_iff_eq {x y : ℝ} : @BEq.beq ℝ Arithmetic.toBEq x y = true ↔ x = y :=
  decide_eq_true_iff

theorem log_eq (x : ℝ) : Arithmetic.log x = Real.log x := rfl

theorem abs_real (x : ℝ) : Arithmetic.abs x = |x| := by
  rw [Arithmetic.abs]
  split
  case isTrue hx => exact (abs_of_neg hx).symm
  case isFalse hx => exact (abs_of_nonneg (not_lt.mp hx)).symm

theorem least_real (x y : ℝ) : Arithmetic.least x y = min x y := by
  rw [Arithmetic.least]
  split
  case isTrue hxy => exact (min_eq_left hxy.le).symm
  case isFalse hxy =>
    rw [min_eq_right (not_lt.mp hxy)]
    split
    case isTrue => rfl
    case isFalse hyx =>
      have heq : x = y := le_antisymm (not_lt.mp hyx) (not_lt.mp hxy)
      rw [heq, ite_self]

theorem sum_eq (xs : List ℝ) : Arithmetic.sum xs = xs.sum := by
  rw [Arithmetic.sum, List.sum_eq_foldl]
  simp

/-- The real numbers, the two ends of the number line, and what is neither. -/
inductive Extended where
  | number (x : ℝ)
  | top
  | bottom
  | undefined

namespace Extended

noncomputable def sign : Extended → SignType
  | number x => SignType.sign x
  | top => 1
  | bottom => -1
  | undefined => 0

/-- The end in some direction. -/
def ofSign : SignType → Extended
  | .pos => top
  | .neg => bottom
  | .zero => undefined

noncomputable section

def neg : Extended → Extended
  | number x => number (-x)
  | top => bottom
  | bottom => top
  | undefined => undefined

/-- The sum of two numbers.  Opposite ends have none. -/
def add : Extended → Extended → Extended
  | number x, number y => number (x + y)
  | number _, y => y
  | x, number _ => x
  | top, top => top
  | bottom, bottom => bottom
  | _, _ => undefined

/-- The product of two numbers.  An end and 0 have none. -/
def mul : Extended → Extended → Extended
  | number x, number y => number (x * y)
  | x, y => ofSign (x.sign * y.sign)

/-- The quotient of two numbers.  There is none for two ends, nor for 0 and 0. -/
def div : Extended → Extended → Extended
  | number x, number y => if y = 0 then ofSign (SignType.sign x) else number (x / y)
  | undefined, _ => undefined
  | _, undefined => undefined
  | number _, _ => number 0
  | x, number y => if y = 0 then x else ofSign (x.sign * SignType.sign y)
  | _, _ => undefined

def log : Extended → Extended
  | number x => if 0 < x then number (Real.log x) else if x = 0 then bottom else undefined
  | top => top
  | _ => undefined

/-- The order of the number line, with its ends. -/
def lt : Extended → Extended → Prop
  | number x, number y => x < y
  | bottom, number _ => True
  | bottom, top => True
  | number _, top => True
  | _, _ => False

/-- Equality, except that nothing equals what is undefined. -/
def Same : Extended → Extended → Prop
  | number x, number y => x = y
  | top, top => True
  | bottom, bottom => True
  | _, _ => False

open Classical in
/-- The order of the number line, with what is undefined above its upper end. -/
def order : Extended → Extended → Ordering
  | undefined, undefined => .eq
  | undefined, _ => .gt
  | _, undefined => .lt
  | x, y => if lt x y then .lt else if Same x y then .eq else .gt

/-- The exact value of a double. -/
def ofFloat (x : Float) : Extended :=
  match x.toModel.unpack with
  | .finite s m e _ => number (binary s m e)
  | .zero _ => number 0
  | .infinity .positive => top
  | .infinity .negative => bottom
  | .notANumber => undefined

open Classical in
instance : Arithmetic Extended where
  zero := number 0
  one := number 1
  add := add
  sub x y := add x (neg y)
  mul := mul
  div := div
  neg := neg
  lt := lt
  le x y := lt x y ∨ Same x y
  beq x y := decide (Same x y)
  natCast n := number n
  ofScientific m s e := number (Arithmetic.toOfScientific.ofScientific m s e)
  decidableLT := inferInstance
  decidableLE := inferInstance
  log := log
  ofFloat := ofFloat
  ceil
    | number x => ⌈x⌉₊
    | top => Nat.pow 2 64 - 1
    | _ => 0
  text _ := "an extended number"
  order := order

/-! These operations are found first, also where extended numbers are known to be a monoid. -/

instance : Zero Extended := Arithmetic.toZero

instance : Add Extended := Arithmetic.toAdd

instance : Neg Extended := Arithmetic.toNeg

instance : Sub Extended := Arithmetic.toSub

/-! ## Numbers compute like real numbers -/

variable (x y : ℝ)

theorem zero_eq : (0 : Extended) = number 0 := rfl

@[simp]
theorem natCast_eq (n : ℕ) : (n : Extended) = number n := rfl

@[simp]
theorem number_add : number x + number y = number (x + y) := rfl

@[simp]
theorem number_sub : number x - number y = number (x - y) :=
  congrArg number (sub_eq_add_neg x y).symm

@[simp]
theorem one_sub_number : 1 - number x = number (1 - x) := number_sub 1 x

@[simp]
theorem number_mul : number x * number y = number (x * y) := rfl

theorem number_div {y : ℝ} (hy : y ≠ 0) : number x / number y = number (x / y) :=
  if_neg hy

theorem log_number {x : ℝ} (hx : 0 < x) : Arithmetic.log (number x) = number (Real.log x) :=
  if_pos hx

theorem log_zero : Arithmetic.log (number 0) = bottom := by
  change log (number 0) = bottom
  simp [log]

@[simp]
theorem number_add_bottom : number x + bottom = bottom := rfl

@[simp]
theorem bottom_add_number : bottom + number x = bottom := rfl

@[simp]
theorem bottom_add_bottom : bottom + bottom = bottom := rfl

@[simp]
theorem number_sub_bottom : number x - bottom = top := rfl

theorem number_mul_bottom {x : ℝ} (hx : 0 < x) : number x * bottom = bottom := by
  change ofSign (SignType.sign x * -1) = bottom
  rw [sign_pos hx]
  rfl

theorem not_top_lt (x : Extended) : ¬ top < x := fun h => by
  cases x <;> exact h

theorem number_le_number {x y : ℝ} : number x ≤ number y ↔ x ≤ y :=
  le_iff_lt_or_eq.symm

/-- What lies between 0 and 1 is a number. -/
theorem unit_iff {x : Extended} : 0 ≤ x ∧ x ≤ 1 ↔ ∃ r : ℝ, x = number r ∧ 0 ≤ r ∧ r ≤ 1 := by
  constructor
  · rintro ⟨hlow, hhigh⟩
    cases x with
    | number r => exact ⟨r, rfl, number_le_number.mp hlow, number_le_number.mp hhigh⟩
    | top => exact (hhigh.elim id id).elim
    | bottom => exact (hlow.elim id id).elim
    | undefined => exact (hlow.elim id id).elim
  · rintro ⟨r, rfl, hlow, hhigh⟩
    exact ⟨number_le_number.mpr hlow, number_le_number.mpr hhigh⟩

@[simp]
theorem zero_lt_number : 0 < number x ↔ 0 < x := Iff.rfl

@[simp]
theorem number_lt_one : number x < 1 ↔ x < 1 := Iff.rfl

@[simp]
theorem number_beq_number : (number x == number y) = (x == y) := rfl

theorem order_number : Arithmetic.order (number x) (number y) = Arithmetic.order x y := by
  change (if x < y then Ordering.lt else if x = y then .eq else .gt) = compare x y
  rcases lt_trichotomy x y with h | rfl | h
  · rw [if_pos h, compare_lt_iff_lt.mpr h]
  · rw [if_neg (lt_irrefl x), if_pos rfl, compare_eq_iff_eq.mpr rfl]
  · rw [if_neg h.not_gt, if_neg h.ne', compare_gt_iff_gt.mpr h]

theorem abs_number : Arithmetic.abs (number x) = number (Arithmetic.abs x) := by
  rw [Arithmetic.abs, Arithmetic.abs, apply_ite number]
  exact if_congr Iff.rfl rfl rfl

theorem least_number :
    Arithmetic.least (number x) (number y) = number (Arithmetic.least x y) := by
  rw [Arithmetic.least, Arithmetic.least, apply_ite number, apply_ite number, apply_ite number]
  exact if_congr Iff.rfl rfl (if_congr Iff.rfl rfl rfl)

theorem number_lt_of_le {x y : ℝ} {bound : Extended} (hxy : x ≤ y) (h : number y < bound) :
    number x < bound := by
  cases bound with
  | number z => exact hxy.trans_lt h
  | top => trivial
  | bottom => exact h.elim
  | undefined => exact h.elim

end

/-! ## Away from an end

What lies below the upper end is a number or the lower end, and such summands never meet the upper
end.  So their sum is not undefined; and likewise at the other end. -/

section Ends

variable {x y : Extended} {xs : List Extended}

theorem ne_undefined_of_lt_top (h : x < top) : x ≠ undefined := by
  rintro rfl
  exact h

theorem ne_undefined_of_bottom_lt (h : bottom < x) : x ≠ undefined := by
  rintro rfl
  exact h

theorem add_lt_top (hx : x < top) (hy : y < top) : x + y < top := by
  cases x <;> cases y <;> first | exact trivial | exact hx.elim | exact hy.elim

theorem bottom_lt_add (hx : bottom < x) (hy : bottom < y) : bottom < x + y := by
  cases x <;> cases y <;> first | exact trivial | exact hx.elim | exact hy.elim

theorem number_mul_lt_top {c : ℝ} (hc : 0 < c) (hx : x < top) : number c * x < top := by
  cases x with
  | number y => exact trivial
  | bottom => exact (number_mul_bottom hc).symm ▸ trivial
  | top => exact hx.elim
  | undefined => exact hx.elim

theorem neg_lt_top (h : bottom < x) : -x < top := by
  cases x <;> first | exact trivial | exact h.elim

theorem bottom_lt_neg (h : x < top) : bottom < -x := by
  cases x <;> first | exact trivial | exact h.elim

theorem sum_lt_top (h : ∀ x ∈ xs, x < top) : Arithmetic.sum xs < top :=
  List.foldlRecOn (motive := (· < top)) xs (· + ·) trivial
    fun _ hsum x hx => add_lt_top hsum (h x hx)

theorem bottom_lt_sum (h : ∀ x ∈ xs, bottom < x) : bottom < Arithmetic.sum xs :=
  List.foldlRecOn (motive := (bottom < ·)) xs (· + ·) trivial
    fun _ hsum x hx => bottom_lt_add hsum (h x hx)

theorem log_lt_top {w : ℝ} (hw : 0 ≤ w) : Arithmetic.log (number w) < top := by
  rcases hw.eq_or_lt with rfl | hpos
  · rw [log_zero]
    exact trivial
  · rw [log_number hpos]
    exact trivial

theorem bottom_lt_log {w : ℝ} (hw : 0 < w) : bottom < Arithmetic.log (number w) := by
  rw [log_number hw]
  exact trivial

end Ends

end Extended

end Linkage
