import Linkage.Proofs.Exact.Double
import Linkage.Proofs.Random.Simplex
import Linkage.Random.Generator

/-
# Numbers that the generator draws

A draw is a natural number below `2 ^ 53`, divided by `2 ^ 53`.  Doubles lose nothing in it, so it is
a number between 0 and 1, and a model that is learned from random estimates can rely on this.
-/

namespace Linkage

open Double
open Extended (number)

namespace Generator

theorem toNat_shiftRight_lt (w : UInt64) : (w >>> 11).toNat < 2 ^ 53 := by
  have hw := w.toNat_lt
  rw [UInt64.toNat_shiftRight, Nat.shiftRight_eq_div_pow,
    show (11 : UInt64).toNat % 64 = 11 from rfl]
  omega

noncomputable def value (g : Generator) : ℝ :=
  (g.next.1 >>> 11).toNat / (2 ^ 53 : ℕ)

theorem ofFloat_uniform (g : Generator) : Extended.ofFloat g.uniform.1 = number g.value :=
  ofFloat_part (toNat_shiftRight_lt g.next.1)

theorem draw_eq (g : Generator) :
    (Draws.draw g : Extended × Generator) = (number g.value, g.next.2) :=
  Prod.ext (ofFloat_uniform g) rfl

theorem value_lt_one (g : Generator) : g.value < 1 := by
  rw [value, div_lt_one (by positivity)]
  exact_mod_cast toNat_shiftRight_lt g.next.1

theorem value_pos {g : Generator} (h : g.next.1 >>> 11 ≠ 0) : 0 < g.value := by
  have hne : (g.next.1 >>> 11).toNat ≠ 0 := fun hzero => h (UInt64.toNat_inj.mp hzero)
  rw [value]
  positivity

theorem unitDraws : Simplex.UnitDraws Generator := by
  intro g
  refine ⟨g.value, ?_, g.value_lt_one.le, congrArg Prod.fst g.draw_eq⟩
  rw [value]
  positivity

end Generator

end Linkage
