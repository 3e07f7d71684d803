import Linkage.Agreement.RecordComparator
import Mathlib.Algebra.Order.BigOperators.Group.List
import Mathlib.Algebra.Order.Group.Nat
import Mathlib.Data.List.Forall2
import Mathlib.Data.List.Induction

/-
# The patterns and their numbers are in bijection

A pattern is numbered through the steps: the step of a comparator is the product of the level counts
before it.  The levels are read back from the last comparator down, by division by its step.  So
everything here is by induction on the level counts *from the end*: the last level count has the
product of all others for its step, and what it leaves of a number is the number of the levels
before it.

A number is added up in 64 bits.  It stays below the number of patterns on the way, because the
first products are those of a smaller pattern space.
-/

namespace Linkage

namespace PatternSpace

/-- A pattern fits level counts if it has one level for each, and below it. -/
def Fits (levels : List Nat) (p : Pattern) : Prop :=
  List.Forall₂ (· < ·) p levels

theorem Fits.length_eq {levels : List Nat} {p : Pattern} (h : Fits levels p) :
    p.length = levels.length :=
  List.Forall₂.length_eq h

/-! ## The level counts, taken apart from the end -/

theorem size_append (ms ns : List Nat) : size (ms ++ ns) = size ms * size ns := by
  induction ms with
  | nil => simp [size]
  | cons m ms ih =>
      simp only [size, List.cons_append, List.foldr_cons] at ih ⊢
      rw [ih, Nat.mul_assoc]

theorem size_snoc (ns : List Nat) (n : Nat) : size (ns ++ [n]) = size ns * n := by
  rw [size_append]
  simp [size]

theorem size_pos {ns : List Nat} (hns : ∀ n ∈ ns, 0 < n) : 0 < size ns := by
  induction ns with
  | nil => exact Nat.one_pos
  | cons n ns ih =>
      exact Nat.mul_pos (hns n List.mem_cons_self)
        (ih fun m hm => hns m (List.mem_cons_of_mem _ hm))

theorem length_steps (product : Nat) (ns : List Nat) : (steps product ns).length = ns.length := by
  induction ns generalizing product with
  | nil => rfl
  | cons n ns ih => simp [steps, ih]

/-- The step of a comparator is the product of the level counts before it. -/
theorem steps_append (product : Nat) (ms ns : List Nat) :
    steps product (ms ++ ns) = steps product ms ++ steps (product * size ms) ns := by
  induction ms generalizing product with
  | nil => simp [steps, size]
  | cons m ms ih =>
      have hsize : product * m * size ms = product * size (m :: ms) := by
        simp only [size, List.foldr_cons, Nat.mul_assoc]
      simp only [List.cons_append, steps, ih, hsize]

theorem take_steps (product k : Nat) (ns : List Nat) :
    (steps product ns).take k = steps product (ns.take k) := by
  induction ns generalizing product k with
  | nil => simp [steps]
  | cons n ns ih =>
      cases k with
      | zero => rfl
      | succ k => simp [steps, ih]

theorem Fits.snoc {ns : List Nat} {n : Nat} {p : Pattern} (h : Fits (ns ++ [n]) p) :
    ∃ q level, p = q ++ [level] ∧ Fits ns q ∧ level < n := by
  have hq : Fits ns (p.take ns.length) := List.forall₂_take_append p ns [n] h
  have hlast : List.Forall₂ (· < ·) (p.drop ns.length) [n] := List.forall₂_drop_append p ns [n] h
  match hrest : p.drop ns.length, hlast with
  | [level], .cons hlevel .nil =>
      refine ⟨p.take ns.length, level, ?_, hq, hlevel⟩
      rw [← hrest, List.take_append_drop]

theorem Fits.concat {ns : List Nat} {n level : Nat} {p : Pattern} (hp : Fits ns p)
    (hlevel : level < n) : Fits (ns ++ [n]) (p ++ [level]) :=
  List.rel_append hp (.cons hlevel .nil)

/-! ## Numbers and patterns -/

theorem encode_snoc {ns : List Nat} {p : Pattern} (hp : p.length = ns.length) (n level : Nat) :
    encode (ns ++ [n]) (p ++ [level]) = encode ns p + level * size ns := by
  have hlen : p.length = (steps 1 ns).length := by rw [length_steps, hp]
  simp [encode, products, steps_append, steps, List.zipWith_append hlen]

theorem decode_snoc (ns : List Nat) (n index : Nat) :
    decode (ns ++ [n]) index = decode ns (index % size ns) ++ [index / size ns] := by
  simp [decode, steps_append, steps, quotients]

theorem encode_lt_size {ns : List Nat} {p : Pattern} (h : Fits ns p) : encode ns p < size ns := by
  induction ns using List.reverseRecOn generalizing p with
  | nil => cases h; exact Nat.one_pos
  | append_singleton ns n ih =>
      obtain ⟨q, level, rfl, hq, hlevel⟩ := h.snoc
      rw [encode_snoc hq.length_eq, size_snoc]
      calc encode ns q + level * size ns
          < size ns + level * size ns := Nat.add_lt_add_right (ih hq) _
        _ = size ns * (level + 1) := by rw [Nat.mul_succ, Nat.mul_comm, Nat.add_comm]
        _ ≤ size ns * n := Nat.mul_le_mul_left _ hlevel

theorem decode_encode {ns : List Nat} {p : Pattern} (h : Fits ns p) :
    decode ns (encode ns p) = p := by
  induction ns using List.reverseRecOn generalizing p with
  | nil => cases h; rfl
  | append_singleton ns n ih =>
      obtain ⟨q, level, rfl, hq, -⟩ := h.snoc
      have hlt : encode ns q < size ns := encode_lt_size hq
      have hpos : 0 < size ns := Nat.zero_lt_of_lt hlt
      rw [encode_snoc hq.length_eq, decode_snoc, Nat.add_mul_mod_self_right, Nat.mod_eq_of_lt hlt,
        Nat.add_mul_div_right _ _ hpos, Nat.div_eq_of_lt hlt, Nat.zero_add, ih hq]

theorem fits_decode {ns : List Nat} {index : Nat} (h : index < size ns) :
    Fits ns (decode ns index) := by
  induction ns using List.reverseRecOn generalizing index with
  | nil => exact .nil
  | append_singleton ns n ih =>
      rw [size_snoc] at h
      have hpos : 0 < size ns := Nat.pos_of_ne_zero fun hzero => by simp [hzero] at h
      rw [decode_snoc]
      exact (ih (Nat.mod_lt _ hpos)).concat (Nat.div_lt_of_lt_mul h)

theorem encode_decode {ns : List Nat} {index : Nat} (h : index < size ns) :
    encode ns (decode ns index) = index := by
  induction ns using List.reverseRecOn generalizing index with
  | nil =>
      have hzero : index = 0 := Nat.lt_one_iff.mp h
      rw [hzero]; rfl
  | append_singleton ns n ih =>
      rw [size_snoc] at h
      have hpos : 0 < size ns := Nat.pos_of_ne_zero fun hzero => by simp [hzero] at h
      have hrest : index % size ns < size ns := Nat.mod_lt _ hpos
      rw [decode_snoc, encode_snoc (fits_decode hrest).length_eq, ih hrest, Nat.mul_comm]
      exact Nat.mod_add_div index (size ns)

/-! ## The sum on the way -/

theorem take_products (levels : List Nat) (p : Pattern) (k : Nat) :
    (products levels p).take k = products (levels.take k) (p.take k) := by
  rw [products, products, List.take_zipWith, take_steps]

/-- As long as the levels are in range, every product and the sum so far are below the number of
patterns. -/
theorem products_lt_size {levels : List Nat} (hpos : ∀ n ∈ levels, 0 < n) {p : Pattern} {k : Nat}
    (h : Fits (levels.take k) (p.take k)) :
    (∀ x ∈ (products levels p).take k, x < size levels) ∧
      ((products levels p).take k).foldl (· + ·) 0 < size levels := by
  have hsum : ((products levels p).take k).foldl (· + ·) 0 < size levels := by
    calc ((products levels p).take k).foldl (· + ·) 0
        = encode (levels.take k) (p.take k) := by rw [take_products, encode]
      _ < size (levels.take k) := encode_lt_size h
      _ ≤ size (levels.take k) * size (levels.drop k) :=
          Nat.le_mul_of_pos_right _ (size_pos fun n hn => hpos n (List.mem_of_mem_drop hn))
      _ = size levels := by rw [← size_append, List.take_append_drop]
  refine ⟨fun x hx => ?_, hsum⟩
  rw [← List.sum_eq_foldl] at hsum
  exact Nat.lt_of_le_of_lt (List.le_sum_of_mem hx) hsum

/-! ## The checks -/

/-- The number of patterns is built up within the limit just if it is within the limit itself: no
factor is zero, so that the products on the way do not exceed it. -/
theorem sizeWithin?_eq {product : Nat} (hproduct : product < limit) {ns : List Nat}
    (hpos : ∀ n ∈ ns, 0 < n) :
    sizeWithin? product ns =
      if product * size ns < limit then some (product * size ns) else none := by
  induction ns generalizing product with
  | nil => simp [sizeWithin?, size, hproduct]
  | cons n ns ih =>
      have hsize : product * size (n :: ns) = product * n * size ns := by
        simp only [size, List.foldr_cons, Nat.mul_assoc]
      have htail : ∀ m ∈ ns, 0 < m := fun m hm => hpos m (List.mem_cons_of_mem _ hm)
      rw [hsize, sizeWithin?]
      by_cases h : product * n < limit
      · rw [if_pos h, ih h htail]
      · have hle : product * n ≤ product * n * size ns :=
          Nat.le_mul_of_pos_right _ (size_pos htail)
        rw [if_neg h, if_neg (by omega)]

theorem outOfRange?_eq_find? (levels : List Nat) (p : Pattern) :
    outOfRange? levels p = (p.zip levels).find? fun x => x.2 ≤ x.1 := by
  induction levels generalizing p with
  | nil => cases p <;> rfl
  | cons n ns ih =>
      cases p with
      | nil => rfl
      | cons level p =>
          rw [outOfRange?, List.zip_cons_cons, List.find?_cons, ih]
          by_cases h : level < n
          · rw [if_pos h, decide_eq_false (Nat.not_le.mpr h)]
          · rw [if_neg h, decide_eq_true (Nat.le_of_not_lt h)]

theorem outOfRange?_eq_none_iff {levels : List Nat} {p : Pattern}
    (hlen : p.length = levels.length) : outOfRange? levels p = none ↔ Fits levels p := by
  rw [outOfRange?_eq_find?, List.find?_eq_none, Fits, List.forall₂_iff_zip]
  simp [hlen]

end PatternSpace

namespace RecordComparator

open PatternSpace

theorem levels_pos {bindings : List Binding} (handleBlanks : Bool) :
    ∀ n ∈ bindings.map (·.levels handleBlanks), 0 < n := by
  intro n hn
  obtain ⟨b, -, rfl⟩ := List.mem_map.mp hn
  have hlevels : 0 < b.comparator.levels := by cases b.comparator <;> simp [FieldComparator.levels]
  exact Nat.add_pos_left hlevels _

/-- A comparator is made just if there is a binding and 64 bits number the patterns. -/
theorem make_eq_ok_iff {serial : Nat} {bindings : List Binding} {handleBlanks : Bool}
    {c : RecordComparator} :
    make serial bindings handleBlanks = .ok c ↔
      (bindings ≠ [] ∧ size (bindings.map (·.levels handleBlanks)) < limit) ∧
        c = ⟨serial, bindings, handleBlanks, size (bindings.map (·.levels handleBlanks))⟩ := by
  have hone : 1 < limit := by decide
  rw [make, sizeWithin?_eq hone (levels_pos handleBlanks), Nat.one_mul]
  by_cases hempty : bindings = []
  · simp [hempty]
  · by_cases hsize : size (bindings.map (·.levels handleBlanks)) < limit
    · simp only [List.isEmpty_iff, hempty, hsize, if_true, Except.ok.injEq, ne_eq, and_self,
        not_false_eq_true, true_and, reduceIte]
      exact eq_comm
    · simp [hempty, hsize]

theorem patternIndex_of_fits {c : RecordComparator} {p : Pattern} (h : Fits c.levels p) :
    c.patternIndex p = .ok (encode c.levels p) := by
  simp [patternIndex, h.length_eq, (outOfRange?_eq_none_iff h.length_eq).mpr h]

theorem patternAt_of_lt {c : RecordComparator} {index : Nat} (h : index < c.patternCount) :
    c.patternAt index = .ok (decode c.levels index) :=
  if_pos h

/-- A pattern that does not fit is refused: for its length, or else for its first level that is out
of range. -/
theorem patternIndex_of_not_fits {c : RecordComparator} {p : Pattern} (h : ¬ Fits c.levels p) :
    if p.length = c.levels.length then
      ∃ level n, ((p.zip c.levels).find? fun x => x.2 ≤ x.1) = some (level, n) ∧
        c.patternIndex p = .error (.misuse (.level level n))
    else c.patternIndex p = .error (.misuse (.patternLength p.length c.levels.length)) := by
  split
  case isFalse hlen => simp [patternIndex, hlen]
  case isTrue hlen =>
    have hsome : outOfRange? c.levels p ≠ none := fun hnone =>
      h ((outOfRange?_eq_none_iff hlen).mp hnone)
    obtain ⟨⟨level, n⟩, hfirst⟩ := Option.ne_none_iff_exists'.mp hsome
    refine ⟨level, n, ?_, ?_⟩
    · rw [← outOfRange?_eq_find?, hfirst]
    · simp [patternIndex, hlen, hfirst]

/-- Comparators are made from all bindings whose patterns 64 bits number, and from no others.  The
patterns of such a comparator and the numbers below its pattern count are in bijection; no product
and no sum on the way to a number exceeds 64 bits, also where a later level is out of range.  Other
patterns and other numbers are refused. -/
theorem patternIndex_bijective (serial : Nat) (bindings : List Binding) (handleBlanks : Bool) :
    ((∃ c, make serial bindings handleBlanks = .ok c) ↔
      bindings ≠ [] ∧ size (bindings.map (·.levels handleBlanks)) < limit) ∧
    ∀ c, make serial bindings handleBlanks = .ok c →
      c.levels = bindings.map (·.levels handleBlanks) ∧ c.patternCount = size c.levels ∧
      (∀ p, Fits c.levels p → ∃ index < c.patternCount,
        c.patternIndex p = .ok index ∧ c.patternAt index = .ok p) ∧
      (∀ index < c.patternCount, ∃ p, Fits c.levels p ∧
        c.patternAt index = .ok p ∧ c.patternIndex p = .ok index) ∧
      (∀ p k, Fits (c.levels.take k) (p.take k) →
        (∀ x ∈ (products c.levels p).take k, x < limit) ∧
          ((products c.levels p).take k).foldl (· + ·) 0 < limit) ∧
      (∀ p, ¬ Fits c.levels p →
        if p.length = c.levels.length then
          ∃ level n, ((p.zip c.levels).find? fun x => x.2 ≤ x.1) = some (level, n) ∧
            c.patternIndex p = .error (.misuse (.level level n))
        else c.patternIndex p = .error (.misuse (.patternLength p.length c.levels.length))) ∧
      ∀ index, c.patternCount ≤ index →
        c.patternAt index = .error (.misuse (.patternIndex index c.patternCount)) := by
  refine ⟨⟨fun ⟨c, hmake⟩ => (make_eq_ok_iff.mp hmake).1,
    fun h => ⟨_, make_eq_ok_iff.mpr ⟨h, rfl⟩⟩⟩, fun c hmake => ?_⟩
  obtain ⟨⟨-, hlimit⟩, hc⟩ := make_eq_ok_iff.mp hmake
  have hlevels : c.levels = bindings.map (·.levels handleBlanks) := by rw [hc, levels]
  have hcount : c.patternCount = size c.levels := by rw [hlevels, hc]
  rw [← hlevels] at hlimit
  have hpos : ∀ n ∈ c.levels, 0 < n := hlevels ▸ levels_pos handleBlanks
  refine ⟨hlevels, hcount, ?_, ?_, ?_,
    fun p hp => patternIndex_of_not_fits hp, fun index hindex => ?_⟩
  · intro p hp
    have hlt : encode c.levels p < c.patternCount := hcount ▸ encode_lt_size hp
    refine ⟨encode c.levels p, hlt, patternIndex_of_fits hp, ?_⟩
    rw [patternAt_of_lt hlt, decode_encode hp]
  · intro index hindex
    have hfits : Fits c.levels (decode c.levels index) := fits_decode (hcount ▸ hindex)
    refine ⟨decode c.levels index, hfits, patternAt_of_lt hindex, ?_⟩
    rw [patternIndex_of_fits hfits, encode_decode (hcount ▸ hindex)]
  · intro p k hk
    obtain ⟨hproducts, hsum⟩ := products_lt_size hpos hk
    exact ⟨fun x hx => (hproducts x hx).trans hlimit, hsum.trans hlimit⟩
  · exact if_neg (Nat.not_lt.mpr hindex)

end RecordComparator

end Linkage
