import Linkage.Proofs.Exact.Grid
import Linkage.Proofs.Random.Generator

/-
# Random probability vectors are exact

Draws are multiples of `2 ^ -53` below 1, and they are the places at which the unit interval is cut.
The pieces between two places that follow each other are on the same grid, so that no difference of
doubles is rounded: the pieces are those of the exact numbers, which telescope.  Added up from the
left they come by every place and end at 1.  A piece is empty where two places are the same, and the
first one is where 0 is drawn.

The places are sorted by the order of the bits of their doubles, in which no two doubles are alike.
So only the draws count and not the order in which they come.
-/

namespace Linkage

open Double
open Extended (number ofFloat)

/-! ## The order of the bits -/

namespace Arithmetic

theorem isLE_order_iff {x y : Float} : (order x y).isLE = true ↔ rank x ≤ rank y :=
  Ordering.isLE_iff_ne_gt.trans compare_le_iff_le

theorem rank_injective : Function.Injective rank := by
  intro x y h
  have hbits : x.toBits.toNat = y.toBits.toNat := by
    simp only [rank, Nat.pow_eq] at h
    split at h <;> split at h <;> omega
  obtain ⟨⟨bits, hvalid⟩⟩ := x
  obtain ⟨⟨bits', hvalid'⟩⟩ := y
  obtain rfl : bits = bits' := UInt64.toNat_inj.mp hbits
  rfl

/-- Numbers in the order of their bits are in the order of their values. -/
theorem le_of_order {x y : Float} (hx : x.isNaN = false) (hy : y.isNaN = false)
    (h : (order x y).isLE = true) : x ≤ y := by
  have hrank := isLE_order_iff.mp h
  refine Score.le_iff_rank_le.mpr ⟨hx, hy, ?_⟩
  simp only [rank, Score.rank, hx, hy, Bool.false_eq_true, if_false, Nat.pow_eq] at hrank ⊢
  split at hrank <;> split at hrank <;> omega

end Arithmetic

namespace Simplex

theorem ascending_nil : ascending ([] : List Float) = [] :=
  List.mergeSort_nil

/-- Sorting forgets the order in which doubles come. -/
theorem ascending_eq_of_perm {xs ys : List Float} (h : xs.Perm ys) :
    ascending xs = ascending ys := by
  have hperm : (ascending xs).Perm (ascending ys) :=
    (List.mergeSort_perm xs _).trans (h.trans (List.mergeSort_perm ys _).symm)
  refine hperm.eq_of_pairwise ?_ (pairwise_order_ascending xs) (pairwise_order_ascending ys)
  intro x y _ _ hxy hyx
  have hle := Arithmetic.isLE_order_iff.mp hxy
  have hge := Arithmetic.isLE_order_iff.mp hyx
  exact Arithmetic.rank_injective (hle.antisymm hge)

/-! ## Pieces and places -/

section Pieces

variable {start : ℝ} {cuts : List ℝ}

/-- The first pieces reach from the start to the place behind them. -/
theorem sum_take_pieces {i : Nat} (hi : i < cuts.length) :
    ((pieces start cuts).take (i + 1)).sum = cuts[i] - start := by
  induction cuts generalizing start i with
  | nil => exact absurd hi (Nat.not_lt_zero i)
  | cons cut cuts ih =>
      rw [pieces, List.take_succ_cons, List.sum_cons]
      cases i with
      | zero => rw [List.take_zero, List.sum_nil, add_zero, List.getElem_cons_zero]
      | succ i =>
          rw [ih (Nat.lt_of_succ_lt_succ hi), List.getElem_cons_succ]
          ring

/-- No piece is empty just if no place is the same as another one. -/
theorem pieces_pos_iff (hsorted : (start :: cuts).Pairwise (· ≤ ·))
    (hcuts : ∀ a ∈ start :: cuts, a < 1) :
    (∀ a ∈ pieces start cuts, 0 < a) ↔ (start :: cuts).Nodup := by
  induction cuts generalizing start with
  | nil => simpa [pieces] using hcuts
  | cons cut cuts ih =>
      obtain ⟨hstart, hrest⟩ := List.pairwise_cons.mp hsorted
      have hnew : start < cut ↔ start ∉ cut :: cuts := by
        constructor
        · intro hlt hmem
          rcases List.mem_cons.mp hmem with rfl | hmem
          · exact lt_irrefl _ hlt
          · exact absurd (List.rel_of_pairwise_cons hrest hmem) (not_le.mpr hlt)
        · intro hnotMem
          refine lt_of_le_of_ne (hstart cut List.mem_cons_self) ?_
          rintro rfl
          exact hnotMem List.mem_cons_self
      rw [pieces, List.forall_mem_cons, sub_pos, List.nodup_cons, hnew,
        ih hrest fun a ha => hcuts a (List.mem_cons_of_mem start ha)]

theorem onGrid_pieces (hsorted : (start :: cuts).Pairwise (· ≤ ·))
    (hcuts : ∀ a ∈ start :: cuts, OnGrid a) : ∀ a ∈ pieces start cuts, OnGrid a := by
  have hstart := hcuts start List.mem_cons_self
  induction cuts generalizing start with
  | nil =>
      intro a ha
      rw [List.mem_singleton.mp ha]
      exact OnGrid.one.sub hstart hstart.le_one
  | cons cut cuts ih =>
      have hrest : ∀ a ∈ cut :: cuts, OnGrid a := fun a ha =>
        hcuts a (List.mem_cons_of_mem start ha)
      have hcut := hrest cut List.mem_cons_self
      intro a ha
      rcases List.mem_cons.mp ha with rfl | ha
      · exact hcut.sub hstart (List.rel_of_pairwise_cons hsorted List.mem_cons_self)
      · exact ih hsorted.of_cons hrest hcut a ha

end Pieces

theorem pieces_eq_zipWith {α : Type} [Arithmetic α] (start : α) (cuts : List α) :
    pieces start cuts = List.zipWith (· - ·) (cuts ++ [1]) (start :: cuts) := by
  induction cuts generalizing start with
  | nil => rfl
  | cons cut cuts ih => rw [pieces, ih]; rfl

/-- Where all pieces are on the grid, no difference is rounded. -/
theorem map_ofFloat_pieces {start : Float} {cuts : List Float} {a : ℝ} {as : List ℝ}
    (hstart : ofFloat start = number a) (hcuts : cuts.map ofFloat = as.map number)
    (hpieces : ∀ b ∈ pieces a as, OnGrid b) :
    (pieces start cuts).map ofFloat = (pieces a as).map number := by
  induction cuts generalizing start a as with
  | nil =>
      obtain rfl : as = [] := List.map_eq_nil_iff.mp hcuts.symm
      have hlast := ofFloat_sub_of_onGrid ofFloat_one hstart (hpieces _ List.mem_cons_self)
      exact congrArg (· :: []) hlast
  | cons cut cuts ih =>
      obtain ⟨b, bs, rfl, hcut, hrest⟩ := List.map_eq_cons_iff.mp hcuts.symm
      have hfirst := ofFloat_sub_of_onGrid hcut.symm hstart (hpieces _ List.mem_cons_self)
      have hothers := ih hcut.symm hrest.symm fun c hc => hpieces c (List.mem_cons_of_mem _ hc)
      rw [pieces, pieces, List.map_cons, List.map_cons, hfirst, hothers]

/-! ## Draws -/

/-- A draw: a multiple of `2 ^ -53` from 0 on and below 1. -/
def IsDraw (x : Float) : Prop :=
  ∃ k : ℕ, k < 2 ^ 53 ∧ ofFloat x = number (k / (2 ^ 53 : ℕ))

namespace IsDraw

variable {x : Float}

theorem isFinite (h : IsDraw x) : x.isFinite = true := by
  obtain ⟨k, -, hx⟩ := h
  exact Extended.ofFloat_eq_number_iff.mp ⟨_, hx⟩

theorem onGrid (h : IsDraw x) : OnGrid (value x) := by
  obtain ⟨k, hk, hx⟩ := h
  exact ⟨k, hk.le, value_eq hx⟩

theorem lt_one (h : IsDraw x) : value x < 1 := by
  obtain ⟨k, hk, hx⟩ := h
  rw [value_eq hx, div_lt_one (by positivity)]
  exact_mod_cast hk

end IsDraw

section Draws

variable {γ : Type} [Draws γ Float]

def skip (n : Nat) (g : γ) : γ :=
  (fun g => (Draws.draw g : Float × γ).2)^[n] g

def drawn (n : Nat) (g : γ) : List Float :=
  (List.range n).map fun i => (Draws.draw (skip i g)).1

theorem drawList_eq (n : Nat) (g : γ) : drawList n g = (drawn n g, skip n g) := by
  induction n generalizing g with
  | zero => rfl
  | succ n ih =>
      have hrest := ih (Draws.draw g : Float × γ).2
      rw [drawn, List.range_succ_eq_map, List.map_cons, List.map_map]
      exact congrArg (fun p : List Float × γ => ((Draws.draw g : Float × γ).1 :: p.1, p.2)) hrest

theorem partition_succ (n : Nat) (g : γ) :
    partition (n + 1) g = (pieces 0 (ascending (drawn n g)), skip n g) := by
  cases n with
  | zero =>
      have hnone : ascending (drawn 0 g) = [] := ascending_nil
      have hall : (1 : Float) - 0 = 1 := rfl
      rw [hnone]
      exact congrArg (fun x : Float => ([x], g)) hall.symm
  | succ n => rw [partition, drawList_eq]; rfl

end Draws

/-! ## Places that were drawn -/

section Places

variable {cuts : List Float} (hdraw : ∀ x ∈ cuts, IsDraw x)
include hdraw

theorem map_ofFloat_places : cuts.map ofFloat = (cuts.map value).map number := by
  rw [List.map_map]
  exact List.map_congr_left fun x hx => ofFloat_eq_value (hdraw x hx).isFinite

theorem onGrid_places : ∀ a ∈ 0 :: cuts.map value, OnGrid a := by
  rw [List.forall_mem_cons, List.forall_mem_map]
  exact ⟨.zero, fun x hx => (hdraw x hx).onGrid⟩

theorem places_lt_one : ∀ a ∈ 0 :: cuts.map value, a < 1 := by
  rw [List.forall_mem_cons, List.forall_mem_map]
  exact ⟨one_pos, fun x hx => (hdraw x hx).lt_one⟩

variable (hsorted : cuts.Pairwise (· ≤ ·))
include hsorted

theorem pairwise_places : (0 :: cuts.map value).Pairwise (· ≤ ·) := by
  refine List.pairwise_cons.mpr ⟨?_, List.pairwise_map.mpr (hsorted.imp_of_mem ?_)⟩
  · exact fun a ha => (onGrid_places hdraw a (List.mem_cons_of_mem 0 ha)).nonneg
  · exact fun hx hy => (le_iff_value_le (hdraw _ hx).isFinite (hdraw _ hy).isFinite).mp

theorem onGrid_pieces_places : ∀ a ∈ pieces 0 (cuts.map value), OnGrid a :=
  onGrid_pieces (pairwise_places hdraw hsorted) (onGrid_places hdraw)

/-- The pieces between the places are those between their values. -/
theorem map_ofFloat_pieces_places :
    (pieces 0 cuts).map ofFloat = (pieces 0 (cuts.map value)).map number :=
  map_ofFloat_pieces rfl (map_ofFloat_places hdraw) (onGrid_pieces_places hdraw hsorted)

theorem map_value_pieces_places : (pieces 0 cuts).map value = pieces 0 (cuts.map value) :=
  map_value_eq (map_ofFloat_pieces_places hdraw hsorted)

theorem isFinite_pieces_places : ∀ x ∈ pieces 0 cuts, x.isFinite = true := by
  intro x hx
  have hmem := List.mem_map_of_mem (f := ofFloat) hx
  rw [map_ofFloat_pieces_places hdraw hsorted] at hmem
  obtain ⟨a, -, ha⟩ := List.mem_map.mp hmem
  exact Extended.ofFloat_eq_number_iff.mp ⟨a, ha.symm⟩

theorem pieces_places_pos_iff :
    (∀ x ∈ pieces 0 cuts, 0 < x) ↔ (cuts.map value).Nodup ∧ ∀ x ∈ cuts, value x ≠ 0 := by
  have hfinite := isFinite_pieces_places hdraw hsorted
  have hzero : value 0 = 0 := value_eq rfl
  have hvalues : (∀ x ∈ pieces 0 cuts, 0 < x) ↔ ∀ a ∈ pieces 0 (cuts.map value), 0 < a := by
    rw [← map_value_pieces_places hdraw hsorted, List.forall_mem_map]
    refine forall₂_congr fun x hx => ?_
    rw [lt_iff_value_lt (by decide) (hfinite x hx), hzero]
  rw [hvalues, pieces_pos_iff (pairwise_places hdraw hsorted) (places_lt_one hdraw),
    List.nodup_cons, and_comm]
  simp

end Places

/-! ## Exactly cut -/

/-- The doubles `out` are the pieces of the unit interval between some places.  The places `cuts` are
those that were drawn, in ascending order.  Every piece is the difference of two places, which as a
double and as a number are the same; so the first pieces add up to the place behind them and all of
them to 1, as numbers as well as with doubles. -/
structure ExactlyCut (n : Nat) (drawn cuts out : List Float) : Prop where
  perm : cuts.Perm drawn
  ascending : cuts.Pairwise (· ≤ ·)
  length : out.length = n
  finite : ∀ x ∈ out, x.isFinite = true
  nonneg : ∀ x ∈ out, 0 ≤ x
  difference : 0 < n → out = List.zipWith (· - ·) (cuts ++ [1]) (0 :: cuts)
  exact_difference : 0 < n → out.map value =
    List.zipWith (· - ·) ((cuts ++ [1]).map value) ((0 :: cuts).map value)
  sum : 0 < n → (out.map value).sum = 1
  running_sum : ∀ i (hi : i < cuts.length), ((out.take (i + 1)).map value).sum = value cuts[i]
  computed_sum : 0 < n → ofFloat (Arithmetic.sum out) = 1
  computed_running_sum : ∀ i (hi : i < cuts.length),
    ofFloat (Arithmetic.sum (out.take (i + 1))) = ofFloat cuts[i]
  pos_iff : (∀ x ∈ out, 0 < x) ↔ (drawn.map value).Nodup ∧ ∀ x ∈ drawn, value x ≠ 0

theorem exactlyCut_nil : ExactlyCut 0 [] [] [] := by
  constructor <;> simp

theorem exactlyCut_pieces {drawn : List Float} (h : ∀ x ∈ drawn, IsDraw x) :
    ExactlyCut (drawn.length + 1) drawn (ascending drawn) (pieces 0 (ascending drawn)) := by
  have hperm : (Simplex.ascending drawn).Perm drawn := List.mergeSort_perm drawn _
  have horder := pairwise_order_ascending drawn
  generalize Simplex.ascending drawn = cuts at hperm horder ⊢
  have hdraw : ∀ x ∈ cuts, IsDraw x := fun x hx => h x (hperm.mem_iff.mp hx)
  have hsorted : cuts.Pairwise (· ≤ ·) := by
    refine horder.imp_of_mem fun hx hy => ?_
    exact Arithmetic.le_of_order (isNaN_of_isFinite (hdraw _ hx).isFinite)
      (isNaN_of_isFinite (hdraw _ hy).isFinite)
  have hzero : value 0 = 0 := value_eq rfl
  have hone : value 1 = 1 := value_eq ofFloat_one
  have hexact := map_ofFloat_pieces_places hdraw hsorted
  have hvalue := map_value_pieces_places hdraw hsorted
  have hgrid := onGrid_pieces_places hdraw hsorted
  have hfinite := isFinite_pieces_places hdraw hsorted
  have hsum : (pieces 0 (cuts.map value)).sum = 1 := (sum_pieces 0 _).trans (sub_zero 1)
  have hrunning : ∀ i (hi : i < cuts.length),
      ((pieces 0 (cuts.map value)).take (i + 1)).sum = value cuts[i] := by
    intro i hi
    rw [sum_take_pieces (by rwa [List.length_map]), List.getElem_map, sub_zero]
  constructor
  case perm => exact hperm
  case ascending => exact hsorted
  case length => rw [length_pieces, hperm.length_eq]
  case finite => exact hfinite
  case nonneg =>
    intro x hx
    rw [le_iff_value_le (by decide) (hfinite x hx), hzero]
    exact (hgrid _ (hvalue ▸ List.mem_map_of_mem hx)).nonneg
  case difference => exact fun _ => pieces_eq_zipWith 0 cuts
  case exact_difference =>
    intro _
    rw [hvalue, pieces_eq_zipWith, List.map_append, List.map_cons, List.map_cons, hzero, hone]
    rfl
  case sum => exact fun _ => hvalue ▸ hsum
  case running_sum =>
    intro i hi
    rw [List.map_take, hvalue, hrunning i hi]
  case computed_sum =>
    intro _
    rw [ofFloat_sum_of_onGrid hexact hgrid hsum.le, hsum]
    rfl
  case computed_running_sum =>
    intro i hi
    have htaken : ((pieces 0 cuts).take (i + 1)).map ofFloat =
        ((pieces 0 (cuts.map value)).take (i + 1)).map number := by
      rw [List.map_take, hexact, List.map_take]
    have hplace := hdraw _ (List.getElem_mem hi)
    rw [ofFloat_sum_of_onGrid htaken (fun a ha => hgrid a (List.mem_of_mem_take ha))
      ((hrunning i hi).trans_le hplace.lt_one.le), hrunning i hi, ofFloat_eq_value hplace.isFinite]
  case pos_iff =>
    rw [pieces_places_pos_iff hdraw hsorted, (hperm.map value).nodup_iff]
    simp only [hperm.mem_iff]

end Simplex

theorem Generator.isDraw (g : Generator) : Simplex.IsDraw (Draws.draw g : Float × Generator).1 :=
  ⟨_, toNat_shiftRight_lt g.next.1, ofFloat_part (toNat_shiftRight_lt g.next.1)⟩

namespace Simplex

/-- A random probability vector is cut exactly, whatever its length and whatever is drawn.  It takes
one draw less than it has values and none for no value, and it does not depend on the order of the
draws. -/
theorem partition_exactlyCut {γ : Type} [Draws γ Float] (n : Nat) (g : γ)
    (h : ∀ i < n - 1, IsDraw (Draws.draw (skip i g)).1) :
    ExactlyCut n (drawn (n - 1) g) (ascending (drawn (n - 1) g)) (partition n g).1 ∧
      (partition n g : List Float × γ).2 = skip (n - 1) g ∧
      ∀ {γ' : Type} [Draws γ' Float] (g' : γ'), (drawn (n - 1) g').Perm (drawn (n - 1) g) →
        (partition n g' : List Float × γ').1 = (partition n g : List Float × γ).1 := by
  cases n with
  | zero =>
      have hnone : ascending (drawn 0 g) = [] := ascending_nil
      refine ⟨?_, rfl, fun _ _ => rfl⟩
      rw [Nat.zero_sub, hnone]
      exact exactlyCut_nil
  | succ n =>
      have hdraws : ∀ x ∈ drawn n g, IsDraw x :=
        List.forall_mem_map.mpr fun i hi => h i (List.mem_range.mp hi)
      have hlength : (drawn n g).length = n := by rw [drawn, List.length_map, List.length_range]
      have hcut := exactlyCut_pieces hdraws
      rw [hlength] at hcut
      refine ⟨?_, congrArg Prod.snd (partition_succ n g), fun g' hperm => ?_⟩
      · rw [partition_succ]
        exact hcut
      · rw [partition_succ, partition_succ]
        exact congrArg (pieces 0) (ascending_eq_of_perm hperm)

/-- The seeded generator gives a vector of four values. -/
theorem partition_exactlyCut_seeded :
    (∀ i < 4 - 1, IsDraw (Draws.draw (skip i (Generator.ofSeed 7))).1) ∧
      ExactlyCut 4 (drawn 3 (Generator.ofSeed 7)) (ascending (drawn 3 (Generator.ofSeed 7)))
        (partition 4 (Generator.ofSeed 7)).1 ∧
      (partition 4 (Generator.ofSeed 7) : List Float × Generator).2 =
        skip 3 (Generator.ofSeed 7) ∧
      ∀ {γ' : Type} [Draws γ' Float] (g' : γ'),
        (drawn 3 g').Perm (drawn 3 (Generator.ofSeed 7)) →
        (partition 4 g' : List Float × γ').1 =
          (partition 4 (Generator.ofSeed 7) : List Float × Generator).1 := by
  have hdraws : ∀ i < 4 - 1, IsDraw (Draws.draw (skip i (Generator.ofSeed 7))).1 :=
    fun i _ => Generator.isDraw _
  exact ⟨hdraws, partition_exactlyCut 4 (Generator.ofSeed 7) hdraws⟩

end Simplex

end Linkage
