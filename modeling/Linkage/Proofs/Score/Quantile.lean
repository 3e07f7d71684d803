import Linkage.Proofs.Exact.Extended
import Linkage.Proofs.Score.Shelf

/-
# Quantiles are the scores at nearest ranks

A quantile is found without sorting: the buckets are gone along and their pairs counted until the
place is reached.  The bucket where this happens is the one whose score has less pairs below it than
the place, and at least as many that are not above it.  Both numbers are about the pairs and not
about the buckets, so that they are the same for the sorted list of all scores, and say there which
score stands at the place.

The place is computed from the share and the number of pairs.  That it is one of the places of the
pairs needs nothing from this arithmetic; that it is the nearest rank needs the exact product.
-/

namespace Linkage

open Std (TransOrd)
open Std.OrientedCmp Std.TransCmp

/-! ## Sorted lists -/

/-- The elements with a property of a beginning are the first ones. -/
theorem getElem_iff_lt_countP {β : Type} {p : β → Bool} {l : List β}
    (h : l.Pairwise fun a b => p b = true → p a = true) {i : Nat} (hi : i < l.length) :
    p l[i] = true ↔ i < l.countP p := by
  induction l generalizing i with
  | nil => cases hi
  | cons x l ih =>
      have hl := (List.pairwise_cons.mp h).2
      cases hx : p x with
      | true =>
          rw [List.countP_cons_of_pos hx]
          cases i with
          | zero => simp [hx]
          | succ i =>
              rw [List.getElem_cons_succ, ih hl]
              omega
      | false =>
          have hnil := filter_eq_nil_of_head h hx
          rw [List.countP_cons_of_neg (by simp [hx]), List.countP_eq_length_filter, hnil]
          cases i with
          | zero => simp [hx]
          | succ i =>
              have hmem := List.getElem_mem (Nat.lt_of_succ_lt_succ hi)
              have hnot := List.filter_eq_nil_iff.mp hnil _ hmem
              simpa using hnot

variable {α : Type} [Ord α]

/-- In a sorted list the elements that are less come before those that are equal, and these before
those that are greater. -/
theorem compare_getElem [TransOrd α] {l : List α} (h : l.Pairwise fun x y => (compare x y).isLE)
    {s : α} {i : Nat} (hi : i < l.length) (hlow : l.countP (compare · s == .lt) ≤ i)
    (hhigh : i < l.countP fun x => (compare x s).isLE) : compare l[i] s = .eq := by
  have hless : l.Pairwise fun x y => (compare y s == .lt) = true → (compare x s == .lt) = true :=
    h.imp fun hxy hy => beq_iff_eq.mpr (lt_of_isLE_of_lt hxy (eq_of_beq hy))
  have hmost : l.Pairwise fun x y => (compare y s).isLE = true → (compare x s).isLE = true :=
    h.imp fun hxy hy => isLE_trans hxy hy
  have hnotless := (getElem_iff_lt_countP hless hi).not.mpr (Nat.not_lt.mpr hlow)
  have hnotmore := (getElem_iff_lt_countP hmost hi).mpr hhigh
  cases hc : compare l[i] s with
  | lt => exact absurd (beq_iff_eq.mpr hc) hnotless
  | eq => rfl
  | gt =>
      rw [hc] at hnotmore
      cases hnotmore

/-! ## Going along the buckets -/

namespace ScoreMap

omit [Ord α] in
theorem pairCount_cons (b : Bucket α) (bs : List (Bucket α)) :
    pairCount (b :: bs) = b.pairs.size + pairCount bs := rfl

omit [Ord α] in
theorem pairCount_append (bs cs : List (Bucket α)) :
    pairCount (bs ++ cs) = pairCount bs + pairCount cs := by
  rw [pairCount, List.map_append]
  exact List.sum_append

omit [Ord α] in
theorem pairCount_pos {b : Bucket α} (hb : b.pairs.toList ≠ []) (bs : List (Bucket α)) :
    0 < pairCount (b :: bs) := by
  have hsize := List.length_pos_iff.mpr hb
  rw [Array.length_toList] at hsize
  rw [pairCount_cons]
  omega

omit [Ord α] in
theorem scoreAt_eq_some {place seen : Nat} {bs : List (Bucket α)} (hlow : seen < place)
    (hhigh : place ≤ seen + pairCount bs) :
    ∃ before b after, bs = before ++ b :: after ∧ scoreAt place seen bs = some b.score ∧
      seen + pairCount before < place ∧ place ≤ seen + pairCount (before ++ [b]) := by
  induction bs generalizing seen with
  | nil => exact absurd hhigh (by simp [pairCount]; omega)
  | cons b bs ih =>
      rw [scoreAt]
      split
      case isTrue hreached => exact ⟨[], b, bs, rfl, rfl, hlow, hreached⟩
      case isFalse hfurther =>
        rw [pairCount_cons] at hhigh
        obtain ⟨before, c, after, rfl, hscore, hbefore, hat⟩ :=
          ih (Nat.lt_of_not_le hfurther) (by omega)
        refine ⟨b :: before, c, after, rfl, hscore, ?_, ?_⟩
        · rw [pairCount_cons]
          omega
        · rw [List.cons_append, pairCount_cons]
          omega

variable {before after : List (Bucket α)} {b : Bucket α}

theorem filter_below [TransOrd α] (h : Bucket.Ascending (before ++ b :: after)) :
    (before ++ b :: after).filter (fun c => compare c.score b.score == .lt) = before := by
  obtain ⟨-, hafter, hbefore⟩ := List.pairwise_append.mp h
  have hkept : ∀ c ∈ before, (compare c.score b.score == .lt) = true := fun c hc =>
    beq_iff_eq.mpr (hbefore c hc b List.mem_cons_self)
  have hdropped : ∀ c ∈ b :: after, ¬ (compare c.score b.score == .lt) = true := by
    intro c hc
    rcases List.mem_cons.mp hc with rfl | hc
    · simp
    · simp [gt_of_lt ((List.pairwise_cons.mp hafter).1 c hc)]
  rw [List.filter_append, List.filter_eq_self.mpr hkept, List.filter_eq_nil_iff.mpr hdropped,
    List.append_nil]

theorem filter_upTo [TransOrd α] (h : Bucket.Ascending (before ++ b :: after)) :
    (before ++ b :: after).filter (fun c => (compare c.score b.score).isLE) = before ++ [b] := by
  obtain ⟨-, hafter, hbefore⟩ := List.pairwise_append.mp h
  have hkept : ∀ c ∈ before ++ [b], (compare c.score b.score).isLE = true := by
    intro c hc
    rcases List.mem_append.mp hc with hc | hc
    · rw [hbefore c hc b List.mem_cons_self]
      rfl
    · rw [List.mem_singleton.mp hc]
      simp
  have hdropped : ∀ c ∈ after, ¬ (compare c.score b.score).isLE = true := by
    intro c hc
    simp [gt_of_lt ((List.pairwise_cons.mp hafter).1 c hc)]
  rw [List.append_cons, List.filter_append, List.filter_eq_self.mpr hkept,
    List.filter_eq_nil_iff.mpr hdropped, List.append_nil]

variable {names : List (String × String)} {ps : List (ScoredPair α)} {place : Nat}

/-- The score at a place has less pairs below it than the place, and so many up to it. -/
theorem exists_scoreAt [TransOrd α] (hlow : 0 < place) (hhigh : place ≤ ps.length) :
    ∃ s, scoreAt place 0 (ofList names ps).buckets = some s ∧
      ps.countP (fun p => compare p.score s == .lt) < place ∧
      place ≤ ps.countP fun p => (compare p.score s).isLE := by
  have hpairs := @pairCount_ofList _ _ names ps
  obtain ⟨before, b, after, hbuckets, hscore, hbefore, hat⟩ :=
    @scoreAt_eq_some _ place 0 (ofList names ps).buckets hlow (by omega)
  have hascending := @ascending_ofList _ _ names _ ps
  rw [hbuckets] at hascending
  refine ⟨b.score, hscore, ?_, ?_⟩
  · rw [← pairCount_filter_ofList (uniform_compare (· == .lt) b.score) ps, hbuckets,
      filter_below hascending]
    omega
  · rw [← pairCount_filter_ofList (uniform_compare Ordering.isLE b.score) ps, hbuckets,
      filter_upTo hascending]
    omega

theorem scoreAt_eq_getElem [TransOrd α] {sorted : List α}
    (hsorted : sorted.Pairwise fun x y => (compare x y).isLE)
    (hall : sorted.Perm (ps.map ScoredPair.score)) (hlow : 0 < place) (hhigh : place ≤ ps.length) :
    ∃ s t, scoreAt place 0 (ofList names ps).buckets = some s ∧ sorted[place - 1]? = some t ∧
      compare t s = .eq := by
  obtain ⟨s, hscore, hbelow, hupTo⟩ := @exists_scoreAt _ _ names ps place _ hlow hhigh
  have hlength : place - 1 < sorted.length := by
    rw [hall.length_eq, List.length_map]
    omega
  refine ⟨s, sorted[place - 1], hscore, List.getElem?_eq_getElem hlength, ?_⟩
  refine compare_getElem hsorted hlength ?_ ?_
  · rw [hall.countP_eq, List.countP_map]
    exact Nat.le_sub_one_of_lt hbelow
  · rw [hall.countP_eq, List.countP_map]
    exact Nat.lt_of_lt_of_le (Nat.sub_one_lt hlow.ne') hupTo

theorem scoreAt_mono [TransOrd α] {place' : Nat} (hlow : 0 < place) (hle : place ≤ place')
    (hhigh : place' ≤ ps.length) {s s' : α}
    (h : scoreAt place 0 (ofList names ps).buckets = some s)
    (h' : scoreAt place' 0 (ofList names ps).buckets = some s') : (compare s s').isLE := by
  obtain ⟨t, ht, hbelow, -⟩ := @exists_scoreAt _ _ names ps place _ hlow (by omega)
  obtain ⟨t', ht', -, hupTo⟩ := @exists_scoreAt _ _ names ps place' _ (by omega) hhigh
  obtain rfl : t = s := Option.some.inj (ht.symm.trans h)
  obtain rfl : t' = s' := Option.some.inj (ht'.symm.trans h')
  by_contra hnot
  have hgt : compare t t' = .gt := by
    cases hc : compare t t' <;> simp_all
  -- All pairs up to the later score would lie below the earlier one, and those are too few.
  have hfew : ps.countP (fun p => (compare p.score t').isLE) ≤
      ps.countP fun p => compare p.score t == .lt :=
    List.countP_mono_left fun p _ hp => beq_iff_eq.mpr (lt_of_isLE_of_lt hp (lt_of_gt hgt))
  omega

omit [Ord α] in
theorem scoreAt_one {bs : List (Bucket α)} (h : ∀ b ∈ bs, b.pairs.toList ≠ []) :
    scoreAt 1 0 bs = bs.head?.map Bucket.score := by
  cases bs with
  | nil => rfl
  | cons b bs =>
      have hsize : 1 ≤ 0 + b.pairs.size := by
        rw [Nat.zero_add, ← Array.length_toList]
        exact List.length_pos_iff.mpr (h b List.mem_cons_self)
      rw [scoreAt, if_pos hsize]
      rfl

omit [Ord α] in
theorem scoreAt_pairCount {bs : List (Bucket α)} (h : ∀ b ∈ bs, b.pairs.toList ≠ []) :
    scoreAt (pairCount bs) 0 bs = bs.getLast?.map Bucket.score := by
  cases bs with
  | nil => rfl
  | cons c cs =>
      obtain ⟨before, b, after, hbs, hscore, -, hat⟩ := @scoreAt_eq_some _ _ 0 (c :: cs)
        (pairCount_pos (h c List.mem_cons_self) cs) (by omega)
      rw [hscore, hbs]
      cases after with
      | nil => simp
      | cons d after =>
          -- Behind the bucket that is reached there are no more pairs.
          have hd : d ∈ c :: cs := by simp [hbs]
          have hpos := pairCount_pos (h d hd) after
          rw [hbs, List.append_cons, pairCount_append (before ++ [b])] at hat
          omega

/-! ## Quantiles -/

section Quantiles

variable {β : Type} [Arithmetic β] {q : β}

theorem quantilePlace_mem (q : β) {n : Nat} (hn : 0 < n) :
    0 < quantilePlace q n ∧ quantilePlace q n ≤ n := by
  rw [quantilePlace]
  omega

theorem exists_scoreAt_quantilePlace [TransOrd α] (hps : ps ≠ []) (q : β) :
    ∃ s, scoreAt (quantilePlace q (ofList names ps).size) 0 (ofList names ps).buckets = some s := by
  rw [size_ofList]
  obtain ⟨hpos, hle⟩ := quantilePlace_mem q (List.length_pos_iff.mpr hps)
  obtain ⟨s, hscore, -⟩ := @exists_scoreAt _ _ names ps _ _ hpos hle
  exact ⟨s, hscore⟩

theorem quantile_ofList_of_unit [TransOrd α] (hps : ps ≠ []) (hlow : 0 ≤ q) (hhigh : q ≤ 1) :
    (ofList names ps).quantile q =
      scoreAt (quantilePlace q ps.length) 0 (ofList names ps).buckets := by
  obtain ⟨s, hscore⟩ := @exists_scoreAt_quantilePlace _ _ names ps _ _ _ hps q
  have hnonempty : (ofList names ps).isEmpty = false := by
    rw [isEmpty, size_ofList]
    exact beq_eq_false_iff_ne.mpr (List.length_pos_iff.mpr hps).ne'
  rw [size_ofList] at hscore
  rw [quantile, hnonempty, size_ofList, hscore]
  simp [hlow, hhigh]

theorem quantile_ofList_eq_none_iff [TransOrd α] :
    (ofList names ps).quantile q = none ↔ ps = [] ∨ ¬ (0 ≤ q ∧ q ≤ 1) := by
  by_cases hps : ps = []
  · subst hps
    simp [quantile, ofList, empty, isEmpty]
  · by_cases hq : 0 ≤ q ∧ q ≤ 1
    · obtain ⟨s, hscore⟩ := @exists_scoreAt_quantilePlace _ _ names ps _ _ _ hps q
      rw [size_ofList] at hscore
      rw [quantile_ofList_of_unit hps hq.1 hq.2, hscore]
      simp [hps, hq]
    · have hout : (decide (0 ≤ q) && decide (q ≤ 1)) = false := by
        simpa using hq
      simp [quantile, hout, hq]

end Quantiles

/-! ### Exact shares -/

/-- With an exact product the place is the nearest rank. -/
theorem quantilePlace_number {r : ℝ} (hhigh : r ≤ 1) {n : Nat} (hn : 0 < n) :
    quantilePlace (Extended.number r) n = max 1 ⌈r * n⌉₊ := by
  have hceil : Arithmetic.ceil (Extended.number r * (n : Extended)) = ⌈r * n⌉₊ := rfl
  have hle : ⌈r * n⌉₊ ≤ n := Nat.ceil_le.mpr (mul_le_of_le_one_left (Nat.cast_nonneg n) hhigh)
  rw [quantilePlace, hceil]
  omega

theorem quantile_number [TransOrd α] {r : ℝ} (hlow : 0 ≤ r) (hhigh : r ≤ 1) (hps : ps ≠ []) :
    (ofList names ps).quantile (Extended.number r) =
      scoreAt (max 1 ⌈r * ps.length⌉₊) 0 (ofList names ps).buckets := by
  have hunit := Extended.unit_iff.mpr ⟨r, rfl, hlow, hhigh⟩
  rw [quantile_ofList_of_unit hps hunit.1 hunit.2,
    quantilePlace_number hhigh (List.length_pos_iff.mpr hps)]

omit [Ord α] in
theorem rank_le_length {r : ℝ} (hhigh : r ≤ 1) (hps : ps ≠ []) :
    max 1 ⌈r * ps.length⌉₊ ≤ ps.length := by
  have hlength := List.length_pos_iff.mpr hps
  rw [← quantilePlace_number hhigh hlength]
  exact (quantilePlace_mem _ hlength).2

theorem ne_nil_of_quantile [TransOrd α] {β : Type} [Arithmetic β] {q : β} {s : α}
    (h : (ofList names ps).quantile q = some s) : ps ≠ [] := by
  rintro rfl
  rw [quantile_ofList_eq_none_iff.mpr (.inl rfl)] at h
  cases h

theorem quantile_mono [TransOrd α] {r r' : ℝ} (hlow : 0 ≤ r) (hle : r ≤ r') (hhigh : r' ≤ 1)
    {s s' : α} (h : (ofList names ps).quantile (Extended.number r) = some s)
    (h' : (ofList names ps).quantile (Extended.number r') = some s') : (compare s s').isLE := by
  have hps := ne_nil_of_quantile h
  rw [quantile_number hlow (hle.trans hhigh) hps] at h
  rw [quantile_number (hlow.trans hle) hhigh hps] at h'
  have hrank : ⌈r * ps.length⌉₊ ≤ ⌈r' * ps.length⌉₊ :=
    Nat.ceil_mono (mul_le_mul_of_nonneg_right hle (Nat.cast_nonneg _))
  exact scoreAt_mono (by omega) (by omega) (rank_le_length hhigh hps) h h'

theorem quantile_zero [TransOrd α] :
    (ofList names ps).quantile (0 : Extended) = (ofList names ps).minScore := by
  rw [Extended.zero_eq]
  by_cases hps : ps = []
  · subst hps
    rw [quantile_ofList_eq_none_iff.mpr (.inl rfl)]
    rfl
  · have hrank : max 1 ⌈(0 : ℝ) * ps.length⌉₊ = 1 := by simp
    rw [quantile_number le_rfl zero_le_one hps, hrank, scoreAt_one occupied_ofList, minScore]

theorem quantile_one [TransOrd α] :
    (ofList names ps).quantile (1 : Extended) = (ofList names ps).maxScore := by
  change (ofList names ps).quantile (Extended.number 1) = _
  by_cases hps : ps = []
  · subst hps
    rw [quantile_ofList_eq_none_iff.mpr (.inl rfl)]
    rfl
  · have hlength := List.length_pos_iff.mpr hps
    have hrank : max 1 ⌈(1 : ℝ) * ps.length⌉₊ = pairCount (ofList names ps).buckets := by
      rw [one_mul, Nat.ceil_natCast, pairCount_ofList]
      omega
    rw [quantile_number zero_le_one le_rfl hps, hrank, scoreAt_pairCount occupied_ofList, maxScore]

end ScoreMap

/-! ## After any moves -/

theorem Score.isLE_eq (x y : Float) : (compare x y).isLE = Score.atLeast y x :=
  (Score.isLE_compare y x).trans (Score.compare_ne_lt y x)

/-- The scores of some pairs in ascending order. -/
def Score.sorted (ps : List (ScoredPair Float)) : List Float :=
  (ps.map ScoredPair.score).mergeSort fun x y => Score.atLeast y x

theorem Score.pairwise_sorted (ps : List (ScoredPair Float)) :
    (Score.sorted ps).Pairwise fun x y => (compare x y).isLE = true := by
  simp only [Score.sorted, ← Score.isLE_eq]
  refine List.pairwise_mergeSort (fun x y z => isLE_trans) (fun x y => ?_) _
  rw [Score.isLE_compare x y]
  cases compare x y <;> rfl

variable {ι : Type} [DecidableEq ι]

/-- After any moves a score map has a quantile just for the shares between 0 and 1, if it holds any
pairs, and never for want of a bucket where the place is reached.  The quantile equals the score
that stands at the nearest rank among the scores of all pairs in ascending order.  It does not fall
as the share grows, and it goes from the least to the greatest score. -/
theorem Shelf.quantile_nearest_rank (names : ι → List (String × String))
    (moves : List (Move ι Float)) (i : ι) :
    let m := maps names moves i
    let n := m.toList.length
    ((∀ q : Extended, m.quantile q = none ↔
        m.toList = [] ∨ ¬ ∃ r : ℝ, q = .number r ∧ 0 ≤ r ∧ r ≤ 1) ∧
      ∀ x : Float, m.quantile x = none ↔ m.toList = [] ∨ ¬ (0.0 ≤ x ∧ x ≤ 1.0)) ∧
    (∀ r : ℝ, 0 ≤ r → r ≤ 1 → m.toList ≠ [] → ∃ s t, m.quantile (Extended.number r) = some s ∧
      (Score.sorted m.toList)[max 1 ⌈r * n⌉₊ - 1]? = some t ∧ Score.same t s = true) ∧
    (∀ r r' : ℝ, 0 ≤ r → r ≤ r' → r' ≤ 1 → ∀ s s', m.quantile (Extended.number r) = some s →
      m.quantile (Extended.number r') = some s' → Score.atLeast s' s = true) ∧
    (m.quantile (0 : Extended) = m.minScore ∧ m.quantile (1 : Extended) = m.maxScore) ∧
    (m.toList ≠ [] →
      (∀ q : Extended,
        ∃ s, ScoreMap.scoreAt (ScoreMap.quantilePlace q m.size) 0 m.buckets = some s) ∧
      ∀ x : Float,
        ∃ s, ScoreMap.scoreAt (ScoreMap.quantilePlace x m.size) 0 m.buckets = some s) := by
  simp only [maps_eq]
  generalize ledgers moves i = ps
  generalize names i = names
  have hperm := @ScoreMap.toList_ofList_perm _ _ names ps
  have hnil : (ScoreMap.ofList names ps).toList = [] ↔ ps = [] := by
    rw [← List.length_eq_zero_iff, hperm.length_eq, List.length_eq_zero_iff]
  have hsorted : (Score.sorted (ScoreMap.ofList names ps).toList).Perm (ps.map ScoredPair.score) :=
    (List.mergeSort_perm _ _).trans (hperm.map _)
  rw [hperm.length_eq, ne_eq, hnil]
  refine ⟨⟨?_, ?_⟩, ?_, ?_, ⟨?_, ?_⟩, ?_⟩
  · intro q
    rw [ScoreMap.quantile_ofList_eq_none_iff, Extended.unit_iff]
  · exact fun x => ScoreMap.quantile_ofList_eq_none_iff
  · intro r hlow hhigh hps
    obtain ⟨s, t, hscore, hat, hsame⟩ := @ScoreMap.scoreAt_eq_getElem _ _ names ps _ _ _
      (Score.pairwise_sorted _) hsorted (by omega) (ScoreMap.rank_le_length hhigh hps)
    rw [← ScoreMap.quantile_number hlow hhigh hps] at hscore
    refine ⟨s, t, hscore, hat, ?_⟩
    rw [← Score.compare_eq_eq, hsame]
    rfl
  · intro r r' hlow hle hhigh s s' hs hs'
    rw [← Score.isLE_eq]
    exact ScoreMap.quantile_mono hlow hle hhigh hs hs'
  · exact ScoreMap.quantile_zero
  · exact ScoreMap.quantile_one
  · exact fun hps => ⟨ScoreMap.exists_scoreAt_quantilePlace hps,
      ScoreMap.exists_scoreAt_quantilePlace hps⟩

end Linkage
