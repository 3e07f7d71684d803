import Linkage.Proofs.Join.Tally
import Linkage.Proofs.Mixture.Reorder

/-
# Expected counts of classes

The count of a pattern is distributed over the classes in proportion to the likelihoods they give it,
and a pattern that no class produces is passed over.  So what the classes are expected to have adds up
to the pairs whose patterns some class produces.  Only proportions matter: priors that are all
multiplied by a number distribute the same, and classes in another order are expected to have the same
counts in that order.

Nothing here takes a logarithm, so that the numbers can be real numbers.
-/

namespace Linkage

open PatternSpace
open Problem (likelihood)

/-- A class of a model: its prior and its rows. -/
abbrev MixtureClass :=
  ℝ × List (List ℝ)

namespace MixtureClass

variable {classes : List MixtureClass} {p : Pattern}

def Nonneg (classes : List MixtureClass) : Prop :=
  ∀ cls ∈ classes, 0 ≤ cls.1 ∧ ∀ row ∈ cls.2, ∀ w ∈ row, 0 ≤ w

/-- The weight that some classes give a pattern together. -/
noncomputable def weightOf (classes : List MixtureClass) (p : Pattern) : ℝ :=
  (classes.map fun cls => likelihood cls.1 cls.2 p).sum

/-- Whether some class produces a pattern. -/
def Produces (classes : List MixtureClass) (p : Pattern) : Prop :=
  ∃ cls ∈ classes, 0 < likelihood cls.1 cls.2 p

/-- The share that a class has in a pattern; 0 if no class produces it. -/
noncomputable def share (classes : List MixtureClass) (p : Pattern) (cls : MixtureClass) : ℝ :=
  likelihood cls.1 cls.2 p / weightOf classes p

/-- How many of some pairs are expected in a class. -/
noncomputable def expected (classes : List MixtureClass) (entries : List Tally.Entry)
    (cls : MixtureClass) : ℝ :=
  (entries.map fun e => (e.count : ℝ) * share classes e.pattern cls).sum

theorem Nonneg.likelihood_nonneg (h : Nonneg classes) (p : Pattern) :
    ∀ cls ∈ classes, 0 ≤ likelihood cls.1 cls.2 p := fun cls hcls =>
  Problem.likelihood_nonneg (h cls hcls).1 (h cls hcls).2

theorem Nonneg.weightOf_nonneg (h : Nonneg classes) (p : Pattern) : 0 ≤ weightOf classes p := by
  refine List.sum_nonneg fun x hx => ?_
  obtain ⟨cls, hcls, rfl⟩ := List.mem_map.mp hx
  exact h.likelihood_nonneg p cls hcls

theorem Nonneg.weightOf_pos_iff (h : Nonneg classes) : 0 < weightOf classes p ↔ Produces classes p := by
  constructor
  · intro hpos
    by_contra hnone
    refine hpos.ne' (List.sum_eq_zero fun x hx => ?_)
    obtain ⟨cls, hcls, rfl⟩ := List.mem_map.mp hx
    exact (not_lt.mp fun hcls' => hnone ⟨cls, hcls, hcls'⟩).antisymm (h.likelihood_nonneg p cls hcls)
  · rintro ⟨cls, hcls, hpos⟩
    refine hpos.trans_le (List.single_le_sum ?_ _ (List.mem_map_of_mem hcls))
    intro x hx
    obtain ⟨other, hother, rfl⟩ := List.mem_map.mp hx
    exact h.likelihood_nonneg p other hother

theorem Nonneg.share_nonneg (h : Nonneg classes) (p : Pattern) {cls : MixtureClass}
    (hcls : cls ∈ classes) : 0 ≤ share classes p cls :=
  div_nonneg (h.likelihood_nonneg p cls hcls) (h.weightOf_nonneg p)

theorem Nonneg.expected_nonneg (h : Nonneg classes) (entries : List Tally.Entry)
    {cls : MixtureClass} (hcls : cls ∈ classes) : 0 ≤ expected classes entries cls := by
  refine List.sum_nonneg fun x hx => ?_
  obtain ⟨e, -, rfl⟩ := List.mem_map.mp hx
  exact mul_nonneg e.count.cast_nonneg (h.share_nonneg e.pattern hcls)

open Classical in
theorem Nonneg.sum_share (h : Nonneg classes) (p : Pattern) :
    (classes.map (share classes p)).sum = if Produces classes p then 1 else 0 := by
  have hsum : (classes.map (share classes p)).sum = weightOf classes p / weightOf classes p := by
    change (classes.map fun cls => likelihood cls.1 cls.2 p / weightOf classes p).sum = _
    simp only [div_eq_mul_inv, List.sum_map_mul_right]
    rfl
  rw [hsum]
  split
  case isTrue hproduces => exact div_self (h.weightOf_pos_iff.mpr hproduces).ne'
  case isFalse hnone =>
    have hzero : weightOf classes p = 0 :=
      (not_lt.mp fun hpos => hnone (h.weightOf_pos_iff.mp hpos)).antisymm (h.weightOf_nonneg p)
    rw [hzero, div_zero]

open Classical in
/-- What is expected in the classes are the pairs whose patterns some class produces. -/
theorem Nonneg.sum_expected (h : Nonneg classes) (entries : List Tally.Entry) :
    (classes.map (expected classes entries)).sum =
      (((entries.filter fun e => Produces classes e.pattern).map Tally.Entry.count).foldr
        (· + ·) 0 : Nat) := by
  induction entries with
  | nil => exact List.sum_map_zero.trans Nat.cast_zero.symm
  | cons e entries ih =>
      have hcons : expected classes (e :: entries) = fun cls =>
          (e.count : ℝ) * share classes e.pattern cls + expected classes entries cls :=
        funext fun _ => List.sum_cons
      rw [hcons, List.sum_map_add, List.sum_map_mul_left, h.sum_share, ih, List.filter_cons]
      by_cases hproduces : Produces classes e.pattern
      · simp [hproduces]
      · simp [hproduces]

/-! ## Proportions -/

theorem likelihood_mul (a prior : ℝ) (rows : List (List ℝ)) (p : Pattern) :
    likelihood (a * prior) rows p = a * likelihood prior rows p := by
  rw [Problem.likelihood_eq, Problem.likelihood_eq, mul_assoc]

theorem expected_scale {a : ℝ} (ha : a ≠ 0) (classes : List MixtureClass)
    (entries : List Tally.Entry) (cls : MixtureClass) :
    expected (classes.map (Prod.map (a * ·) id)) entries (Prod.map (a * ·) id cls) =
      expected classes entries cls := by
  have hweight : ∀ p, weightOf (classes.map (Prod.map (a * ·) id)) p = a * weightOf classes p := by
    intro p
    rw [weightOf, weightOf, ← List.sum_map_mul_left, List.map_map]
    exact congrArg List.sum (List.map_congr_left fun cls _ => likelihood_mul a cls.1 cls.2 p)
  simp only [expected, share, hweight, Prod.map, id, likelihood_mul, mul_div_mul_left _ _ ha]

theorem expected_perm {classes classes' : List MixtureClass} (h : classes.Perm classes')
    (entries : List Tally.Entry) : expected classes entries = expected classes' entries := by
  have hweight : weightOf classes = weightOf classes' := funext fun p => (h.map _).sum_eq
  funext cls
  simp only [expected, share, hweight]

end MixtureClass

open MixtureClass

/-- The cells that a pattern selects of rows of its shape. -/
theorem cells_eq_zip {levels : List Nat} {rows : List (List ℝ)} {p : Pattern}
    (hrows : RowsFit levels rows) (hp : Fits levels p) :
    cells rows p = .ok ((rows.zip p).map fun y => y.1.getD y.2 0) := by
  induction hp generalizing rows with
  | nil => cases hrows; rfl
  | @cons level n p ns hlevel _ ih =>
      cases hrows with
      | @cons row _ rows _ hrow hrows =>
          have hx : row[level]? = some (row.getD level 0) := by
            rw [List.getD_eq_getElem _ _ (hrow ▸ hlevel)]
            exact List.getElem?_eq_getElem (hrow ▸ hlevel)
          rw [cells_cons hx (ih hrows)]
          rfl

namespace Model

variable {c : RecordComparator} {m m' : Model ℝ} {priors : List ℝ} {t : Tally}

def classes (m : Model ℝ) (priors : List ℝ) : List MixtureClass :=
  priors.zip m.weights

theorem Coherent.length_classes (hm : m.Coherent c) (hpriors : m.priors = some priors) :
    (m.classes priors).length = m.classCount := by
  rw [classes, List.length_zip, hm.priors priors hpriors]
  exact min_self _

theorem Coherent.joint_eq (hm : m.Coherent c) {p : Pattern} (hp : Fits c.levels p) :
    joint m.weights priors p =
      .ok ((m.classes priors).map fun cls => likelihood cls.1 cls.2 p) := by
  refine Traversal.mapM_eq_ok_map fun cls hcls => ?_
  have hrows : RowsFit c.levels cls.2 :=
    (hm.rows cls.2 (List.of_mem_zip hcls).2).imp fun _ _ h => h.1
  simp only [cells_eq_zip hrows hp]
  exact congrArg Except.ok List.foldl_map

theorem Coherent.distribute_eq (hm : m.Coherent c) (hnonneg : Nonneg (m.classes priors))
    {e : Tally.Entry} (hp : Fits c.levels e.pattern) (counts : MixtureClass → ℝ) :
    m.distribute priors ((m.classes priors).map counts) e = .ok ((m.classes priors).map fun cls =>
      counts cls + (e.count : ℝ) * share (m.classes priors) e.pattern cls) := by
  refine (Traversal.bind_of_ok (hm.joint_eq hp)).trans ?_
  simp only [sum_eq]
  split
  case isTrue =>
    rw [List.zipWith_map, List.zipWith_self]
    simp only [share, mul_div_assoc]
    rfl
  case isFalse hnot =>
    -- No class has a share of what the classes give no weight.
    have hzero : weightOf (m.classes priors) e.pattern = 0 :=
      (not_lt.mp hnot).antisymm (hnonneg.weightOf_nonneg e.pattern)
    simp only [share, hzero, div_zero, mul_zero, add_zero]
    rfl

theorem Coherent.foldlM_distribute (hm : m.Coherent c) (hnonneg : Nonneg (m.classes priors))
    {entries : List Tally.Entry} (hentries : ∀ e ∈ entries, Fits c.levels e.pattern)
    (counts : MixtureClass → ℝ) :
    entries.foldlM (m.distribute priors) ((m.classes priors).map counts) =
      .ok ((m.classes priors).map fun cls =>
        counts cls + expected (m.classes priors) entries cls) := by
  induction entries generalizing counts with
  | nil => simp only [expected, List.map_nil, List.sum_nil, add_zero]; rfl
  | cons e entries ih =>
      obtain ⟨hp, hentries⟩ := List.forall_mem_cons.mp hentries
      rw [List.foldlM_cons, hm.distribute_eq hnonneg hp]
      refine (ih hentries _).trans (congrArg Except.ok (List.map_congr_left fun cls _ => ?_))
      rw [expected, expected, List.map_cons, List.sum_cons, add_assoc]

theorem Coherent.classCounts_eq (hm : m.Coherent c) (hpriors : m.priors = some priors)
    (hnonneg : Nonneg (m.classes priors)) (ht : ∀ e ∈ t.entries, Fits c.levels e.pattern) :
    m.classCounts t =
      .ok (some ((m.classes priors).map (expected (m.classes priors) t.entries))) := by
  have hstart : List.replicate m.classCount (0 : ℝ) = (m.classes priors).map fun _ => 0 := by
    rw [List.map_const', hm.length_classes hpriors]
  have hfold := hm.foldlM_distribute hnonneg ht fun _ => 0
  simp only [zero_add] at hfold
  simp only [classCounts, hpriors]
  rw [← hstart] at hfold
  exact Traversal.bind_of_ok hfold

/-! ## Other priors, other orders -/

theorem Coherent.classCounts_scale (hm : m.Coherent c) (hpriors : m.priors = some priors)
    (hnonneg : Nonneg (m.classes priors)) (ht : ∀ e ∈ t.entries, Fits c.levels e.pattern) {a : ℝ}
    (ha : 0 < a) : ∃ m', m.withPriors (priors.map (a * ·)) = .ok m' ∧
      m'.classCounts t = m.classCounts t := by
  have hmake := withPriors_eq ((List.length_map (a * ·)).trans (hm.priors priors hpriors))
  have hclasses : m.classes (priors.map (a * ·)) =
      (m.classes priors).map (Prod.map (a * ·) id) := List.zip_map_left
  have hnonneg' : Nonneg (m.classes (priors.map (a * ·))) := by
    rw [hclasses]
    intro _ h
    obtain ⟨cls, hcls, rfl⟩ := List.mem_map.mp h
    exact ⟨mul_nonneg ha.le (hnonneg cls hcls).1, (hnonneg cls hcls).2⟩
  refine ⟨_, hmake, ?_⟩
  rw [(hm.withPriors hmake).classCounts_eq rfl hnonneg' ht, hm.classCounts_eq hpriors hnonneg ht]
  change Except.ok (some ((m.classes (priors.map (a * ·))).map
    (expected (m.classes (priors.map (a * ·))) t.entries))) = _
  rw [hclasses, List.map_map]
  refine congrArg (Except.ok ∘ some) (List.map_congr_left fun cls _ => ?_)
  exact expected_scale ha.ne' _ _ cls

theorem pick_zip {β δ : Type} (order : List Nat) {xs : List β} {ys : List δ}
    (h : xs.length = ys.length) : pick order (xs.zip ys) = (pick order xs).zip (pick order ys) := by
  induction order with
  | nil => rfl
  | cons j order ih =>
      simp only [pick] at ih ⊢
      rw [List.filterMap_cons, List.filterMap_cons, List.filterMap_cons, ih]
      by_cases hj : j < xs.length
      · simp [hj, h ▸ hj]
      · simp [hj, h ▸ hj]

theorem Coherent.classCounts_reorder (hm : m.Coherent c) (hpriors : m.priors = some priors)
    (hnonneg : Nonneg (m.classes priors)) (ht : ∀ e ∈ t.entries, Fits c.levels e.pattern)
    {order : List Nat} (matchCount : Nat) (horder : order.Perm (List.range m.classCount)) :
    (m.reorder matchCount order).classCounts t =
      .ok (some (pick order ((m.classes priors).map (expected (m.classes priors) t.entries)))) := by
  have hclasses : (m.reorder matchCount order).classes (pick order priors) =
      pick order (m.classes priors) :=
    (pick_zip order (hm.priors priors hpriors)).symm
  have hperm : (pick order (m.classes priors)).Perm (m.classes priors) :=
    pick_perm (by rwa [hm.length_classes hpriors])
  have hnonneg' : Nonneg (pick order (m.classes priors)) := fun cls hcls =>
    hnonneg cls (hperm.mem_iff.mp hcls)
  have hpriors' : (m.reorder matchCount order).priors = some (pick order priors) :=
    congrArg (Option.map (pick order)) hpriors
  rw [(hm.reorder matchCount horder).classCounts_eq hpriors' (hclasses ▸ hnonneg') ht, hclasses,
    expected_perm hperm, pick_map]

open Classical in
/-- The expected counts of a model whose weights and priors are not negative.  There is one for every
class, none of them negative, and together they are the pairs whose patterns some class produces: all
pairs of the tally, if that is so of each of its patterns.  Priors that are all multiplied by a
positive number give the same counts, and making some classes the match classes orders the counts as it
orders the classes. -/
theorem classCounts_distribute (hm : m.Over c) (hpriors : m.priors = some priors)
    (hpriorsNonneg : ∀ prior ∈ priors, 0 ≤ prior)
    (hweights : ∀ rows ∈ m.weights, ∀ row ∈ rows, ∀ w ∈ row, 0 ≤ w)
    (htally : t.comparator = c ∧ t.Sound) :
    ∃ counts, m.classCounts t = .ok (some counts) ∧ counts.length = m.classCount ∧
      (∀ n ∈ counts, 0 ≤ n) ∧
      counts.sum = t.countOfAll (fun e => Produces (m.classes priors) e.pattern) ∧
      ((∀ e ∈ t.entries, Produces (m.classes priors) e.pattern) → counts.sum = t.total) ∧
      (∀ a > 0, ∃ m', m.withPriors (priors.map (a * ·)) = .ok m' ∧
        m'.classCounts t = .ok (some counts)) ∧
      ∀ first m', m.withMatchClasses first = .ok m' →
        m'.weights = pick (first ++ others m.classCount first) m.weights ∧
          m'.classCounts t = .ok (some (pick (first ++ others m.classCount first) counts)) := by
  have hcoherent := hm.coherent
  have hnonneg : Nonneg (m.classes priors) := fun cls hcls =>
    ⟨hpriorsNonneg _ (List.of_mem_zip hcls).1, hweights _ (List.of_mem_zip hcls).2⟩
  have ht : ∀ e ∈ t.entries, Fits c.levels e.pattern := by
    obtain ⟨rfl, hsound⟩ := htally
    exact fun e he => (hsound e he).1
  have hcounts := hcoherent.classCounts_eq hpriors hnonneg ht
  have hsum := hnonneg.sum_expected t.entries
  refine ⟨_, hcounts, ?_, ?_, hsum, ?_, ?_, ?_⟩
  · rw [List.length_map, hcoherent.length_classes hpriors]
  · intro n hn
    obtain ⟨cls, hcls, rfl⟩ := List.mem_map.mp hn
    exact hnonneg.expected_nonneg t.entries hcls
  · intro hall
    rw [hsum, List.filter_eq_self.mpr fun e he => decide_eq_true (hall e he)]
    rfl
  · intro a ha
    obtain ⟨m', hm', heq⟩ := hcoherent.classCounts_scale hpriors hnonneg ht ha
    exact ⟨m', hm', heq.trans hcounts⟩
  · intro first m' h
    obtain ⟨⟨-, -, hdistinct, hrange⟩, rfl⟩ := withMatchClasses_eq_ok_iff.mp h
    exact ⟨rfl, hcoherent.classCounts_reorder hpriors hnonneg ht first.length
      (classOrder_perm hrange hdistinct)⟩

/-! Two names, of which the last ones never differ, unless the data is wrong. -/

noncomputable def fewMatches : List ℝ :=
  [1 / 5, 1 - 1 / 5]

noncomputable def mostlyDifferent : Model ℝ :=
  ⟨twoNames, 1, lastNamesAgree, lastNamesAgree.logs, some fewMatches⟩

def meetings : Tally :=
  ⟨twoNames, [⟨1, [1, 0], 2⟩, ⟨3, [1, 1], 3⟩]⟩

theorem over_mostlyDifferent : mostlyDifferent.Over twoNames := by
  have hrow : ∀ x y : ℝ, x + y = 1 → Weights.RowOk [x, y] 2 := by
    intro x y hsum
    refine ⟨rfl, ?_⟩
    rw [sum_eq, abs_real]
    norm_num [hsum]
  have hrows : ∀ rows ∈ lastNamesAgree, List.Forall₂ Weights.RowOk rows twoNames.levels := by
    intro rows hrows
    simp only [lastNamesAgree, List.mem_cons, List.not_mem_nil, or_false] at hrows
    rcases hrows with rfl | rfl
    · exact .cons (hrow _ _ (by norm_num)) (.cons (hrow _ _ (by norm_num)) .nil)
    · exact .cons (hrow _ _ (by norm_num)) (.cons (hrow _ _ (by norm_num)) .nil)
  exact .withPriors (.make (make_eq_ok_iff.mpr ⟨rfl, hrows, rfl⟩)) (withPriors_eq rfl)

theorem sound_meetings : meetings.Sound := by
  simp [Tally.Sound, meetings, show twoNames.levels = [2, 2] from rfl, Fits]

theorem produces_mostlyDifferent (p : Pattern) :
    Produces (mostlyDifferent.classes fewMatches) p ↔
      0 < likelihood (1 / 5 : ℝ) [[1 / 4, 1 - 1 / 4], [0, 1]] p ∨
        0 < likelihood (1 - 1 / 5 : ℝ) [[1 - 1 / 4, 1 / 4], [0, 1]] p := by
  simp [Produces, classes, fewMatches, mostlyDifferent, lastNamesAgree]

open Classical in
/-- The two pairs whose last names differ are passed over. -/
theorem classCounts_distribute_meetings :
    mostlyDifferent.Over twoNames ∧ meetings.Sound ∧ meetings.total = 5 ∧
      ∃ (counts : List ℝ) (m : Model ℝ), mostlyDifferent.classCounts meetings = .ok (some counts) ∧
        counts.sum = 3 ∧ mostlyDifferent.withMatchClasses [1] = .ok m ∧
        m.classCounts meetings = .ok (some (pick [1, 0] counts)) := by
  have hpriors : ∀ prior ∈ fewMatches, 0 ≤ prior := by norm_num [fewMatches]
  obtain ⟨counts, hcounts, -, -, hsum, -, -, horder⟩ :=
    classCounts_distribute over_mostlyDifferent rfl hpriors nonneg_lastNames
      (t := meetings) ⟨rfl, sound_meetings⟩
  have hdiffer : ¬ Produces (mostlyDifferent.classes fewMatches) [1, 0] :=
    (produces_mostlyDifferent _).not.mpr (by norm_num [likelihood])
  have hagree : Produces (mostlyDifferent.classes fewMatches) [1, 1] :=
    (produces_mostlyDifferent _).mpr (by norm_num [likelihood])
  have hreorder : mostlyDifferent.withMatchClasses [1] = .ok (mostlyDifferent.reorder 1 [1, 0]) :=
    withMatchClasses_eq_ok_iff.mpr ⟨by decide, rfl⟩
  refine ⟨over_mostlyDifferent, sound_meetings, rfl, counts, _, hcounts, ?_, hreorder,
    (horder _ _ hreorder).2⟩
  rw [hsum]
  simp [Tally.countOfAll, meetings, hdiffer, hagree]

end Model

end Linkage
