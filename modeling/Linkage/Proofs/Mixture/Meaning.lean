import Linkage.Proofs.Mixture.Difference
import Linkage.Proofs.Mixture.Distribution

/-
# What a score means

A weight of 0 is live if another class gives the same level weight: the class then excludes every
pattern with that level, and its log-likelihood is the lower end.  A weight of 0 that no class raises
says nothing.  So live zeros decide a score, by whether match classes or others have them.  Without
them a score sums, over the comparators whose level has weight, what the logarithms of the match
classes come to beyond those of the others.
-/

namespace Linkage

open Extended (number top bottom undefined)
open Finset (range Ico)
open PatternSpace

theorem sum_map_number_comp {β : Type} (f : β → ℝ) (xs : List β) :
    Arithmetic.sum (xs.map fun x => number (f x)) = number (xs.map f).sum := by
  rw [← sum_eq, ← sum_map_number, List.map_map]
  rfl

namespace Weights

/-- The weight that a class gives the level of a pattern at a comparator. -/
def weightOf (weights : Weights ℝ) (p : Pattern) (cls k : Nat) : ℝ :=
  cell (weights.getD cls []) k (levelAt p k)

/-- A weight of 0 for a level to which another class gives weight. -/
def IsLive (weights : Weights ℝ) (p : Pattern) (cls k : Nat) : Prop :=
  weights.weightOf p cls k = 0 ∧ ∃ other < weights.length, 0 < weights.weightOf p other k

/-- Whether some classes have a live zero at the levels of a pattern. -/
def HasLive (weights : Weights ℝ) (p : Pattern) (classes : Finset Nat) : Prop :=
  ∃ cls ∈ classes, ∃ k < p.length, weights.IsLive p cls k

variable {weights : Weights ℝ} {levels : List Nat} {p : Pattern} {cls k : Nat}

/-- Weights that are not negative, in the shape of some levels. -/
structure Sound (levels : List Nat) (weights : Weights ℝ) : Prop where
  fits : ∀ rows ∈ weights, RowsFit levels rows
  nonneg : ∀ rows ∈ weights, ∀ row ∈ rows, ∀ w ∈ row, 0 ≤ w

theorem Sound.entry (h : Sound levels weights) (hp : Fits levels p) (hcls : cls < weights.length)
    (hk : k < p.length) : ((extendRows (weights.getD cls []))[k]?).bind (·[levelAt p k]?) =
      some (number (weights.weightOf p cls k)) := by
  have hlevels : k < levels.length := hp.length_eq ▸ hk
  rw [weightOf, List.getD_eq_getElem _ _ hcls]
  exact (h.fits _ (List.getElem_mem hcls)).entry hlevels (levelAt_lt hp hlevels)

theorem Sound.weightOf_nonneg (h : Sound levels weights) (hp : Fits levels p)
    (hcls : cls < weights.length) (hk : k < p.length) : 0 ≤ weights.weightOf p cls k := by
  obtain ⟨hrow, -, hmem, -⟩ := entry_extendRows (h.entry hp hcls hk)
  rw [List.getD_eq_getElem _ _ hcls] at hrow hmem
  rw [List.getD_eq_getElem _ _ hrow] at hmem
  rw [weightOf, List.getD_eq_getElem _ _ hcls]
  exact h.nonneg _ (List.getElem_mem hcls) _ (List.getElem_mem hrow) _ hmem

theorem Sound.isSilent_iff (h : Sound levels weights) (hp : Fits levels p) (hk : k < p.length) :
    isSilent (weights.map extendRows) k (levelAt p k) = true ↔
      ∀ cls < weights.length, weights.weightOf p cls k = 0 := by
  have hentry : ∀ cls (hcls : cls < weights.length),
      (((extendRows weights[cls])[k]?).bind (·[levelAt p k]?)).all (· == 0) = true ↔
        weights.weightOf p cls k = 0 := by
    intro cls hcls
    rw [← List.getD_eq_getElem weights [] hcls, h.entry hp hcls hk]
    exact beq_real_iff_eq
  rw [isSilent, List.all_map, List.all_eq_true]
  constructor
  · intro hall cls hcls
    exact (hentry cls hcls).mp (hall _ (List.getElem_mem hcls))
  · intro hall rows hrows
    obtain ⟨cls, hcls, rfl⟩ := List.mem_iff_getElem.mp hrows
    exact (hentry cls hcls).mpr (hall cls hcls)

/-- What a comparator adds to the log-likelihood of a class without live zeros. -/
noncomputable def evidence (weights : Weights ℝ) (p : Pattern) (cls k : Nat) : ℝ :=
  if ∀ other < weights.length, weights.weightOf p other k = 0 then 0
  else Real.log (weights.weightOf p cls k)

/-- The log-likelihood of a pattern in a class. -/
noncomputable def classLikelihood (weights : Weights ℝ) (p : Pattern) (cls : Nat) : Extended :=
  logLikelihoodOf (logRows (weights.map extendRows) (extendRows (weights.getD cls []))) p

theorem Sound.selected_logRows (h : Sound levels weights) (hp : Fits levels p)
    (hcls : cls < weights.length) :
    selected (logRows (weights.map extendRows) (extendRows (weights.getD cls []))) p =
      (List.range p.length).map fun k =>
        if ∀ other < weights.length, weights.weightOf p other k = 0 then 0
        else Arithmetic.log (number (weights.weightOf p cls k)) := by
  refine (List.filterMap_congr fun k hk => ?_).trans (congrFun List.filterMap_eq_map _)
  have hk := List.mem_range.mp hk
  rw [entry_logRows, h.entry hp hcls hk, Option.map_some, Function.comp_apply]
  exact congrArg some (if_congr (h.isSilent_iff hp hk) rfl rfl)

theorem Sound.classLikelihood_of_live (h : Sound levels weights) (hp : Fits levels p)
    (hcls : cls < weights.length) (hlive : ∃ k < p.length, weights.IsLive p cls k) :
    weights.classLikelihood p cls = bottom := by
  rw [classLikelihood, logLikelihoodOf, h.selected_logRows hp hcls]
  refine Extended.sum_eq_bottom ?_ ?_
  · intro x hx
    obtain ⟨k, hk, rfl⟩ := List.mem_map.mp hx
    split
    · trivial
    · exact Extended.log_lt_top (h.weightOf_nonneg hp hcls (List.mem_range.mp hk))
  · obtain ⟨k, hk, hzero, other, hother, hpos⟩ := hlive
    refine List.mem_map.mpr ⟨k, List.mem_range.mpr hk, ?_⟩
    rw [if_neg fun hall => hpos.ne' (hall other hother), hzero]
    exact Extended.log_zero

theorem Sound.classLikelihood_of_not_live (h : Sound levels weights) (hp : Fits levels p)
    (hcls : cls < weights.length) (hlive : ¬ ∃ k < p.length, weights.IsLive p cls k) :
    weights.classLikelihood p cls = number (∑ k ∈ range p.length, weights.evidence p cls k) := by
  have hentry : ∀ k ∈ List.range p.length, (if ∀ other < weights.length, weights.weightOf p other k = 0
      then 0 else Arithmetic.log (number (weights.weightOf p cls k))) =
        number (weights.evidence p cls k) := by
    intro k hk
    have hk := List.mem_range.mp hk
    rw [evidence, apply_ite number]
    refine ite_congr rfl (fun _ => rfl) fun hsilent => Extended.log_number ?_
    refine (h.weightOf_nonneg hp hcls hk).lt_of_ne' fun hzero => ?_
    obtain ⟨other, hother, hne⟩ : ∃ other < weights.length, weights.weightOf p other k ≠ 0 := by
      simpa using hsilent
    exact hlive ⟨k, hk, hzero, other, hother, (h.weightOf_nonneg hp hother hk).lt_of_ne' hne⟩
  rw [classLikelihood, logLikelihoodOf, h.selected_logRows hp hcls, List.map_congr_left hentry,
    sum_map_number_comp]
  rfl

/-- Of some classes, those with live zeros decide what the log-likelihoods sum to. -/
theorem Sound.sum_classLikelihood (h : Sound levels weights) (hp : Fits levels p) (classes : List Nat)
    (those : Finset Nat) (hthose : ∀ cls, cls ∈ classes ↔ cls ∈ those)
    (hrange : ∀ cls ∈ those, cls < weights.length) :
    (weights.HasLive p those →
      Arithmetic.sum (classes.map (weights.classLikelihood p)) = bottom) ∧
    (¬ weights.HasLive p those →
      Arithmetic.sum (classes.map (weights.classLikelihood p)) =
        number (classes.map fun cls => ∑ k ∈ range p.length, weights.evidence p cls k).sum) := by
  have hclasses : ∀ cls ∈ classes, cls < weights.length := fun cls hcls =>
    hrange cls ((hthose cls).mp hcls)
  constructor
  · rintro ⟨cls, hcls, hlive⟩
    have hcls := (hthose cls).mpr hcls
    have hbottom := h.classLikelihood_of_live hp (hclasses cls hcls) hlive
    refine Extended.sum_eq_bottom ?_ (List.mem_map.mpr ⟨cls, hcls, hbottom⟩)
    intro x hx
    obtain ⟨other, hother, rfl⟩ := List.mem_map.mp hx
    by_cases hlive : ∃ k < p.length, weights.IsLive p other k
    · rw [h.classLikelihood_of_live hp (hclasses other hother) hlive]
      trivial
    · rw [h.classLikelihood_of_not_live hp (hclasses other hother) hlive]
      trivial
  · intro hnone
    have hnumber : ∀ cls ∈ classes, weights.classLikelihood p cls =
        number (∑ k ∈ range p.length, weights.evidence p cls k) := fun cls hcls =>
      h.classLikelihood_of_not_live hp (hclasses cls hcls) fun hlive =>
        hnone ⟨cls, (hthose cls).mp hcls, hlive⟩
    rw [List.map_congr_left hnumber, sum_map_number_comp]

/-- Without live zeros the evidence of a comparator comes from the classes that give the level
weight. -/
theorem Sound.sum_evidence (h : Sound levels weights) (hp : Fits levels p) (matchCount : Nat)
    (hclasses : 0 < weights.length)
    (hnone : ∀ cls < weights.length, ¬ ∃ k < p.length, weights.IsLive p cls k) :
    ∑ cls ∈ range matchCount, ∑ k ∈ range p.length, weights.evidence p cls k -
      ∑ cls ∈ Ico matchCount weights.length, ∑ k ∈ range p.length, weights.evidence p cls k =
    ∑ k ∈ range p.length with ∀ cls < weights.length, 0 < weights.weightOf p cls k,
      (∑ cls ∈ range matchCount, Real.log (weights.weightOf p cls k) -
        ∑ cls ∈ Ico matchCount weights.length, Real.log (weights.weightOf p cls k)) := by
  rw [Finset.sum_comm, Finset.sum_comm (s := Ico matchCount weights.length),
    ← Finset.sum_sub_distrib, Finset.sum_filter]
  refine Finset.sum_congr rfl fun k hk => ?_
  have hk := Finset.mem_range.mp hk
  split
  case isTrue hpos =>
    have hevidence : ∀ cls, weights.evidence p cls k = Real.log (weights.weightOf p cls k) :=
      fun cls => if_neg fun hzero => (hpos 0 hclasses).ne' (hzero 0 hclasses)
    simp only [hevidence]
  case isFalse hnot =>
    obtain ⟨cls, hcls, hle⟩ : ∃ cls < weights.length, weights.weightOf p cls k ≤ 0 := by
      simpa using hnot
    have hzero := hle.antisymm (h.weightOf_nonneg hp hcls hk)
    have hsilent : ∀ other < weights.length, weights.weightOf p other k = 0 := by
      intro other hother
      by_contra hne
      have hpos := (h.weightOf_nonneg hp hother hk).lt_of_ne' hne
      exact hnone cls hcls ⟨k, hk, hzero, other, hother, hpos⟩
    have hevidence : ∀ cls, weights.evidence p cls k = 0 := fun _ => if_pos hsilent
    simp only [hevidence, Finset.sum_const_zero, sub_zero]

end Weights

namespace Model

variable {c : RecordComparator} {weights : Weights ℝ} {matchCount : Nat} {m : Model Extended}
  {p : Pattern}

theorem take_eq_map_range {β : Type} (xs : List β) (d : β) {n : Nat} (hn : n ≤ xs.length) :
    xs.take n = (List.range n).map (xs.getD · d) := by
  refine List.ext_getElem (by simpa using hn) fun i hi hi' => ?_
  have hlt : i < xs.length := by simp at hi; omega
  simp [hlt]

theorem drop_eq_map_range' {β : Type} (xs : List β) (d : β) (n : Nat) :
    xs.drop n = (List.range' n (xs.length - n)).map (xs.getD · d) := by
  refine List.ext_getElem (by simp) fun i hi hi' => ?_
  have hlt : n + i < xs.length := by simp at hi; omega
  simp [hlt]

theorem sound_of_make (hmake : make c (weights.map extendRows) matchCount = .ok m)
    (hnonneg : ∀ rows ∈ weights, ∀ row ∈ rows, ∀ w ∈ row, 0 ≤ w) : Weights.Sound c.levels weights := by
  obtain ⟨-, hrows, -⟩ := make_eq_ok_iff.mp hmake
  refine ⟨fun rows hmem => ?_, hnonneg⟩
  have hrow := List.forall₂_map_left_iff.mp (hrows _ (List.mem_map_of_mem hmem))
  exact hrow.imp fun row n h => (List.length_map number).symm.trans h.1

theorem scorePattern_eq_range (hmake : make c (weights.map extendRows) matchCount = .ok m)
    (hp : Fits c.levels p) : m.scorePattern p =
      .ok (Arithmetic.sum ((List.range matchCount).map (weights.classLikelihood p)) -
        Arithmetic.sum ((List.range' matchCount (weights.length - matchCount)).map
          (weights.classLikelihood p))) := by
  obtain ⟨hclasses, -, hm⟩ := make_eq_ok_iff.mp hmake
  obtain ⟨-, -, hcount⟩ := checkClasses_eq_ok_iff.mp hclasses
  rw [List.length_map] at hcount
  have hlogs : m.logWeights = weights.map fun rows =>
      (Weights.logRows (weights.map extendRows) (extendRows rows)) := by
    rw [hm]
    exact (Weights.logs_eq_map _).trans List.map_map
  rw [(shaped_of_make hmake).scorePattern_eq_sub hp, hlogs, ← List.map_take, ← List.map_drop,
    take_eq_map_range weights [] (by rw [hm]; exact hcount.le), drop_eq_map_range' weights [],
    List.map_map, List.map_map, List.map_map, List.map_map, hm]
  rfl

/-- What the score of a pattern means.  If only match classes have live zeros it is the lower end, if
only others have it is the upper end, and if both have it is undefined.  Else it is a number: what the
logarithms of the match classes come to beyond those of the others, over the comparators to whose
level every class gives weight. -/
theorem scorePattern_meaning (hmake : make c (weights.map extendRows) matchCount = .ok m)
    (hnonneg : ∀ rows ∈ weights, ∀ row ∈ rows, ∀ w ∈ row, 0 ≤ w) (hp : Fits c.levels p) :
    (weights.HasLive p (range matchCount) → ¬ weights.HasLive p (Ico matchCount weights.length) →
      m.scorePattern p = .ok bottom) ∧
    (¬ weights.HasLive p (range matchCount) → weights.HasLive p (Ico matchCount weights.length) →
      m.scorePattern p = .ok top) ∧
    (weights.HasLive p (range matchCount) → weights.HasLive p (Ico matchCount weights.length) →
      m.scorePattern p = .ok undefined) ∧
    (¬ weights.HasLive p (range matchCount) → ¬ weights.HasLive p (Ico matchCount weights.length) →
      m.scorePattern p = .ok (number
        (∑ k ∈ range p.length with ∀ cls < weights.length, 0 < weights.weightOf p cls k,
          (∑ cls ∈ range matchCount, Real.log (weights.weightOf p cls k) -
            ∑ cls ∈ Ico matchCount weights.length, Real.log (weights.weightOf p cls k))))) := by
  have hsound := sound_of_make hmake hnonneg
  obtain ⟨hclasses, -, -⟩ := make_eq_ok_iff.mp hmake
  obtain ⟨htwo, -, hcount⟩ := checkClasses_eq_ok_iff.mp hclasses
  rw [List.length_map] at htwo hcount
  have hfirst := hsound.sum_classLikelihood hp (List.range matchCount) (range matchCount)
    (by simp) (by simp; omega)
  have hothers := hsound.sum_classLikelihood hp
    (List.range' matchCount (weights.length - matchCount)) (Ico matchCount weights.length)
    (by simp; omega) (by simp)
  rw [scorePattern_eq_range hmake hp]
  refine ⟨fun h h' => ?_, fun h h' => ?_, fun h h' => ?_, fun h h' => ?_⟩
  · rw [hfirst.1 h, hothers.2 h']
    rfl
  · rw [hfirst.2 h, hothers.1 h']
    rfl
  · rw [hfirst.1 h, hothers.1 h']
    rfl
  · have hnone : ∀ cls < weights.length, ¬ ∃ k < p.length, weights.IsLive p cls k := by
      intro cls hcls hlive
      rcases lt_or_ge cls matchCount with hmatch | hother
      · exact h ⟨cls, Finset.mem_range.mpr hmatch, hlive⟩
      · exact h' ⟨cls, Finset.mem_Ico.mpr ⟨hother, hcls⟩, hlive⟩
    rw [hfirst.2 h, hothers.2 h', Extended.number_sub,
      ← hsound.sum_evidence hp matchCount (by omega) hnone]
    rfl

/-! Two names, of which the last ones never differ. -/

noncomputable def lastNamesAgree : Weights ℝ :=
  [[[1 / 4, 1 - 1 / 4], [0, 1]], [[1 - 1 / 4, 1 / 4], [0, 1]]]

def twoNames : RecordComparator :=
  ⟨0, [⟨"first", "first", 0, 0, .exact⟩, ⟨"last", "last", 1, 1, .exact⟩], false, 4⟩

theorem nonneg_lastNames : ∀ rows ∈ lastNamesAgree, ∀ row ∈ rows, ∀ w ∈ row, 0 ≤ w := by
  norm_num [lastNamesAgree]

theorem make_lastNames : ∃ m, make twoNames (lastNamesAgree.map extendRows) 1 = .ok m := by
  have hfit : ∀ rows ∈ lastNamesAgree, RowsFit twoNames.levels rows := by
    intro rows hrows
    simp only [lastNamesAgree, List.mem_cons, List.not_mem_nil, or_false] at hrows
    rcases hrows with rfl | rfl <;> exact .cons rfl (.cons rfl .nil)
  have hsum : ∀ rows ∈ lastNamesAgree, ∀ row ∈ rows, row.sum = 1 := by
    norm_num [lastNamesAgree]
  exact ⟨_, (make_eq_ok rfl rfl (Weights.stochastic_map_extendRows hfit nonneg_lastNames hsum)).1⟩

/-- What no class produces contributes nothing, so that the first names decide. -/
theorem scorePattern_meaning_lastNames :
    ∃ m, make twoNames (lastNamesAgree.map extendRows) 1 = .ok m ∧
      m.scorePattern [1, 0] = .ok (number (Real.log (3 / 4) - Real.log (1 / 4))) := by
  obtain ⟨m, hmake⟩ := make_lastNames
  have hfirst : lastNamesAgree.weightOf [1, 0] 0 0 = 3 / 4 := by
    have hrest : (1 : ℝ) - 1 / 4 = 3 / 4 := by norm_num
    exact hrest
  have hfirst' : lastNamesAgree.weightOf [1, 0] 1 0 = 1 / 4 := rfl
  have hlast : ∀ cls < 2, lastNamesAgree.weightOf [1, 0] cls 1 = 0 := by
    intro cls hcls
    obtain rfl | rfl : cls = 0 ∨ cls = 1 := by omega
    · rfl
    · rfl
  have hnone : ∀ classes ⊆ range 2, ¬ lastNamesAgree.HasLive [1, 0] classes := by
    rintro classes hsub ⟨cls, hcls, k, hk, hzero, other, hother, hpos⟩
    have hcls := Finset.mem_range.mp (hsub hcls)
    obtain rfl | rfl : k = 0 ∨ k = 1 := by change k < 2 at hk; omega
    · obtain rfl | rfl : cls = 0 ∨ cls = 1 := by omega
      · norm_num [hfirst] at hzero
      · norm_num [hfirst'] at hzero
    · exact hpos.ne' (hlast other hother)
  have hpositive : ∀ cls < lastNamesAgree.length, 0 < lastNamesAgree.weightOf [1, 0] cls 0 := by
    intro cls hcls
    obtain rfl | rfl : cls = 0 ∨ cls = 1 := by change cls < 2 at hcls; omega
    · norm_num [hfirst]
    · norm_num [hfirst']
  have hsilent : ¬ ∀ cls < lastNamesAgree.length, 0 < lastNamesAgree.weightOf [1, 0] cls 1 :=
    fun h => (h 0 (by decide)).ne' (hlast 0 (by decide))
  have hlength : ([1, 0] : Pattern).length = 2 := rfl
  have hother : Ico 1 lastNamesAgree.length = {1} := rfl
  have hp : Fits twoNames.levels [1, 0] := .cons (by decide) (.cons (by decide) .nil)
  refine ⟨m, hmake, ?_⟩
  obtain ⟨-, -, -, hnumber⟩ := scorePattern_meaning hmake nonneg_lastNames hp
  rw [hnumber (hnone _ (by decide)) (hnone _ (by decide)), Finset.sum_filter, hlength,
    Finset.sum_range_succ, Finset.sum_range_one, if_pos hpositive, if_neg hsilent, add_zero,
    Finset.sum_range_one, hother, Finset.sum_singleton, hfirst, hfirst']

end Model

end Linkage
