import Linkage.Proofs.Double.Sum
import Linkage.Proofs.Mixture.Weights

/-
# When the score of a pattern is undefined

The logarithm of a weight of 0 is minus infinity, unless the weight is 0 in every class.  Such a
weight excludes a pattern from its class: the sum of the class goes below all numbers.  A match
class counts it downwards and another class upwards, so a score is undefined just for the patterns
that a match class and another class exclude, at the same level or at different ones.

The logarithm is a parameter, of which only its values at the ends are used.
-/

namespace Linkage

open PatternSpace Double

/-- Doubles with a logarithm that is given. -/
@[reducible] def doublesWith (log : Float → Float) : Arithmetic Float :=
  { (inferInstance : Arithmetic Float) with log := log }

/-- The logarithm of a weight: minus infinity for 0, and else not below that of the least double
above 0, which is about `-744.4`. -/
structure LogLaws (log : Float → Float) : Prop where
  zero : ∀ w : Float, w == 0 → log w = -1 / 0
  unit : ∀ w : Float, 0 < w → w ≤ 1 → -745 ≤ log w ∧ log w ≤ 0

/-- A pattern that a class excludes: the class gives one of its levels no weight, and another class
gives it some. -/
def Weights.Excludes (weights : Weights Float) (rows : List (List Float)) (p : Pattern) : Prop :=
  ∃ k level : Nat, p[k]? = some level ∧ weights.isSilent k level = false ∧
    ∃ w, (rows[k]?).bind (·[level]?) = some w ∧ w == 0

/-- A model from its weights, with a logarithm that is given. -/
def Model.makeWith (log : Float → Float) (c : RecordComparator) (weights : Weights Float)
    (matchCount : Nat) : Except Error (Model Float) :=
  @Model.make Float (doublesWith log) c weights matchCount

namespace Model

theorem makeWith_log : makeWith Float.log = make := rfl

variable {log : Float → Float}

/-- The logarithm of a weight goes below all numbers if the weight is 0 and some class has another,
and it goes nowhere else. -/
theorem ends_log (laws : LogLaws log) {silent : Bool} {w : Float} (hlow : 0 ≤ w) (hhigh : w ≤ 1) :
    Tame (-43) (if silent then 0 else log w) ∧
      (below (if silent then 0 else log w) = true ↔ silent = false ∧ w == 0) ∧
      above (if silent then 0 else log w) = false := by
  have hplain {x : Float} (h : Within (-43) (view x)) :
      Tame (-43) x ∧ below x = false ∧ above x = false :=
    ⟨fun _ => h, congrArg Prod.fst h.ends_eq, congrArg Prod.snd h.ends_eq⟩
  cases silent with
  | true =>
      obtain ⟨htame, hbelow, habove⟩ := hplain (x := 0) trivial
      simp [htame, hbelow, habove]
  | false =>
      simp only [Bool.false_eq_true, if_false, true_and]
      cases hzero : w == 0 with
      | true =>
          rw [laws.zero w hzero]
          exact ⟨fun h => absurd h (by decide), by decide, by decide⟩
      | false =>
          obtain ⟨hleast, hmost⟩ := laws.unit w (pos_of_nonneg hlow hzero) hhigh
          obtain ⟨htame, hbelow, habove⟩ := hplain (within_of_le hleast hmost)
          simp [htame, hbelow, habove]

/-- The sum of a class goes below all numbers if the class excludes the pattern. -/
theorem ends_cells (laws : LogLaws log) (weights : Weights Float) {levels : List Nat}
    {rows : List (List Float)} {p : Pattern} (hrows : RowsFit levels rows) (hp : Fits levels p)
    (hunit : ∀ row ∈ rows, ∀ w ∈ row, 0 ≤ w ∧ w ≤ 1) :
    ∃ xs, cells (@Weights.logRows Float (doublesWith log) weights rows) p = .ok xs ∧
      Tame 12 (Arithmetic.sum xs) ∧ (below (Arithmetic.sum xs) = true ↔ weights.Excludes rows p) ∧
      above (Arithmetic.sum xs) = false := by
  obtain ⟨xs, hxs, hmem⟩ :=
    cells_eq_ok (@Weights.rowsFit_logRows Float (doublesWith log) levels rows weights hrows) hp
  have hentry : ∀ x, x ∈ xs ↔ ∃ k level : Nat, ∃ w, p[k]? = some level ∧
      (rows[k]?).bind (·[level]?) = some w ∧
      x = if weights.isSilent k level then 0 else log w := by
    intro x
    simp only [hmem, @Weights.entry_logRows Float (doublesWith log), Option.map_eq_some_iff]
    constructor
    · rintro ⟨k, level, hk, w, hw, rfl⟩
      exact ⟨k, level, w, hk, hw, rfl⟩
    · rintro ⟨k, level, w, hk, hw, rfl⟩
      exact ⟨k, level, hk, w, hw, rfl⟩
  have hrange : ∀ {k level : Nat} {w : Float}, (rows[k]?).bind (·[level]?) = some w →
      0 ≤ w ∧ w ≤ 1 := by
    intro k level w hw
    obtain ⟨row, hrow, hlevel⟩ := Option.bind_eq_some_iff.mp hw
    exact hunit row (List.mem_of_getElem? hrow) w (List.mem_of_getElem? hlevel)
  have hends : ∀ x ∈ xs, Tame (12 - 55) x ∧ above x = false := by
    intro x hx
    obtain ⟨k, level, w, -, hw, rfl⟩ := (hentry x).mp hx
    obtain ⟨htame, -, habove⟩ := ends_log laws (hrange hw).1 (hrange hw).2
    exact ⟨htame, habove⟩
  obtain ⟨htame, hbelow, habove⟩ := @ends_sum 12 xs (fun x hx => (hends x hx).1) (by decide) (by decide)
  refine ⟨xs, hxs, htame, ?_, ?_⟩
  · rw [hbelow, List.any_eq_true]
    constructor
    · rintro ⟨x, hx, hlow⟩
      obtain ⟨k, level, w, hk, hw, rfl⟩ := (hentry x).mp hx
      obtain ⟨hsilent, hzero⟩ := (ends_log laws (hrange hw).1 (hrange hw).2).2.1.mp hlow
      exact ⟨k, level, hk, hsilent, w, hw, hzero⟩
    · rintro ⟨k, level, hk, hsilent, w, hw, hzero⟩
      exact ⟨_, (hentry _).mpr ⟨k, level, w, hk, hw, rfl⟩,
        (ends_log laws (hrange hw).1 (hrange hw).2).2.1.mpr ⟨hsilent, hzero⟩⟩
  · rw [habove, List.any_eq_false]
    intro x hx
    simp [(hends x hx).2]

/-- A match class counts the patterns that it excludes downwards, another class upwards. -/
theorem ends_classScore (laws : LogLaws log) (m : Model Float) {weights : Weights Float}
    {levels : List Nat} {rows : List (List Float)} {p : Pattern} (hrows : RowsFit levels rows)
    (hp : Fits levels p) (hunit : ∀ row ∈ rows, ∀ w ∈ row, 0 ≤ w ∧ w ≤ 1) (cls : Nat) :
    ∃ x, m.classScore p (@Weights.logRows Float (doublesWith log) weights rows) cls = .ok x ∧
      Tame 12 x ∧ (below x = true ↔ m.isMatch cls = true ∧ weights.Excludes rows p) ∧
      (above x = true ↔ m.isMatch cls = false ∧ weights.Excludes rows p) := by
  obtain ⟨xs, hxs, htame, hbelow, habove⟩ := ends_cells laws weights hrows hp hunit
  rw [classScore, hxs]
  cases hmatch : m.isMatch cls with
  | true =>
      exact ⟨_, rfl, htame, by simp [hbelow], by simp [habove]⟩
  | false =>
      obtain ⟨hneg, hnegBelow, hnegAbove⟩ := ends_neg htame (by decide) (by decide)
      exact ⟨_, rfl, hneg, by simp [hnegBelow, habove], by simp [hnegAbove, hbelow]⟩

theorem scorePattern_eq_ok {c : RecordComparator} {weights : Weights Float} {matchCount : Nat}
    {m : Model Float} (hmake : makeWith log c weights matchCount = .ok m) {p : Pattern}
    (hclass : ∀ cls rows, weights[cls]? = some rows → ∃ y,
      m.classScore p (@Weights.logRows Float (doublesWith log) weights rows) cls = .ok y) :
    ∃ ys, m.scorePattern p = .ok (Arithmetic.sum ys) ∧ ∀ y, y ∈ ys ↔
      ∃ cls rows, weights[cls]? = some rows ∧
        m.classScore p (@Weights.logRows Float (doublesWith log) weights rows) cls = .ok y := by
  obtain ⟨-, -, hm⟩ := (@make_eq_ok_iff Float (doublesWith log) c weights matchCount m).mp hmake
  have hlogs : m.logWeights = weights.map (@Weights.logRows Float (doublesWith log) weights) := by
    rw [hm]
    exact @Weights.logs_eq_map Float (doublesWith log) weights
  have hmem : ∀ lrows cls, (lrows, cls) ∈ m.logWeights.zipIdx ↔ ∃ rows, weights[cls]? = some rows ∧
      @Weights.logRows Float (doublesWith log) weights rows = lrows := by
    intro lrows cls
    rw [List.mem_zipIdx_iff_getElem?, hlogs, List.getElem?_map, Option.map_eq_some_iff]
  have hscores : ∀ x ∈ m.logWeights.zipIdx, ∃ y, m.classScore p x.1 x.2 = .ok y := by
    rintro ⟨lrows, cls⟩ hx
    obtain ⟨rows, hrows, rfl⟩ := (hmem lrows cls).mp hx
    exact hclass cls rows hrows
  obtain ⟨ys, hys⟩ := Traversal.exists_mapM_eq_ok hscores
  refine ⟨ys, ?_, ?_⟩
  · change (m.logWeights.zipIdx.mapM fun x => m.classScore p x.1 x.2).bind _ = _
    rw [hys]
    rfl
  · intro y
    rw [Traversal.mem_mapM_iff hys]
    constructor
    · rintro ⟨⟨lrows, cls⟩, hx, hy⟩
      obtain ⟨rows, hrows, rfl⟩ := (hmem lrows cls).mp hx
      exact ⟨cls, rows, hrows, hy⟩
    · rintro ⟨cls, rows, hrows, hy⟩
      exact ⟨(_, cls), (hmem _ cls).mpr ⟨rows, hrows, rfl⟩, hy⟩

/-- Some class among the given ones excludes a pattern. -/
def ExcludedBy (weights : Weights Float) (among : Nat → Prop) (p : Pattern) : Prop :=
  ∃ cls rows, weights[cls]? = some rows ∧ among cls ∧ weights.Excludes rows p

/-- A score goes below all numbers if a match class excludes the pattern, and above all numbers if
another class does. -/
theorem ends_scorePattern (laws : LogLaws log) {c : RecordComparator} {weights : Weights Float}
    {matchCount : Nat} {m : Model Float} (hmake : makeWith log c weights matchCount = .ok m)
    (hunit : ∀ rows ∈ weights, ∀ row ∈ rows, ∀ w ∈ row, 0 ≤ w ∧ w ≤ 1) {p : Pattern}
    (hp : Fits c.levels p) :
    ∃ x, m.scorePattern p = .ok x ∧ (below x = true ↔ ExcludedBy weights (· < matchCount) p) ∧
      (above x = true ↔ ExcludedBy weights (matchCount ≤ ·) p) := by
  have hclass : ∀ cls rows, weights[cls]? = some rows → ∃ y,
      m.classScore p (@Weights.logRows Float (doublesWith log) weights rows) cls = .ok y ∧
        Tame (67 - 55) y ∧ (below y = true ↔ cls < matchCount ∧ weights.Excludes rows p) ∧
        (above y = true ↔ matchCount ≤ cls ∧ weights.Excludes rows p) := by
    intro cls rows hrows
    obtain ⟨-, hshape, hm⟩ :=
      (@make_eq_ok_iff Float (doublesWith log) c weights matchCount m).mp hmake
    have hrow := List.mem_of_getElem? hrows
    have hfit : RowsFit c.levels rows := (hshape rows hrow).imp fun _ _ h => h.1
    have hcount : m.matchCount = matchCount := by rw [hm]
    simpa [isMatch, hcount] using ends_classScore laws m hfit hp (hunit rows hrow) cls
  obtain ⟨ys, hscore, hmem⟩ := scorePattern_eq_ok hmake (p := p) fun cls rows hrows =>
    (hclass cls rows hrows).imp fun _ h => h.1
  have htame : ∀ y ∈ ys, Tame (67 - 55) y := by
    intro y hy
    obtain ⟨cls, rows, hrows, hcls⟩ := (hmem y).mp hy
    obtain ⟨y', hy', htame, -⟩ := hclass cls rows hrows
    rwa [Except.ok.inj (hcls.symm.trans hy')]
  obtain ⟨-, hbelow, habove⟩ := @ends_sum 67 ys htame (by decide) (by decide)
  have hany : ∀ (reached : Float → Bool) (among : Nat → Prop),
      (∀ cls rows, weights[cls]? = some rows → ∃ y,
        m.classScore p (@Weights.logRows Float (doublesWith log) weights rows) cls = .ok y ∧
          (reached y = true ↔ among cls ∧ weights.Excludes rows p)) →
      (ys.any reached = true ↔ ExcludedBy weights among p) := by
    intro reached among h
    rw [List.any_eq_true]
    constructor
    · rintro ⟨y, hy, hreached⟩
      obtain ⟨cls, rows, hrows, hcls⟩ := (hmem y).mp hy
      obtain ⟨y', hy', hiff⟩ := h cls rows hrows
      obtain rfl := Except.ok.inj (hcls.symm.trans hy')
      exact ⟨cls, rows, hrows, hiff.mp hreached⟩
    · rintro ⟨cls, rows, hrows, hexcluded⟩
      obtain ⟨y, hy, hiff⟩ := h cls rows hrows
      exact ⟨y, (hmem y).mpr ⟨cls, rows, hrows, hy⟩, hiff.mpr hexcluded⟩
  refine ⟨_, hscore, ?_, ?_⟩
  · rw [hbelow]
    exact hany below _ fun cls rows hrows =>
      have ⟨y, hy, _, h, _⟩ := hclass cls rows hrows
      ⟨y, hy, h⟩
  · rw [habove]
    exact hany above _ fun cls rows hrows =>
      have ⟨y, hy, _, _, h⟩ := hclass cls rows hrows
      ⟨y, hy, h⟩

/-- The score of a pattern is undefined just if a match class and another class exclude the
pattern, and it is a number just if no class does. -/
theorem scorePattern_isNaN_iff (laws : LogLaws log) (c : RecordComparator) (weights : Weights Float)
    (matchCount : Nat) (m : Model Float) (hmake : makeWith log c weights matchCount = .ok m)
    (hunit : ∀ rows ∈ weights, ∀ row ∈ rows, ∀ w ∈ row, 0 ≤ w ∧ w ≤ 1) (p : Pattern)
    (hp : Fits c.levels p) :
    ∃ x, m.scorePattern p = .ok x ∧
      (x.isNaN = true ↔ ExcludedBy weights (· < matchCount) p ∧
        ExcludedBy weights (matchCount ≤ ·) p) ∧
      (x.isFinite = true ↔ ¬ ExcludedBy weights (· < matchCount) p ∧
        ¬ ExcludedBy weights (matchCount ≤ ·) p) := by
  obtain ⟨x, hx, hbelow, habove⟩ := ends_scorePattern laws hmake hunit hp
  refine ⟨x, hx, ?_, ?_⟩
  · rw [isNaN_eq, Bool.and_eq_true, hbelow, habove]
  · rw [isFinite_eq, Bool.and_eq_true, Bool.not_eq_true', Bool.not_eq_true', ← Bool.not_eq_true,
      ← Bool.not_eq_true, hbelow, habove]

/-! ### A pattern that both classes exclude -/

/-- The logarithms of 0, 1/2 and 1.  Other weights share that of 1/2. -/
def coarseLog (w : Float) : Float :=
  if w == 0 then -1 / 0 else if w == 1 then 0 else -0.6931471805599453

theorem coarseLog_laws : LogLaws coarseLog where
  zero w h := by rw [coarseLog, if_pos h]
  unit w hpos _ := by
    rw [coarseLog, beq_zero_of_pos hpos]
    split
    · contradiction
    · split <;> decide

/-- Compares two names. -/
def firstAndLast : RecordComparator :=
  ⟨0, [⟨"first", "first", 0, 0, .exact⟩, ⟨"last", "last", 1, 1, .exact⟩], false, 4⟩

/-- Matches agree in the first name and others in the last. -/
def crossedWeights : Weights Float :=
  [[[0, 1], [0.5, 0.5]], [[0.5, 0.5], [0, 1]]]

/-- The model of these weights. -/
def crossedModel : Model Float :=
  ⟨firstAndLast, 1, crossedWeights, @Weights.logs Float (doublesWith coarseLog) crossedWeights, none⟩

theorem makeWith_crossedModel :
    makeWith coarseLog firstAndLast crossedWeights 1 = .ok crossedModel := by
  have hsum : ¬ (1e-6 : Float) < Arithmetic.abs (Arithmetic.sum [0.5, 0.5] - 1) := by decide
  have hsure : @Weights.RowOk Float (doublesWith coarseLog) [0, 1] 2 := ⟨rfl, by decide⟩
  have heven : @Weights.RowOk Float (doublesWith coarseLog) [0.5, 0.5] 2 := ⟨rfl, hsum⟩
  refine (@make_eq_ok_iff Float (doublesWith coarseLog) _ _ _ _).mpr ⟨rfl, ?_, rfl⟩
  intro rows hrows
  rcases List.mem_cons.mp hrows with rfl | hrows
  · exact .cons hsure (.cons heven .nil)
  · rcases List.mem_cons.mp hrows with rfl | hrows
    · exact .cons heven (.cons hsure .nil)
    · exact absurd hrows List.not_mem_nil

/-- Pairs that disagree in both names have no score. -/
theorem scorePattern_crossed :
    makeWith coarseLog firstAndLast crossedWeights 1 = .ok crossedModel ∧
      (∀ rows ∈ crossedWeights, ∀ row ∈ rows, ∀ w ∈ row, 0 ≤ w ∧ w ≤ 1) ∧
      Fits firstAndLast.levels [0, 0] ∧
      ∃ x, crossedModel.scorePattern [0, 0] = .ok x ∧ x.isNaN = true :=
  ⟨makeWith_crossedModel, by decide, .cons (by decide) (.cons (by decide) .nil), _, rfl, by decide⟩

/-- They are the pairs that a match class and another class exclude. -/
theorem scorePattern_crossed_iff :
    ∃ x, crossedModel.scorePattern [0, 0] = .ok x ∧
      (x.isNaN = true ↔ ExcludedBy crossedWeights (· < 1) [0, 0] ∧
        ExcludedBy crossedWeights (1 ≤ ·) [0, 0]) ∧
      (x.isFinite = true ↔ ¬ ExcludedBy crossedWeights (· < 1) [0, 0] ∧
        ¬ ExcludedBy crossedWeights (1 ≤ ·) [0, 0]) :=
  scorePattern_isNaN_iff coarseLog_laws firstAndLast crossedWeights 1 crossedModel
    makeWith_crossedModel (by decide) [0, 0] (.cons (by decide) (.cons (by decide) .nil))

end Model

end Linkage
