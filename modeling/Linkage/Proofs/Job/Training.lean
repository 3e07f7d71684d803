import Linkage.Proofs.Estimation.Failure
import Linkage.Proofs.Job.Checked
import Linkage.Proofs.Join.Labels

/-
# What a training needs

A training learns from one tally, from two or from all three.  It is refused if one of them is empty,
which depends on the pairs that the collections have, or if it is to learn more classes than a vector
has places.  Past that the learner takes what a plan gives it, since the settings were accepted when
the plan was made.  What is left is that the estimation degenerates or, where sums are not exact, that
a row is refused for its sum.
-/

namespace Linkage

/-! ## The tallies of a training -/

/-- Whether two collections lack pairs of one label: with equal ids, or with different ones. -/
def LacksLabel (left right : List Record) : Prop :=
  (∀ l ∈ left, ∀ r ∈ right, l.key = r.key → l.id ≠ r.id) ∨
    ∀ l ∈ left, ∀ r ∈ right, l.key = r.key → l.id = r.id

/-- Whether two collections lack pairs that a training needs. -/
def Training.Lacks (left right : List Record) : Training → Prop
  | .unsupervised _ => ∀ l ∈ left, ∀ r ∈ right, l.key ≠ r.key
  | .supervised => LacksLabel left right
  | .semiSupervised _ => LacksLabel left right

/-- The tallies from which a training learns. -/
inductive Training.Tallies (c : RecordComparator) (left right : List Record) (t : Tally) :
    Training → List Tally → Prop
  | unsupervised (classes : Nat) : Tallies c left right t (.unsupervised classes) [t]
  | supervised {matched unmatched : Tally} :
      tallyTruth c left right = .ok (matched, unmatched) →
      Tallies c left right t .supervised [matched, unmatched]
  | semiSupervised {matched unmatched : Tally} (lambda : Float) :
      tallyTruth c left right = .ok (matched, unmatched) →
      Tallies c left right t (.semiSupervised lambda) [t, matched, unmatched]

namespace Training

variable {c : RecordComparator} {left right : List Record} {t : Tally} {training : Training}
  {ts : List Tally}

theorem exists_tallies (hc : c.Numbered) (ht : tally c left right = .ok t)
    (hids : ∀ r ∈ left ++ right, r.schema.hasId = true) : ∃ matched unmatched,
      tallyTruth c left right = .ok (matched, unmatched) := by
  cases h : tallyTruth c left right with
  | ok truth => exact ⟨truth.1, truth.2, rfl⟩
  | error e =>
      rw [tallyTruth_eq_error_iff hc (List.all_eq_true.mpr hids), ht] at h
      cases h

theorem Tallies.sound (h : training.Tallies c left right t ts) (hc : c.Numbered)
    (ht : tally c left right = .ok t) : ∀ u ∈ ts, u.comparator = c ∧ u.Sound := by
  cases h with
  | unsupervised => simpa using sound_tally hc ht
  | supervised htruth => simpa using sound_tallyTruth hc htruth
  | semiSupervised _ htruth => simpa using ⟨sound_tally hc ht, sound_tallyTruth hc htruth⟩

theorem Tallies.any_isEmpty_iff (h : training.Tallies c left right t ts) (hc : c.Numbered)
    (ht : tally c left right = .ok t) :
    ts.any Tally.isEmpty = true ↔ training.Lacks left right := by
  have hall := isEmpty_of_tally_iff hc ht
  cases h with
  | unsupervised =>
      rw [List.any_cons, List.any_nil, Bool.or_false]
      exact hall
  | supervised htruth =>
      obtain ⟨hmatched, hunmatched⟩ := isEmpty_of_tallyTruth_iff hc htruth
      simp [hmatched, hunmatched, Lacks, LacksLabel]
  | @semiSupervised matched unmatched _ htruth =>
      obtain ⟨hmatched, hunmatched⟩ := isEmpty_of_tallyTruth_iff hc htruth
      -- Without pairs at all there are none with equal ids.
      have hnone : t.isEmpty = true → matched.isEmpty = true := fun h =>
        hmatched.mpr fun l hl r hr hkey => absurd hkey (hall.mp h l hl r hr)
      rw [Lacks, LacksLabel, ← hmatched, ← hunmatched]
      simp only [List.any_cons, List.any_nil, Bool.or_false, Bool.or_eq_true]
      exact or_iff_right_of_imp fun h => .inl (hnone h)

end Training

/-- Doubles between 0 and 1 stand for numbers between 0 and 1. -/
def Arithmetic.KeepsUnit (α : Type) [Arithmetic α] : Prop :=
  ∀ x : Float, 0 ≤ x → x ≤ 1 → (0 : α) ≤ Arithmetic.ofFloat x ∧ Arithmetic.ofFloat x ≤ (1 : α)

theorem Extended.keepsUnit : Arithmetic.KeepsUnit Extended := by
  intro x hlow hhigh
  obtain ⟨y, hy, hy', heq⟩ := exists_ofFloat_eq_of_unit hlow hhigh
  change 0 ≤ Extended.ofFloat x ∧ Extended.ofFloat x ≤ 1
  rw [heq]
  exact ⟨Extended.number_le_number.mpr hy, Extended.number_le_number.mpr hy'⟩

namespace Plan

variable {p : Plan} {ls rs : List Record} {t : Tally}

/-! ## Training -/

theorem Checked.exists_tallies (hp : p.Checked) (hloaded : p.Loaded ls rs)
    (ht : tally p.comparator ls rs = .ok t) :
    ∃ ts, p.job.training.Tallies p.comparator ls rs t ts := by
  have htraining := hp.training
  rw [Job.checkTraining] at htraining
  cases hmode : p.job.training with
  | unsupervised classes => exact ⟨_, .unsupervised classes⟩
  | supervised =>
      rw [hmode] at htraining
      obtain ⟨matched, unmatched, htruth⟩ :=
        Training.exists_tallies hp.numbered ht (hp.hasId hloaded htraining)
      exact ⟨_, .supervised htruth⟩
  | semiSupervised lambda =>
      rw [hmode] at htraining
      simp only at htraining
      split at htraining
      case isTrue =>
        obtain ⟨matched, unmatched, htruth⟩ :=
          Training.exists_tallies hp.numbered ht (hp.hasId hloaded htraining)
        exact ⟨_, .semiSupervised lambda htruth⟩
      case isFalse => cases htraining

theorem Checked.two_le (hp : p.Checked) {classes : Nat}
    (hmode : p.job.training = .unsupervised classes) : 2 ≤ classes := by
  have htraining := hp.training
  rw [Job.checkTraining, hmode] at htraining
  simp only at htraining
  split at htraining
  case isTrue => cases htraining
  case isFalse h => exact Nat.le_of_not_lt h

theorem Checked.checkLambda (hp : p.Checked) {α : Type} [Arithmetic α]
    (hunit : Arithmetic.KeepsUnit α) {lambda : Float}
    (hmode : p.job.training = .semiSupervised lambda) :
    checkLambda (Arithmetic.ofFloat lambda : α) = .ok () := by
  have htraining := hp.training
  rw [Job.checkTraining, hmode] at htraining
  simp only at htraining
  split at htraining
  case isTrue h => exact if_pos (hunit lambda h.1 h.2)
  case isFalse => cases htraining

/-- No vector has as many places as there are classes to learn. -/
def Crowded (p : Plan) : Prop :=
  ∃ classes, p.job.training = .unsupervised classes ∧ Simplex.limit ≤ classes

theorem lt_limit_of_not_crowded (h : ¬ p.Crowded) {classes : Nat}
    (hmode : p.job.training = .unsupervised classes) : classes < Simplex.limit := by
  refine Nat.lt_of_not_le ?_
  intro hlimit
  exact h ⟨classes, hmode, hlimit⟩

section Train

variable {γ α : Type} [Arithmetic α] [Draws γ α] {ts : List Tally} {g : γ}

theorem train_unsupervised {classes : Nat} (hmode : p.job.training = .unsupervised classes) :
    (p.train g t ls rs : Observed (Event α) (Trained α)).result =
      ((learnUnsupervised classes p.job.stopRule g t).1.result).map
        fun fit => ⟨fit.model, some fit.report⟩ := by
  rw [train, hmode]
  show (learnUnsupervised classes p.job.stopRule g t : Observed (Event α) _ × γ).1.result >>= _ = _
  cases (learnUnsupervised classes p.job.stopRule g t : Observed (Event α) _ × γ).1.result <;> rfl

theorem train_supervised {matched unmatched : Tally} (hmode : p.job.training = .supervised)
    (htruth : tallyTruth p.comparator ls rs = .ok (matched, unmatched)) :
    (p.train g t ls rs : Observed (Event α) (Trained α)).result =
      (learnSupervised 1 [matched, unmatched]).map fun m => ⟨m, none⟩ := by
  rw [train, hmode]
  show p.trainLabeled ls rs = _
  rw [trainLabeled, htruth]
  show (learnSupervised 1 [matched, unmatched] : Except Error (Model α)) >>= _ = _
  cases (learnSupervised 1 [matched, unmatched] : Except Error (Model α)) <;> rfl

theorem train_semiSupervised {matched unmatched : Tally} {lambda : Float}
    (hmode : p.job.training = .semiSupervised lambda)
    (htruth : tallyTruth p.comparator ls rs = .ok (matched, unmatched)) :
    (p.train g t ls rs : Observed (Event α) (Trained α)).result =
      ((learnSemiSupervised 1 (Arithmetic.ofFloat lambda) p.job.stopRule g t
        [matched, unmatched]).1.result).map fun fit => ⟨fit.model, some fit.report⟩ := by
  rw [train, hmode]
  simp only [htruth]
  show (learnSemiSupervised 1 (Arithmetic.ofFloat lambda) p.job.stopRule g t
    [matched, unmatched]).1.result >>= _ = _
  cases (learnSemiSupervised 1 (Arithmetic.ofFloat lambda : α) p.job.stopRule g t
    [matched, unmatched]).1.result <;> rfl

theorem Checked.train_of_isEmpty (hp : p.Checked) (hunit : Arithmetic.KeepsUnit α)
    (ht : tally p.comparator ls rs = .ok t)
    (hts : p.job.training.Tallies p.comparator ls rs t ts) (hempty : ts.any Tally.isEmpty = true) :
    (p.train g t ls rs : Observed (Event α) (Trained α)).result =
      .error (.invalidModel .emptyTally) := by
  have hcomparator : ∀ u ∈ ts, u.comparator = p.comparator :=
    fun u hu => (hts.sound hp.numbered ht u hu).1
  generalize hmode : p.job.training = training at hts
  cases hts with
  | unsupervised classes =>
      rw [train_unsupervised hmode, learnUnsupervised,
        checkUnsupervised_eq (hp.two_le hmode) hp.stopRule, if_pos (by simpa using hempty)]
      rfl
  | supervised htruth =>
      rw [train_supervised hmode htruth, learnSupervised, checkTallies_eq (List.cons_ne_nil _ _)
        hcomparator, if_pos hempty]
      rfl
  | semiSupervised lambda htruth =>
      rw [train_semiSupervised hmode htruth, learnSemiSupervised, hp.checkLambda hunit hmode,
        hp.stopRule, checkTallies_eq (List.cons_ne_nil _ _) hcomparator, if_pos hempty]
      rfl

/-- Past the pairs, more classes than a vector has places are refused. -/
theorem Checked.train_of_crowded (hp : p.Checked) (hempty : t.isEmpty = false) (h : p.Crowded) :
    (p.train g t ls rs : Observed (Event α) (Trained α)).result = .error (.misuse .vectorTooLong) := by
  obtain ⟨classes, hmode, hlimit⟩ := h
  have hroom : Simplex.checkLength classes = .error (.misuse .vectorTooLong) :=
    if_neg (Nat.not_lt.mpr hlimit)
  rw [train_unsupervised hmode, learnUnsupervised,
    checkUnsupervised_eq (hp.two_le hmode) hp.stopRule, hempty, if_neg Bool.false_ne_true, hroom]
  rfl

end Train

/-! ## What a learner takes -/

/-- A plan has what its learner takes: tallies that are not empty, with arguments that pass. -/
inductive Learns (α : Type) [Arithmetic α] (p : Plan) (ls rs : List Record) (t : Tally) : Prop
  | unsupervised {classes : Nat} :
      p.job.training = .unsupervised classes → t.Filled p.comparator →
      checkUnsupervised classes p.job.stopRule t = .ok p.comparator → Learns α p ls rs t
  | supervised {matched unmatched : Tally} :
      p.job.training = .supervised → tallyTruth p.comparator ls rs = .ok (matched, unmatched) →
      (∀ u ∈ [matched, unmatched], u.Filled p.comparator) → Learns α p ls rs t
  | semiSupervised {lambda : Float} {matched unmatched : Tally} :
      p.job.training = .semiSupervised lambda →
      tallyTruth p.comparator ls rs = .ok (matched, unmatched) →
      (∀ u ∈ [t, matched, unmatched], u.Filled p.comparator) →
      checkLambda (Arithmetic.ofFloat lambda : α) = .ok () → Learns α p ls rs t

theorem filled_of_any_isEmpty {c : RecordComparator} {ts : List Tally}
    (hsound : ∀ u ∈ ts, u.comparator = c ∧ u.Sound) (hempty : ¬ ts.any Tally.isEmpty = true) :
    ∀ u ∈ ts, u.Filled c := by
  intro u hu
  obtain ⟨hcomparator, hsound⟩ := hsound u hu
  refine ⟨hcomparator, hsound, ?_⟩
  intro hnil
  exact hempty (List.any_eq_true.mpr ⟨u, hu, Tally.isEmpty_iff.mpr hnil⟩)

theorem Checked.learns {α : Type} [Arithmetic α] (hp : p.Checked)
    (hunit : Arithmetic.KeepsUnit α) (hloaded : p.Loaded ls rs)
    (ht : tally p.comparator ls rs = .ok t) (hlacks : ¬ p.job.training.Lacks ls rs)
    (hroom : ¬ p.Crowded) : p.Learns α ls rs t := by
  obtain ⟨ts, hts⟩ := hp.exists_tallies hloaded ht
  have hempty : ¬ ts.any Tally.isEmpty = true :=
    fun hany => hlacks ((hts.any_isEmpty_iff hp.numbered ht).mp hany)
  have hfilled := filled_of_any_isEmpty (hts.sound hp.numbered ht) hempty
  generalize hmode : p.job.training = training at hts
  cases hts with
  | unsupervised classes =>
      have htally : t.Filled p.comparator := hfilled t List.mem_cons_self
      refine .unsupervised hmode htally ?_
      rw [checkUnsupervised_eq (hp.two_le hmode) hp.stopRule, if_neg (by simpa using hempty),
        Simplex.checkLength_eq_ok_iff.mpr (lt_limit_of_not_crowded hroom hmode), htally.comparator]
      rfl
  | supervised htruth => exact .supervised hmode htruth hfilled
  | semiSupervised lambda htruth =>
      exact .semiSupervised hmode htruth hfilled (hp.checkLambda hunit hmode)

section Learns

variable {γ : Type} {e : Error}

/-- Only an estimation degenerates. -/
theorem Learns.train_eq_error {α : Type} [Arithmetic α] [Draws γ α] {g : γ}
    (h : p.Learns α ls rs t) (hr : p.job.stopRule.check = .ok ())
    (he : (p.train g t ls rs : Observed (Event α) (Trained α)).result = .error e) :
    (p.job.training ≠ .supervised ∧ Degenerate e) ∨ RowSumRefused e := by
  cases h with
  | unsupervised hmode htally hcheck =>
      rw [train_unsupervised hmode, Traversal.map_eq_error_iff] at he
      rw [hmode]
      exact (learnUnsupervised_eq_error htally hcheck he).imp_left fun he => ⟨nofun, he⟩
  | supervised hmode htruth hfilled =>
      rw [train_supervised hmode htruth, Traversal.map_eq_error_iff] at he
      exact .inr (learnSupervised_eq_error hfilled rfl he)
  | semiSupervised hmode htruth hfilled hlambda =>
      rw [train_semiSupervised hmode htruth, Traversal.map_eq_error_iff] at he
      rw [hmode]
      exact (learnSemiSupervised_eq_error hfilled hlambda hr rfl he).imp_left
        fun he => ⟨nofun, he⟩

/-- With exact sums, labeled pairs always train a model. -/
theorem Learns.exists_trained [Draws γ Extended] (h : p.Learns Extended ls rs t)
    (hmode : p.job.training = .supervised) (g : γ) : ∃ trained,
      (p.train g t ls rs : Observed (Event Extended) (Trained Extended)).result = .ok trained := by
  cases h with
  | unsupervised hmode' => cases hmode.symm.trans hmode'
  | supervised _ htruth hfilled =>
      rw [train_supervised hmode htruth, (learnSupervised_eq_ok hfilled rfl).1]
      exact ⟨_, rfl⟩
  | semiSupervised hmode' => cases hmode.symm.trans hmode'

/-- With exact sums, nothing but a degenerate estimation fails. -/
theorem Learns.train_degenerate [Draws γ Extended] {g : γ} (hdraws : Simplex.UnitDraws γ)
    (h : p.Learns Extended ls rs t) (hr : p.job.stopRule.check = .ok ())
    (he : (p.train g t ls rs : Observed (Event Extended) (Trained Extended)).result = .error e) :
    p.job.training ≠ .supervised ∧ Degenerate e := by
  cases id h with
  | unsupervised hmode htally hcheck =>
      rw [train_unsupervised hmode, Traversal.map_eq_error_iff] at he
      rw [hmode]
      exact ⟨nofun, learnUnsupervised_degenerate hdraws htally hcheck he⟩
  | supervised hmode =>
      obtain ⟨trained, htrain⟩ := h.exists_trained hmode g
      cases htrain.symm.trans he
  | semiSupervised hmode htruth hfilled hlambda =>
      rw [train_semiSupervised hmode htruth, Traversal.map_eq_error_iff] at he
      rw [hmode]
      exact ⟨nofun, learnSemiSupervised_degenerate hdraws hfilled hlambda hr rfl he⟩

end Learns

end Plan

end Linkage
