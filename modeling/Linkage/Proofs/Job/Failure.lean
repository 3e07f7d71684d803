import Linkage.Proofs.Job.Training

/-
# What can stop a run

The parts of a plan were checked when it was made, and a run checks most of them again.  No check
fails the second time, what a run looks up exists, and what was compared once can be compared
again.  So a run is stopped by what the files hold, by pairs from which nothing can be learned, or
by a number of classes that no vector has; it is not stopped by settings that do not fit together.
-/

namespace Linkage

open Traversal (bind_eq_error_iff bind_of_ok bind_of_error)

namespace Plan

variable {p : Plan} {ls rs : List Record} {t : Tally} {left right : Contents} {e : Error}

/-- The collections were loaded, and their blocked pairs were counted. -/
structure Tallied (p : Plan) (left right : Contents) (ls rs : List Record) (t : Tally) : Prop where
  collections : p.collections left right = .ok (ls, rs)
  tally : tally p.comparator ls rs = .ok t

theorem Tallied.unique {ls' rs' : List Record} {t' : Tally} (h : p.Tallied left right ls rs t)
    (h' : p.Tallied left right ls' rs' t') : ls = ls' ∧ rs = rs' ∧ t = t' := by
  obtain ⟨rfl, rfl⟩ := Prod.mk.inj (Except.ok.inj (h.collections.symm.trans h'.collections))
  exact ⟨rfl, rfl, Except.ok.inj (h.tally.symm.trans h'.tally)⟩

/-- The training can begin: the pairs that it needs were counted, and there is room. -/
structure Ready (p : Plan) (left right : Contents) (ls rs : List Record) (t : Tally) : Prop where
  tallied : p.Tallied left right ls rs t
  enough : ¬ p.job.training.Lacks ls rs
  room : ¬ p.Crowded

/-! ## Stages -/

section Outcome

variable {σ γ α : Type} [Arithmetic α] [Ord α] [Draws γ α] {g : γ} {sink : Sink σ α} {s : σ}

def outcome (p : Plan) (g : γ) (left right : Contents) (sink : Sink σ α) (s : σ) :
    Except Error (Summary α) :=
  ((p.run g left right sink).2.run s).1

/-- What follows the counting, where the sink does not fail. -/
def conclude (p : Plan) (g : γ) (ls rs : List Record) (t : Tally) : Except Error (Summary α) := do
  let trained ← (p.train g t ls rs).result
  let f ← p.score t ls rs trained
  return ⟨f, (f.scores.matchesFrom (Arithmetic.ofFloat p.job.cutoff)).length⟩

theorem result_write (hsink : sink.Answers) (found : Except Error (Findings α)) :
    ((p.write sink found).run s).1 = (do
      let f ← found
      return ⟨f, (f.scores.matchesFrom (Arithmetic.ofFloat p.job.cutoff)).length⟩) := by
  cases found with
  | error e =>
      rw [run_write_error]
      rfl
  | ok f =>
      rw [run_write_ok, f.scores.write_of_answers hsink]
      rfl

/-- A run is a sequence of stages, of which each can fail but the last. -/
theorem outcome_eq (hsink : sink.Answers) : p.outcome g left right sink s = (do
    let (ls, rs) ← p.collections left right
    let t ← tally p.comparator ls rs
    p.conclude g ls rs t) := by
  show ((p.write sink (p.findings g left right).result).run s).1 = _
  rw [result_write hsink, result_findings, result_load]
  simp only [bind_assoc]
  rfl

/-! ## Scoring -/

/-- With a model that was trained, all pairs that were counted have scores. -/
theorem Checked.exists_score (hp : p.Checked) (ht : tally p.comparator ls rs = .ok t)
    {trained : Trained α} (htrain : (p.train g t ls rs).result = .ok trained) :
    ∃ f, p.score t ls rs trained = .ok f := by
  have hover : trained.model.Over p.comparator :=
    over_train hp.numbered (sound_tally hp.numbered ht).1 htrain
  obtain ⟨scores, hscores⟩ := Model.exists_matchParallel fun pair hpair =>
    hover.shaped.exists_score_of_tally hp.numbered ht hpair
  exact ⟨_, (bind_of_ok hp.matchRule).trans (bind_of_ok hscores)⟩

/-! ## After the counting -/

theorem Checked.conclude_of_lacks (hp : p.Checked) (hunit : Arithmetic.KeepsUnit α)
    (ht : p.Tallied left right ls rs t) (hlacks : p.job.training.Lacks ls rs) :
    (p.conclude g ls rs t : Except Error (Summary α)) = .error (.invalidModel .emptyTally) := by
  obtain ⟨ts, hts⟩ := hp.exists_tallies (hp.loaded ht.collections) ht.tally
  have hempty := (hts.any_isEmpty_iff hp.numbered ht.tally).mpr hlacks
  have htrain : (p.train g t ls rs : Observed (Event α) (Trained α)).result = _ :=
    hp.train_of_isEmpty hunit ht.tally hts hempty
  exact bind_of_error htrain

theorem Checked.conclude_of_crowded (hp : p.Checked) (ht : p.Tallied left right ls rs t)
    (hlacks : ¬ p.job.training.Lacks ls rs) (hcrowded : p.Crowded) :
    (p.conclude g ls rs t : Except Error (Summary α)) = .error (.misuse .vectorTooLong) := by
  obtain ⟨classes, hmode, -⟩ := id hcrowded
  rw [hmode] at hlacks
  have hempty : t.isEmpty = false := by
    rw [← Bool.not_eq_true]
    exact fun hempty => hlacks ((isEmpty_of_tally_iff hp.numbered ht.tally).mp hempty)
  exact bind_of_error (hp.train_of_crowded hempty hcrowded)

/-- After the counting only the training can still fail. -/
theorem Checked.conclude_eq_error_iff (hp : p.Checked) (ht : tally p.comparator ls rs = .ok t) :
    (p.conclude g ls rs t : Except Error (Summary α)) = .error e ↔
      (p.train g t ls rs : Observed (Event α) (Trained α)).result = .error e := by
  rw [conclude]
  cases htrain : (p.train g t ls rs : Observed (Event α) (Trained α)).result with
  | error e' => rw [bind_of_error rfl, Except.error.injEq, Except.error.injEq]
  | ok trained =>
      obtain ⟨f, hf⟩ := hp.exists_score ht htrain
      rw [bind_of_ok rfl, hf]
      exact iff_of_false nofun nofun

/-! ## What stops a run -/

/-- The failures of a run, by the stages that fail. -/
inductive Stopped (α : Type) [Arithmetic α] [Draws γ α] (p : Plan) (g : γ)
    (left right : Contents) : Error → Prop
  | loading {e : Error} : p.collections left right = .error e → Stopped α p g left right e
  | counting {ls rs : List Record} {e : Error} : p.collections left right = .ok (ls, rs) →
      tally p.comparator ls rs = .error e → Stopped α p g left right e
  | lacking {ls rs : List Record} {t : Tally} : p.Tallied left right ls rs t →
      p.job.training.Lacks ls rs → Stopped α p g left right (.invalidModel .emptyTally)
  | crowded {ls rs : List Record} {t : Tally} : p.Tallied left right ls rs t →
      ¬ p.job.training.Lacks ls rs → p.Crowded → Stopped α p g left right (.misuse .vectorTooLong)
  | training {ls rs : List Record} {t : Tally} {e : Error} : p.Ready left right ls rs t →
      (p.train g t ls rs : Observed (Event α) (Trained α)).result = .error e →
      Stopped α p g left right e

theorem Checked.outcome_eq_error_iff (hp : p.Checked) (hunit : Arithmetic.KeepsUnit α)
    (hsink : sink.Answers) :
    p.outcome g left right sink s = .error e ↔ p.Stopped α g left right e := by
  rw [outcome_eq hsink]
  constructor
  · intro h
    rcases bind_eq_error_iff.mp h with h | ⟨⟨ls, rs⟩, hloaded, h⟩
    · exact .loading h
    rcases bind_eq_error_iff.mp h with h | ⟨t, htally, h⟩
    · exact .counting hloaded h
    have ht : p.Tallied left right ls rs t := ⟨hloaded, htally⟩
    by_cases hlacks : p.job.training.Lacks ls rs
    · rw [hp.conclude_of_lacks hunit ht hlacks] at h
      obtain rfl := Except.error.inj h
      exact .lacking ht hlacks
    by_cases hcrowded : p.Crowded
    · rw [hp.conclude_of_crowded ht hlacks hcrowded] at h
      obtain rfl := Except.error.inj h
      exact .crowded ht hlacks hcrowded
    · exact .training ⟨ht, hlacks, hcrowded⟩ ((hp.conclude_eq_error_iff htally).mp h)
  · intro h
    cases h with
    | loading h => exact bind_of_error h
    | counting hloaded h => exact (bind_of_ok hloaded).trans (bind_of_error h)
    | lacking ht hlacks =>
        exact (bind_of_ok ht.collections).trans
          ((bind_of_ok ht.tally).trans (hp.conclude_of_lacks hunit ht hlacks))
    | crowded ht hlacks hcrowded =>
        exact (bind_of_ok ht.collections).trans
          ((bind_of_ok ht.tally).trans (hp.conclude_of_crowded ht hlacks hcrowded))
    | training h htrain =>
        exact (bind_of_ok h.tallied.collections).trans ((bind_of_ok h.tallied.tally).trans
          ((hp.conclude_eq_error_iff h.tallied.tally).mpr htrain))

end Outcome

section Stopped

variable {γ α : Type} [Arithmetic α] [Draws γ α] {g : γ}

theorem exists_trained_of_not_stopped (h : ∀ e, ¬ p.Stopped α g left right e) :
    ∃ ls rs t, p.Ready left right ls rs t ∧
      ∃ trained, (p.train g t ls rs : Observed (Event α) (Trained α)).result = .ok trained := by
  cases hloaded : p.collections left right with
  | error e => exact absurd (.loading hloaded) (h e)
  | ok collections =>
      obtain ⟨ls, rs⟩ := collections
      cases htally : tally p.comparator ls rs with
      | error e => exact absurd (.counting hloaded htally) (h e)
      | ok t =>
          have ht : p.Tallied left right ls rs t := ⟨hloaded, htally⟩
          have henough : ¬ p.job.training.Lacks ls rs := fun hlacks => h _ (.lacking ht hlacks)
          have hready : p.Ready left right ls rs t :=
            ⟨ht, henough, fun hcrowded => h _ (.crowded ht henough hcrowded)⟩
          refine ⟨ls, rs, t, hready, ?_⟩
          cases htrain : (p.train g t ls rs : Observed (Event α) (Trained α)).result with
          | error e => exact absurd (.training hready htrain) (h e)
          | ok trained => exact ⟨trained, rfl⟩

theorem Ready.not_stopped {trained : Trained α} (hready : p.Ready left right ls rs t)
    (htrain : (p.train g t ls rs).result = .ok trained) : ¬ p.Stopped α g left right e := by
  intro h
  cases h with
  | loading h => cases hready.tallied.collections.symm.trans h
  | counting hloaded h =>
      obtain ⟨rfl, rfl⟩ :=
        Prod.mk.inj (Except.ok.inj (hready.tallied.collections.symm.trans hloaded))
      cases hready.tallied.tally.symm.trans h
  | lacking ht hlacks =>
      obtain ⟨rfl, rfl, -⟩ := ht.unique hready.tallied
      exact hready.enough hlacks
  | crowded _ _ hcrowded => exact hready.room hcrowded
  | training h htrain' =>
      obtain ⟨rfl, rfl, rfl⟩ := h.tallied.unique hready.tallied
      cases htrain.symm.trans htrain'

end Stopped

/-! ## Explanations -/

/-- What can be in the way of a run: a file, a value, the pairs, the number of classes, or an
estimation that degenerates. -/
inductive Obstacle {γ : Type} (α : Type) [Arithmetic α] [Draws γ α] (p : Plan) (g : γ)
    (left right : Contents) : Error → Prop
  | loading {path : String} {cause : Error} : Intake.Fault cause →
      p.collections left right = .error (.recordLoading path cause) →
      Obstacle α p g left right (.recordLoading path cause)
  | counting {ls rs : List Record} {value : String} : p.collections left right = .ok (ls, rs) →
      tally p.comparator ls rs = .error (.notNumeric value .number) →
      Obstacle α p g left right (.notNumeric value .number)
  | lacking {ls rs : List Record} {t : Tally} : p.Tallied left right ls rs t →
      p.job.training.Lacks ls rs → Obstacle α p g left right (.invalidModel .emptyTally)
  | crowded {ls rs : List Record} {t : Tally} : p.Tallied left right ls rs t →
      ¬ p.job.training.Lacks ls rs → p.Crowded → Obstacle α p g left right (.misuse .vectorTooLong)
  | cls {ls rs : List Record} {t : Tally} {cls : Nat} : p.Ready left right ls rs t →
      p.job.training ≠ .supervised →
      (p.train g t ls rs : Observed (Event α) (Trained α)).result = .error (.degenerateClass cls) →
      Obstacle α p g left right (.degenerateClass cls)
  | pattern {ls rs : List Record} {t : Tally} {index : Nat} : p.Ready left right ls rs t →
      p.job.training ≠ .supervised →
      (p.train g t ls rs : Observed (Event α) (Trained α)).result =
        .error (.degeneratePattern index) →
      Obstacle α p g left right (.degeneratePattern index)

/-- The errors of settings that do not fit together, and of records that do not fit the settings. -/
inductive Misfit : Error → Prop
  | unknownColumn (role : ColumnRole) (name : String) : Misfit (.unknownColumn role name)
  | unknownField (name : String) : Misfit (.unknownField name)
  | columnCount (expected actual : Nat) : Misfit (.columnCount expected actual)
  | invalidComparator (flaw : ComparatorFlaw) : Misfit (.invalidComparator flaw)
  | invalidConfig (flaw : SettingFlaw) : Misfit (.invalidConfig flaw)
  | missingId : Misfit .missingId
  | comparatorMismatch : Misfit .comparatorMismatch

/-- An outcome that is no misfit.  If it is a failure, an obstacle explains it; if it is not, a model
was trained. -/
structure Explained {γ β : Type} (α : Type) [Arithmetic α] [Draws γ α] (p : Plan) (g : γ)
    (left right : Contents) (outcome : Except Error β) : Prop where
  success : (∃ y, outcome = .ok y) ↔ ∃ ls rs t, p.Ready left right ls rs t ∧
    ∃ trained, (p.train g t ls rs : Observed (Event α) (Trained α)).result = .ok trained
  obstacle : ∀ e, outcome = .error e → p.Obstacle α g left right e
  fits : ∀ e, Misfit e → outcome ≠ .error e
  loading : ∀ path cause, outcome = .error (.recordLoading path cause) ↔
    p.collections left right = .error (.recordLoading path cause)
  notNumeric : ∀ value kind, outcome = .error (.notNumeric value kind) ↔
    ∃ ls rs, p.collections left right = .ok (ls, rs) ∧
      Linkage.tally p.comparator ls rs = .error (.notNumeric value kind)
  invalidModel : ∀ flaw, outcome = .error (.invalidModel flaw) ↔
    flaw = .emptyTally ∧ ∃ ls rs t, p.Tallied left right ls rs t ∧ p.job.training.Lacks ls rs
  misuse : ∀ promise, outcome = .error (.misuse promise) ↔
    promise = .vectorTooLong ∧ p.Crowded ∧
      ∃ ls rs t, p.Tallied left right ls rs t ∧ ¬ p.job.training.Lacks ls rs

section Explained

variable {γ α : Type} [Arithmetic α] [Draws γ α] {g : γ}

/-- The failures of the training, past its arguments, are those of an estimation that
degenerates. -/
def Degenerates (α : Type) [Arithmetic α] [Draws γ α] (p : Plan) (g : γ)
    (left right : Contents) : Prop :=
  ∀ ls rs t e, p.Ready left right ls rs t →
    (p.train g t ls rs : Observed (Event α) (Trained α)).result = .error e →
    p.job.training ≠ .supervised ∧ Degenerate e

theorem Checked.learns_of_ready (hp : p.Checked) (hunit : Arithmetic.KeepsUnit α)
    (hready : p.Ready left right ls rs t) : p.Learns α ls rs t :=
  hp.learns hunit (hp.loaded hready.tallied.collections) hready.tallied.tally hready.enough
    hready.room

theorem Checked.obstacle_of_stopped (hp : p.Checked)
    (hdegenerates : p.Degenerates α g left right) (h : p.Stopped α g left right e) :
    p.Obstacle α g left right e := by
  cases h with
  | loading h =>
      obtain ⟨path, cause, hfault, rfl⟩ := hp.collections_eq_error h
      exact .loading hfault h
  | counting hloaded h =>
      obtain ⟨value, rfl⟩ := hp.tally_eq_error (hp.loaded hloaded) h
      exact .counting hloaded h
  | lacking ht hlacks => exact .lacking ht hlacks
  | crowded ht hlacks hcrowded => exact .crowded ht hlacks hcrowded
  | training hready htrain =>
      obtain ⟨hmode, he⟩ := hdegenerates _ _ _ _ hready htrain
      cases he with
      | cls => exact .cls hready hmode htrain
      | pattern => exact .pattern hready hmode htrain

theorem Checked.explained {β : Type} {outcome : Except Error β} (hp : p.Checked)
    (hstopped : ∀ e, outcome = .error e ↔ p.Stopped α g left right e)
    (hdegenerates : p.Degenerates α g left right) : p.Explained α g left right outcome := by
  have hobstacle : ∀ e, outcome = .error e → p.Obstacle α g left right e :=
    fun e h => hp.obstacle_of_stopped hdegenerates ((hstopped e).mp h)
  refine ⟨?_, hobstacle, ?_, ?_, ?_, ?_, ?_⟩
  · constructor
    · rintro ⟨y, rfl⟩
      refine exists_trained_of_not_stopped ?_
      intro e h
      cases (hstopped e).mpr h
    · rintro ⟨ls, rs, t, hready, trained, htrain⟩
      cases houtcome : outcome with
      | ok y => exact ⟨y, rfl⟩
      | error e => exact absurd ((hstopped e).mp houtcome) (hready.not_stopped htrain)
  · intro e hmisfit h
    have hfound := hobstacle e h
    -- No obstacle has the error of a misfit.
    cases hmisfit <;> cases hfound
  · intro path cause
    refine ⟨?_, fun h => (hstopped _).mpr (.loading h)⟩
    intro h
    cases hobstacle _ h with
    | loading _ h => exact h
  · intro value kind
    constructor
    · intro h
      cases hobstacle _ h with
      | counting hloaded htally => exact ⟨_, _, hloaded, htally⟩
    · rintro ⟨ls, rs, hloaded, h⟩
      exact (hstopped _).mpr (.counting hloaded h)
  · intro flaw
    constructor
    · intro h
      cases hobstacle _ h with
      | lacking ht hlacks => exact ⟨rfl, _, _, _, ht, hlacks⟩
    · rintro ⟨rfl, ls, rs, t, ht, hlacks⟩
      exact (hstopped _).mpr (.lacking ht hlacks)
  · intro promise
    constructor
    · intro h
      cases hobstacle _ h with
      | crowded ht hlacks hcrowded => exact ⟨rfl, hcrowded, _, _, _, ht, hlacks⟩
    · rintro ⟨rfl, hcrowded, ls, rs, t, ht, hlacks⟩
      exact (hstopped _).mpr (.crowded ht hlacks hcrowded)

end Explained

/-! ## What a run relies on -/

section Dependable

variable {γ α : Type} [Arithmetic α] [Draws γ α]

/-- The problem that a training leaves to the runs of its estimation. -/
inductive Poses (p : Plan) (ls rs : List Record) (t : Tally) : Problem α → Prop
  | unsupervised {classes : Nat} : p.job.training = .unsupervised classes →
      Poses p ls rs t ⟨p.comparator.levels, classes, t.entries, [], 0⟩
  | semiSupervised {lambda : Float} {matched unmatched : Tally} :
      p.job.training = .semiSupervised lambda →
      tallyTruth p.comparator ls rs = .ok (matched, unmatched) →
      Poses p ls rs t ⟨p.comparator.levels, 2, t.entries,
        [matched, unmatched].map Tally.entries, Arithmetic.ofFloat lambda⟩

/-- What a run looks up exists, and the pairs that it has compared can be compared again. -/
structure Dependable (γ α : Type) [Arithmetic α] [Ord α] [Draws γ α] (p : Plan)
    (left right : Contents) : Prop where
  sources : p.left.Sound ∧ p.right.Sound
  loaded : ∀ ls rs, p.collections left right = .ok (ls, rs) → p.Loaded ls rs
  reaches : ∀ ls rs, p.collections left right = .ok (ls, rs) →
    ∀ l ∈ ls, ∀ r ∈ rs, p.comparator.Reaches l r
  solved : ∀ ls rs t (problem : Problem α), p.Ready left right ls rs t →
    p.Poses ls rs t problem → ∃ finish : Solution α → Except Error (Trained α), ∀ g : γ,
      (p.train g t ls rs : Observed (Event α) (Trained α)).result =
        (problem.solve p.job.stopRule g).1.result >>= finish
  estimate : ∀ ls rs t (problem : Problem α), p.Tallied left right ls rs t →
    p.Poses ls rs t problem → problem.Fitting ∧
      ∀ (g : γ) n u, problem.Steps n (problem.start g).1 u → u.Sized problem
  truth : ∀ ls rs t, p.Tallied left right ls rs t →
    (∀ classes, p.job.training ≠ .unsupervised classes) →
    ∃ truth, tallyTruth p.comparator ls rs = .ok truth
  scores : ∀ (g : γ) ls rs t trained, p.Tallied left right ls rs t →
    (p.train g t ls rs : Observed (Event α) (Trained α)).result = .ok trained →
    ∃ f, p.score t ls rs trained = .ok f

theorem Checked.fitting_of_poses (hp : p.Checked) (ht : tally p.comparator ls rs = .ok t)
    {problem : Problem α} (h : p.Poses ls rs t problem) : problem.Fitting := by
  cases h with
  | @unsupervised classes hmode =>
      exact Problem.fitting_of_tallies
        ((Training.Tallies.unsupervised classes).sound hp.numbered ht) (Nat.zero_le _)
  | @semiSupervised lambda _ _ hmode htruth =>
      exact Problem.fitting_of_tallies
        ((Training.Tallies.semiSupervised lambda htruth).sound hp.numbered ht) le_rfl

/-- The training of a learner that takes what it is given makes a model of what the runs find. -/
theorem Learns.exists_finish {problem : Problem α} (h : p.Learns α ls rs t)
    (hr : p.job.stopRule.check = .ok ()) (hposes : p.Poses ls rs t problem) :
    ∃ finish : Solution α → Except Error (Trained α), ∀ g : γ,
      (p.train g t ls rs : Observed (Event α) (Trained α)).result =
        (problem.solve p.job.stopRule g).1.result >>= finish := by
  cases hposes with
  | unsupervised hmode =>
      cases h with
      | unsupervised hmode' _ hcheck =>
          obtain rfl := Training.unsupervised.inj (hmode.symm.trans hmode')
          refine ⟨fun s => (modelOfUnlabeled p.comparator s).map fun fit =>
            ⟨fit.model, some fit.report⟩, ?_⟩
          intro g
          rw [train_unsupervised hmode, result_learnUnsupervised hcheck, Traversal.map_bind_eq]
      | supervised hmode' => cases hmode.symm.trans hmode'
      | semiSupervised hmode' => cases hmode.symm.trans hmode'
  | semiSupervised hmode htruth =>
      cases h with
      | unsupervised hmode' => cases hmode.symm.trans hmode'
      | supervised hmode' => cases hmode.symm.trans hmode'
      | semiSupervised hmode' htruth' hfilled hlambda =>
          obtain rfl := Training.semiSupervised.inj (hmode.symm.trans hmode')
          obtain ⟨rfl, rfl⟩ := Prod.mk.inj (Except.ok.inj (htruth.symm.trans htruth'))
          refine ⟨fun s => (modelOfLabeled p.comparator 1 s).map fun fit =>
            ⟨fit.model, some fit.report⟩, ?_⟩
          intro g
          rw [train_semiSupervised hmode htruth,
            result_learnSemiSupervised hfilled hlambda hr rfl, Traversal.map_bind_eq]
          rfl

theorem Checked.dependable [Ord α] (hp : p.Checked) (hunit : Arithmetic.KeepsUnit α)
    (left right : Contents) : p.Dependable γ α left right where
  sources := ⟨hp.left, hp.right⟩
  loaded := fun _ _ hloaded => hp.loaded hloaded
  reaches := by
    intro ls rs hloaded l hl r hr
    exact hp.reaches ((hp.loaded hloaded).left l hl) ((hp.loaded hloaded).right r hr)
  solved := by
    intro ls rs t problem hready hposes
    exact (hp.learns_of_ready hunit hready).exists_finish hp.stopRule hposes
  estimate := by
    intro ls rs t problem ht hposes
    have hfitting := hp.fitting_of_poses ht.tally hposes
    exact ⟨hfitting, fun g n u hsteps => hsteps.sized hfitting (problem.sized_start g)⟩
  truth := by
    intro ls rs t ht hmode
    obtain ⟨ts, hts⟩ := hp.exists_tallies (hp.loaded ht.collections) ht.tally
    generalize p.job.training = training at hts hmode
    cases hts with
    | unsupervised classes => exact absurd rfl (hmode classes)
    | supervised htruth => exact ⟨_, htruth⟩
    | semiSupervised _ htruth => exact ⟨_, htruth⟩
  scores := fun _ _ _ _ _ ht htrain => hp.exists_score ht.tally htrain

end Dependable

/-- A run of a plan that was made fails only because of a file, a value or the pairs, or for want of
room.  It is not refused for settings that do not fit together or records that do not fit the
settings.  It is refused a model just if the pairs that the training needs are lacking, refused a
value just if the counting is, and breaks no promise but that there is room for the classes.  What
it looks up exists.  In any arithmetic there is one more way to fail, which is that a learned row is
refused for its sum; with exact numbers there is none. -/
theorem outcome_explained {currentYear : Int} {j : Job} (hmake : make currentYear j = .ok p)
    (left right : Contents) :
    (∀ (σ γ α : Type) [Arithmetic α] [Ord α] [Draws γ α], Arithmetic.KeepsUnit α →
      p.Dependable γ α left right ∧
      ∀ (g : γ) (sink : Sink σ α) (s : σ), sink.Answers →
        (∃ e, RowSumRefused e ∧ p.outcome g left right sink s = .error e) ∨
          p.Explained α g left right (p.outcome g left right sink s)) ∧
    ∀ (σ γ : Type) [Ord Extended] [Draws γ Extended], Simplex.UnitDraws γ →
      ∀ (g : γ) (sink : Sink σ Extended) (s : σ), sink.Answers →
        p.Explained Extended g left right (p.outcome g left right sink s) := by
  have hp := checked_of_make hmake
  constructor
  · intro σ γ α _ _ _ hunit
    refine ⟨hp.dependable hunit left right, ?_⟩
    intro g sink s hsink
    -- A refused sum is the one failure without an obstacle behind it.
    by_cases hrefused : ∃ e, RowSumRefused e ∧ p.outcome g left right sink s = .error e
    · exact .inl hrefused
    · refine .inr (hp.explained (fun e => hp.outcome_eq_error_iff hunit hsink) ?_)
      intro ls rs t e hready htrain
      refine ((hp.learns_of_ready hunit hready).train_eq_error hp.stopRule htrain).resolve_right ?_
      intro hsum
      exact hrefused ⟨e, hsum, (hp.outcome_eq_error_iff hunit hsink).mpr (.training hready htrain)⟩
  · intro σ γ _ _ hdraws g sink s hsink
    refine hp.explained (fun e => hp.outcome_eq_error_iff Extended.keepsUnit hsink) ?_
    intro ls rs t e hready htrain
    exact (hp.learns_of_ready Extended.keepsUnit hready).train_degenerate hdraws hp.stopRule htrain

end Plan

theorem Float.keepsUnit : Arithmetic.KeepsUnit Float :=
  fun _ hlow hhigh => ⟨hlow, hhigh⟩

/-- Exact numbers as scores. -/
noncomputable instance exactScoreOrd : Ord Extended where
  compare := Extended.order

/-! ### Strangers, and a crowd -/

namespace Club

def elsewhere : Contents :=
  .ok (Text.utf8 "2,z,zoe\n")

def stranger : Record :=
  (schema 1).recordOf ["2", "z", "zoe"] "0"

theorem ready : plan.Ready before after lefts rights counts where
  tallied := ⟨rfl, rfl⟩
  enough := by
    have hann : lefts[0].key = rights[0].key ∧ lefts[0].id = rights[0].id := by decide
    have hbob : lefts[1].key = rights[0].key ∧ lefts[1].id ≠ rights[0].id := by decide
    rintro (hmatched | hunmatched)
    · exact hmatched _ (List.getElem_mem _) _ (List.getElem_mem _) hann.1 hann.2
    · exact hbob.2 (hunmatched _ (List.getElem_mem _) _ (List.getElem_mem _) hbob.1)
  room := by
    rintro ⟨classes, hmode, -⟩
    cases hmode

/-- Learns as many classes as no vector has places. -/
def crowdedJob : Job :=
  { job with training := .unsupervised Simplex.limit }

def crowdedPlan : Plan :=
  { plan with job := crowdedJob }

theorem stopped_crowded {γ α : Type} [Arithmetic α] [Draws γ α] (g : γ) :
    crowdedPlan.Stopped α g before after (.misuse .vectorTooLong) := by
  have htallied : crowdedPlan.Tallied before after lefts rights counts := ⟨rfl, rfl⟩
  refine .crowded htallied ?_ ⟨Simplex.limit, rfl, le_rfl⟩
  have hann : lefts[0].key = rights[0].key := by decide
  exact fun hlacks => hlacks _ (List.getElem_mem _) _ (List.getElem_mem _) hann

theorem lacks_stranger : Training.supervised.Lacks lefts [stranger] := by
  refine .inl ?_
  intro l hl r hr hkey
  obtain rfl := List.mem_singleton.mp hr
  have hhouse : ∀ l ∈ lefts, l.key ≠ stranger.key := by decide
  exact absurd hkey (hhouse l hl)

end Club

/-- The run over both files of the club succeeds.  Nobody shares a house with the stranger, so there
is nothing to learn from.  Without the first file there is nothing to load. -/
theorem Plan.outcome_explained_stranger :
    make 2024 Club.job = .ok Club.plan ∧
      Club.plan.Dependable Generator Float Club.before Club.elsewhere ∧
      (∃ summary, Club.plan.outcome (Generator.ofSeed 1) Club.before Club.after
        (MatchList.sink : Sink (MatchList Extended) Extended) {} = .ok summary) ∧
      Club.plan.outcome (Generator.ofSeed 1) Club.before Club.elsewhere
        (MatchList.sink : Sink (MatchList Extended) Extended) {} =
          .error (.invalidModel .emptyTally) ∧
      Club.plan.outcome (Generator.ofSeed 1) (.error .notFound) Club.elsewhere
        (MatchList.sink : Sink (MatchList Extended) Extended) {} =
          .error (.recordLoading "before.csv" (.noFile .notFound)) := by
  obtain ⟨hany, hexact⟩ := outcome_explained Club.make_plan Club.before Club.elsewhere
  have hlacking := hexact (MatchList Extended) Generator Generator.unitDraws (Generator.ofSeed 1)
    MatchList.sink {} MatchList.answers
  have hboth := (outcome_explained Club.make_plan Club.before Club.after).2 (MatchList Extended)
    Generator Generator.unitDraws (Generator.ofSeed 1) MatchList.sink {} MatchList.answers
  have hlearns := (checked_of_make Club.make_plan).learns_of_ready Extended.keepsUnit Club.ready
  have hmissing := (outcome_explained Club.make_plan (.error .notFound) Club.elsewhere).2
    (MatchList Extended) Generator Generator.unitDraws (Generator.ofSeed 1) MatchList.sink {}
    MatchList.answers
  have htallied : Club.plan.Tallied Club.before Club.elsewhere Club.lefts [Club.stranger]
      ⟨Club.comparator, []⟩ := ⟨rfl, rfl⟩
  exact ⟨Club.make_plan, (hany (MatchList Float) Generator Float Float.keepsUnit).1,
    hboth.success.mpr ⟨_, _, _, Club.ready, hlearns.exists_trained rfl _⟩,
    (hlacking.invalidModel _).mpr ⟨rfl, _, _, _, htallied, Club.lacks_stranger⟩,
    (hmissing.loading _ _).mpr rfl⟩

/-- A plan that was made can ask for more classes than any vector has places.  Its run does not keep
the promise that there is room, whatever the arithmetic. -/
theorem Plan.outcome_crowded :
    make 2024 Club.crowdedJob = .ok Club.crowdedPlan ∧
      Club.crowdedPlan.outcome (Generator.ofSeed 1) Club.before Club.after
        (MatchList.sink : Sink (MatchList Float) Float) {} = .error (.misuse .vectorTooLong) ∧
      Club.crowdedPlan.outcome (Generator.ofSeed 1) Club.before Club.after
        (MatchList.sink : Sink (MatchList Extended) Extended) {} =
          .error (.misuse .vectorTooLong) := by
  have hmake : make 2024 Club.crowdedJob = .ok Club.crowdedPlan := rfl
  have hp := checked_of_make hmake
  refine ⟨hmake, ?_, ?_⟩
  · exact (hp.outcome_eq_error_iff Float.keepsUnit MatchList.answers).mpr (Club.stopped_crowded _)
  · exact (hp.outcome_eq_error_iff Extended.keepsUnit MatchList.answers).mpr (Club.stopped_crowded _)

end Linkage
