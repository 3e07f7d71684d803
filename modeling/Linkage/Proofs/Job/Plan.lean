import Linkage.Job.Plan
import Linkage.Proofs.Estimation.Learner
import Linkage.Proofs.Join.BlockIndex
import Linkage.Proofs.Score.Counting
import Linkage.Proofs.Score.Sink

/-
# What a run accounts for

A run traverses the blocked pairs three times: it counts them, it scores them, and it tells a sink
about some of them.  However the model was trained, it is over the comparator of the plan.  So the
scores are of the pairs that were counted, and what the sink is told is how many of them have at
least the score of the cutoff.  A sink that keeps what it is told shows that none is told anything
unless all that comes before succeeds.
-/

namespace Linkage

open Traversal (bind_eq_ok_iff bind_of_ok bind_of_error)

namespace Observed

variable {ε β δ : Type}

theorem result_bind (x : Observed ε β) (f : β → Observed ε δ) :
    (x >>= f).result = x.result >>= fun b => (f b).result := by
  show (Observed.bind x f).result = _
  unfold Observed.bind
  cases x.result <;> rfl

theorem result_pure (b : β) : (pure b : Observed ε β).result = pure b := rfl

theorem result_of (result : Except Error β) : (of result : Observed ε β).result = result := rfl

theorem result_note (event : ε) : (note event).result = pure () := rfl

theorem result_mapEvents (f : ε → δ) (x : Observed ε β) : (x.mapEvents f).result = x.result := rfl

end Observed

/-! ## Learned models -/

section Learned

variable {γ α : Type} [Arithmetic α] [Draws γ α] {c : RecordComparator} {t : Tally}
  {ts : List Tally} {fit : Fit α}

theorem comparator_of_checkTallies (h : checkTallies (t :: ts) = .ok c) : t.comparator = c := by
  obtain ⟨first, rest, heq, hc, -⟩ := checkTallies_eq_ok_iff.mp h
  obtain ⟨rfl, -⟩ := List.cons.inj heq
  exact hc

theorem over_modelOfUnlabeled {s : Solution α} (h : modelOfUnlabeled c s = .ok fit) :
    fit.model.Over c := by
  obtain ⟨m, hmake, h⟩ := bind_eq_ok_iff.mp h
  obtain ⟨m', hpriors, h⟩ := bind_eq_ok_iff.mp h
  obtain ⟨m'', hfirst, h⟩ := bind_eq_ok_iff.mp h
  obtain rfl := Except.ok.inj h
  exact .withMatchClasses (.withPriors (.make hmake) hpriors) hfirst

theorem over_modelOfLabeled {matchCount : Nat} {s : Solution α}
    (h : modelOfLabeled c matchCount s = .ok fit) : fit.model.Over c := by
  obtain ⟨m, hmake, h⟩ := bind_eq_ok_iff.mp h
  obtain ⟨m', hpriors, h⟩ := bind_eq_ok_iff.mp h
  obtain rfl := Except.ok.inj h
  exact .withPriors (.make hmake) hpriors

theorem over_learnSupervised {matchCount : Nat} {m : Model α}
    (h : learnSupervised matchCount (t :: ts) = .ok m) : m.Over t.comparator := by
  rw [learnSupervised] at h
  obtain ⟨-, -, h⟩ := bind_eq_ok_iff.mp h
  obtain ⟨c, hcheck, hmake⟩ := bind_eq_ok_iff.mp h
  rw [comparator_of_checkTallies hcheck]
  exact .make hmake

theorem over_learnUnsupervised {classes : Nat} {r : StopRule} {g : γ}
    (h : (learnUnsupervised classes r g t).1.result = .ok fit) : fit.model.Over t.comparator := by
  rw [learnUnsupervised] at h
  cases hcheck : checkUnsupervised classes r t with
  | error e =>
      rw [hcheck] at h
      cases h
  | ok c =>
      rw [hcheck] at h
      obtain ⟨s, -, hs⟩ := bind_eq_ok_iff.mp h
      rw [comparator_of_checkTallies (checkUnsupervised_eq_ok_iff.mp hcheck).2.2.1]
      exact over_modelOfUnlabeled hs

theorem over_learnSemiSupervised {matchCount : Nat} {lambda : α} {r : StopRule} {g : γ}
    (h : (learnSemiSupervised matchCount lambda r g t ts).1.result = .ok fit) :
    fit.model.Over t.comparator := by
  rw [learnSemiSupervised] at h
  split at h
  case h_1 => cases h
  case h_2 c hcheck =>
    obtain ⟨-, -, hcheck⟩ := bind_eq_ok_iff.mp hcheck
    obtain ⟨-, -, hcheck⟩ := bind_eq_ok_iff.mp hcheck
    obtain ⟨-, -, hcheck⟩ := bind_eq_ok_iff.mp hcheck
    obtain ⟨s, -, hs⟩ := bind_eq_ok_iff.mp h
    rw [comparator_of_checkTallies hcheck]
    exact over_modelOfLabeled hs

end Learned

namespace Plan

variable {σ γ α : Type} [Arithmetic α] [Draws γ α] {p : Plan}

theorem make_eq_ok {currentYear : Int} {j : Job} (h : make currentYear j = .ok p) :
    p.job = j ∧ j.check = .ok () ∧ j.left.source 0 = .ok p.left ∧ j.right.source 1 = .ok p.right ∧
      ∃ bindings, j.comparisons.mapM (bindComparison currentYear p.left.schema p.right.schema) =
          .ok bindings ∧
        RecordComparator.make 0 bindings j.handleBlanks = .ok p.comparator := by
  rw [make] at h
  obtain ⟨⟨⟩, hcheck, h⟩ := bind_eq_ok_iff.mp h
  obtain ⟨left, hleft, h⟩ := bind_eq_ok_iff.mp h
  obtain ⟨right, hright, h⟩ := bind_eq_ok_iff.mp h
  obtain ⟨bindings, hbindings, h⟩ := bind_eq_ok_iff.mp h
  obtain ⟨c, hc, h⟩ := bind_eq_ok_iff.mp h
  obtain rfl := Except.ok.inj h
  exact ⟨rfl, hcheck, hleft, hright, bindings, hbindings, hc⟩

theorem make_comparator {currentYear : Int} {j : Job} (h : make currentYear j = .ok p) :
    ∃ bindings, RecordComparator.make 0 bindings j.handleBlanks = .ok p.comparator := by
  obtain ⟨-, -, -, -, bindings, -, hc⟩ := make_eq_ok h
  exact ⟨bindings, hc⟩

theorem over_train (hc : p.comparator.Numbered) {g : γ} {t : Tally} {left right : List Record}
    (ht : t.comparator = p.comparator) {trained : Trained α}
    (h : (p.train g t left right).result = .ok trained) :
    trained.model.Over p.comparator := by
  rw [train] at h
  split at h
  case h_1 classes =>
    obtain ⟨fit, hfit, h⟩ := bind_eq_ok_iff.mp h
    obtain rfl := Except.ok.inj h
    exact ht ▸ over_learnUnsupervised hfit
  case h_2 =>
    obtain ⟨⟨matched, unmatched⟩, htruth, h⟩ := bind_eq_ok_iff.mp h
    obtain ⟨m, hm, h⟩ := bind_eq_ok_iff.mp h
    obtain rfl := Except.ok.inj h
    exact (sound_tallyTruth hc htruth).1.1 ▸ over_learnSupervised hm
  case h_3 lambda =>
    split at h
    case h_1 => cases h
    case h_2 matched unmatched htruth =>
      obtain ⟨fit, hfit, h⟩ := bind_eq_ok_iff.mp h
      obtain rfl := Except.ok.inj h
      exact ht ▸ over_learnSemiSupervised hfit

/-! ## The stages before the writing -/

section Stages

variable [Ord α]

/-- The failures of the stages before the writing: of the loading, the counting, the training and
the matching. -/
inductive StageFails (α : Type) [Arithmetic α] [Ord α] [Draws γ α] (p : Plan) (g : γ)
    (left right : Contents) : Error → Prop
  | loading {e : Error} :
      (p.load left right : Observed (Milestone α) _).result = .error e →
      StageFails α p g left right e
  | counting {ls rs : List Record} {e : Error} :
      (p.load left right : Observed (Milestone α) _).result = .ok (ls, rs) →
      tally p.comparator ls rs = .error e → StageFails α p g left right e
  | training {ls rs : List Record} {t : Tally} {e : Error} :
      (p.load left right : Observed (Milestone α) _).result = .ok (ls, rs) →
      tally p.comparator ls rs = .ok t →
      (p.train g t ls rs : Observed (Event α) (Trained α)).result = .error e →
      StageFails α p g left right e
  | matching {ls rs : List Record} {t : Tally} {trained : Trained α} {e : Error} :
      (p.load left right : Observed (Milestone α) _).result = .ok (ls, rs) →
      tally p.comparator ls rs = .ok t → (p.train g t ls rs).result = .ok trained →
      p.score t ls rs trained = .error e → StageFails α p g left right e

/-- What a run finds, stage by stage. -/
theorem result_findings (p : Plan) (g : γ) (left right : Contents) :
    (p.findings g left right : Observed (Milestone α) (Findings α)).result = (do
      let (ls, rs) ← (p.load left right : Observed (Milestone α) _).result
      let t ← tally p.comparator ls rs
      let trained ← (p.train g t ls rs).result
      p.score t ls rs trained) := by
  simp only [findings, counted, Observed.result_bind, Observed.result_of, Observed.result_pure,
    Observed.result_note, Observed.result_mapEvents, bind_assoc, pure_bind]

theorem StageFails.result_eq {g : γ} {left right : Contents} {e : Error}
    (h : StageFails α p g left right e) :
    (p.findings g left right : Observed (Milestone α) (Findings α)).result = .error e := by
  rw [result_findings]
  cases h with
  | loading hload => exact bind_of_error hload
  | counting hload htally => exact (bind_of_ok hload).trans (bind_of_error htally)
  | training hload htally htrain =>
      exact (bind_of_ok hload).trans ((bind_of_ok htally).trans (bind_of_error htrain))
  | matching hload htally htrain hscore =>
      exact (bind_of_ok hload).trans ((bind_of_ok htally).trans ((bind_of_ok htrain).trans hscore))

theorem exists_of_findings {g : γ} {left right : Contents} {f : Findings α}
    (h : (p.findings g left right).result = .ok f) : ∃ ls rs t trained,
      (p.load left right : Observed (Milestone α) _).result = .ok (ls, rs) ∧
      tally p.comparator ls rs = .ok t ∧ (p.train g t ls rs).result = .ok trained ∧
      p.score t ls rs trained = .ok f := by
  rw [result_findings] at h
  obtain ⟨⟨ls, rs⟩, hload, h⟩ := bind_eq_ok_iff.mp h
  obtain ⟨t, htally, h⟩ := bind_eq_ok_iff.mp h
  obtain ⟨trained, htrain, h⟩ := bind_eq_ok_iff.mp h
  exact ⟨ls, rs, t, trained, hload, htally, htrain, h⟩

/-! ## What the findings account for -/

/-- The tally and the score map account for the blocked pairs of what was loaded. -/
theorem findings_account [Std.TransOrd α] (hc : p.comparator.Numbered) {g : γ}
    {ls rs : List Record} {t : Tally} {trained : Trained α} {f : Findings α}
    (htally : tally p.comparator ls rs = .ok t) (htrain : (p.train g t ls rs).result = .ok trained)
    (hscore : p.score t ls rs trained = .ok f) :
    f.tally.total = (crossPairs ls rs).countP sameBlock ∧
      f.scores.size = (crossPairs ls rs).countP sameBlock ∧
      f.scores.scoreCount ≤ f.tally.size ∧
      ∀ cutoff, f.scores.countAtLeast cutoff =
        (crossPairs ls rs).countP fun x => sameBlock x && f.trained.model.reaches cutoff x := by
  obtain ⟨⟨⟩, hrule, hscore⟩ := bind_eq_ok_iff.mp hscore
  obtain ⟨scores, hscores, hscore⟩ := bind_eq_ok_iff.mp hscore
  obtain rfl := Except.ok.inj hscore
  -- The work was divided, but the scores are those of one traversal, as the counts are.
  have hsequential := Model.matchSequential_of_matchParallel hrule hscores
  have hover := over_train hc (sound_tally hc htally).1 htrain
  have hcounted := hover.shaped.counted hc hsequential htally
  have htotal : t.total = (crossPairs ls rs).countP sameBlock := by
    rw [total_of_tally hc htally, BlockIndex.pairs_ofRecords, List.countP_eq_length_filter]
  refine ⟨htotal, hcounted.size_eq.trans htotal, hcounted.scoreCount_le, ?_⟩
  intro cutoff
  rw [Model.countAtLeast_of_matchSequential hsequential, BlockIndex.pairs_ofRecords,
    List.countP_filter]
  simp only [Bool.and_comm]

/-! ## The writing -/

theorem run_write_error (p : Plan) (sink : Sink σ α) (e : Error) (s : σ) :
    (p.write sink (.error e)).run s = (.error e, s) := rfl

theorem run_write_ok (p : Plan) (sink : Sink σ α) (f : Findings α) (s : σ) :
    (p.write sink (.ok f)).run s =
      (((f.scores.write sink (Arithmetic.ofFloat p.job.cutoff)).run s).1.map fun n => ⟨f, n⟩,
        ((f.scores.write sink (Arithmetic.ofFloat p.job.cutoff)).run s).2) := by
  show (f.scores.write sink _ >>= fun n => pure ⟨f, n⟩ : Action σ (Summary α)).run s = _
  rw [Action.run_bind]
  cases (f.scores.write sink (Arithmetic.ofFloat p.job.cutoff)).run s with
  | mk result s' => cases result <;> rfl

/-- A run that succeeds accounts for every pair: the pairs that were counted, those that were
scored, and the pairs with equal keys among all pairs of what was loaded are equally many, there are
not more scores than patterns, and what was written are the pairs that have at least the score of
the cutoff, each of which the sink was told about.  A run that fails in a stage before the writing
leaves the sink as it was, and told nothing. -/
theorem run_accounts [Std.TransOrd α] {currentYear : Int} {j : Job}
    (hmake : make currentYear j = .ok p) (g : γ) (left right : Contents) (sink : Sink σ α) (s : σ) :
    ∃ (result : Except Error (Summary α)) (s' : σ) (told : List (Notice α)),
      (p.run g left right sink).2.run s = (result, s') ∧
      (p.run g left right sink.logged).2.run (s, []) = (result, s', told) ∧
      (∀ summary, result = .ok summary → ∃ ls rs,
        (p.load left right : Observed (Milestone α) _).result = .ok (ls, rs) ∧
        summary.findings.tally.total = (crossPairs ls rs).countP sameBlock ∧
        summary.findings.scores.size = (crossPairs ls rs).countP sameBlock ∧
        summary.findings.scores.scoreCount ≤ summary.findings.tally.size ∧
        (summary.written = (crossPairs ls rs).countP fun x => sameBlock x &&
          summary.findings.trained.model.reaches (Arithmetic.ofFloat p.job.cutoff) x) ∧
        summary.written = told.countP Notice.isAccept) ∧
      ∀ e, StageFails α p g left right e → result = .error e ∧ s' = s ∧ told = [] := by
  obtain ⟨bindings, hcomparator⟩ := make_comparator hmake
  have hc := RecordComparator.numbered_of_make hcomparator
  simp only [run]
  -- A stage fails just if there are no findings to write about.
  cases hfound : (p.findings g left right : Observed (Milestone α) (Findings α)).result with
  | error e =>
      refine ⟨.error e, s, [], run_write_error p sink e s, run_write_error p _ e _, nofun, ?_⟩
      intro e' he
      rw [he.result_eq] at hfound
      obtain rfl := Except.error.inj hfound
      exact ⟨rfl, rfl, rfl⟩
  | ok f =>
      obtain ⟨told, -, hlogged, hok⟩ :=
        f.scores.write_logged sink (Arithmetic.ofFloat p.job.cutoff) s
      rw [run_write_ok, run_write_ok, hlogged]
      refine ⟨_, _, told, rfl, rfl, ?_, ?_⟩
      · intro summary hsummary
        obtain ⟨n, hn, rfl⟩ := Traversal.map_eq_ok_iff.mp hsummary
        obtain ⟨ls, rs, t, trained, hload, htally, htrain, hscore⟩ := exists_of_findings hfound
        obtain ⟨htotal, hsize, hcount, hreach⟩ := findings_account hc htally htrain hscore
        obtain ⟨rfl, rfl⟩ := hok n hn
        refine ⟨ls, rs, hload, htotal, hsize, hcount, ?_, ?_⟩
        · rw [ScoreMap.length_matchesFrom, hreach]
        · rw [ScoreMap.countP_notices]
      · intro e he
        rw [he.result_eq] at hfound
        cases hfound

end Stages

end Plan

/-! ### The members of a club -/

namespace Club

/-- A file with the members of a club, by their house. -/
def side (path : String) : Side where
  path := path
  columns := ["house", "id", "name"]
  blocking := ["house"]
  id := some "id"

/-- Compares the names of the members, and learns from their ids. -/
def job : Job where
  left := side "before.csv"
  right := side "after.csv"
  comparisons := [⟨"name", none, .standard .exact⟩]
  handleBlanks := false
  training := .supervised

def schema (serial : Nat) : Schema :=
  ⟨serial, ["house", "id", "name"], ["house"], none, some "id"⟩

def comparator : RecordComparator :=
  ⟨0, [⟨"name", "name", 0, 0, .exact⟩], false, 2⟩

def plan : Plan :=
  ⟨job, ⟨"before.csv", schema 0, .delimited {}⟩, ⟨"after.csv", schema 1, .delimited {}⟩, comparator⟩

/-- Three members of one house. -/
def before : Contents :=
  .ok (Text.utf8 "1,a,ann\n1,b,bob\n1,c,ann\n")

/-- The first of them. -/
def after : Contents :=
  .ok (Text.utf8 "1,a,ann\n")

def member (serial : Nat) (id name number : String) : Record :=
  (schema serial).recordOf ["1", id, name] number

def lefts : List Record :=
  [member 0 "a" "ann" "0", member 0 "b" "bob" "1", member 0 "c" "ann" "2"]

def rights : List Record :=
  [member 1 "a" "ann" "0"]

/-- All pairs. -/
def counts : Tally :=
  ⟨comparator, [⟨0, [0], 1⟩, ⟨1, [1], 2⟩]⟩

def matched : Tally :=
  ⟨comparator, [⟨1, [1], 1⟩]⟩

def unmatched : Tally :=
  ⟨comparator, [⟨0, [0], 1⟩, ⟨1, [1], 1⟩]⟩

theorem make_plan : Plan.make 2024 job = .ok plan := rfl

theorem load_files :
    (plan.load before after : Observed (Milestone Float) _).result = .ok (lefts, rights) := rfl

theorem tally_members : tally comparator lefts rights = .ok counts := rfl

theorem tallyTruth_members : tallyTruth comparator lefts rights = .ok (matched, unmatched) := rfl

theorem shares_matched : (matched.shares : List (List Float)) = [[0, 1]] := rfl

theorem shares_unmatched : (unmatched.shares : List (List Float)) = [[0.5, 0.5]] := rfl

theorem sum_matched : ¬ (1e-6 : Float) < Arithmetic.abs (Arithmetic.sum [0, 1] - 1) := by decide

theorem sum_unmatched : ¬ (1e-6 : Float) < Arithmetic.abs (Arithmetic.sum [0.5, 0.5] - 1) := by
  decide

theorem exists_learned :
    ∃ m : Model Float, learnSupervised 1 [matched, unmatched] = .ok m := by
  have hshares : [matched, unmatched].map Tally.shares =
      ([[[0, 1]], [[0.5, 0.5]]] : Weights Float) := by
    rw [List.map_cons, List.map_cons, shares_matched, shares_unmatched]
    rfl
  have hrows : ∀ rows ∈ ([[[0, 1]], [[0.5, 0.5]]] : Weights Float),
      List.Forall₂ Weights.RowOk rows comparator.levels := by
    intro rows hrows
    rcases List.mem_pair.mp hrows with rfl | rfl
    · exact .cons ⟨rfl, sum_matched⟩ .nil
    · exact .cons ⟨rfl, sum_unmatched⟩ .nil
  have hmake : ∃ m : Model Float, Model.make comparator [[[0, 1]], [[0.5, 0.5]]] 1 = .ok m :=
    ⟨_, Model.make_eq_ok_iff.mpr ⟨rfl, hrows, rfl⟩⟩
  obtain ⟨m, hm⟩ := hmake
  have htallies : checkTallies [matched, unmatched] = .ok comparator := rfl
  rw [← hshares] at hm
  exact ⟨m, (bind_of_ok rfl).trans ((bind_of_ok htallies).trans hm)⟩

theorem exists_findings (g : Generator) :
    ∃ f, (plan.findings g before after : Observed (Milestone Float) (Findings Float)).result =
      .ok f := by
  obtain ⟨m, hm⟩ := exists_learned
  have htrain : (plan.train g counts lefts rights).result = .ok (⟨m, none⟩ : Trained Float) :=
    (bind_of_ok tallyTruth_members).trans (bind_of_ok hm)
  have hscores : ∃ scores, m.matchParallel {} (.ofRecords lefts) rights = .ok scores := by
    have hover : m.Over comparator := over_learnSupervised hm
    have halike := hover.shaped.alike_matchSequential (rfl : comparator.Numbered) lefts rights
    rw [Model.matchParallel, if_pos (by decide)]
    cases hresult : m.matchSequential (.ofRecords lefts) rights with
    | ok scores => exact ⟨scores, rfl⟩
    | error e =>
        have hfails := (halike.error_iff e).mp hresult
        rw [tally_members] at hfails
        cases hfails
  obtain ⟨scores, hscores⟩ := hscores
  have hscore : plan.score counts lefts rights ⟨m, none⟩ = .ok ⟨3, 1, counts, ⟨m, none⟩, scores⟩ :=
    (bind_of_ok rfl).trans (bind_of_ok hscores)
  refine ⟨⟨3, 1, counts, ⟨m, none⟩, scores⟩, ?_⟩
  rw [Plan.result_findings]
  exact (bind_of_ok load_files).trans ((bind_of_ok tally_members).trans
    ((bind_of_ok htrain).trans hscore))

end Club

/-- With both files the three pairs are accounted for; without the first one nothing is told. -/
theorem Plan.run_accounts_club :
    make 2024 Club.job = .ok Club.plan ∧
      (∃ (summary : Summary Float) (l : MatchList Float) (told : List (Notice Float)),
        (Club.plan.run (Generator.ofSeed 1) Club.before Club.after MatchList.sink).2.run {} =
          (.ok summary, l) ∧
        (Club.plan.run (Generator.ofSeed 1) Club.before Club.after
          (Sink.logged MatchList.sink)).2.run ({}, []) = (.ok summary, l, told) ∧
        summary.findings.tally.total = 3 ∧ summary.findings.scores.size = 3 ∧
        summary.findings.scores.scoreCount ≤ summary.findings.tally.size ∧
        summary.written = told.countP Notice.isAccept) ∧
      ∃ e : Error, (Club.plan.run (Generator.ofSeed 1) (.error .notFound) Club.after
        (Sink.logged (MatchList.sink : Sink (MatchList Float) Float))).2.run ({}, []) =
          (.error e, {}, []) := by
  refine ⟨Club.make_plan, ?_, ?_⟩
  · obtain ⟨result, l, told, hrun, hlogged, haccounts, -⟩ := run_accounts Club.make_plan
      (Generator.ofSeed 1) Club.before Club.after (MatchList.sink : Sink (MatchList Float) Float) {}
    obtain ⟨f, hf⟩ := Club.exists_findings (Generator.ofSeed 1)
    have hwritten : ∃ summary, result = .ok summary := by
      rw [run, hf, run_write_ok, MatchList.run_write] at hrun
      exact ⟨_, (congrArg Prod.fst hrun).symm⟩
    obtain ⟨summary, rfl⟩ := hwritten
    obtain ⟨ls, rs, hload, htotal, hsize, hcount, -, htold⟩ := haccounts summary rfl
    obtain ⟨rfl, rfl⟩ := Prod.mk.inj (Except.ok.inj (Club.load_files.symm.trans hload))
    exact ⟨summary, l, told, hrun, hlogged, htotal, hsize, hcount, htold⟩
  · obtain ⟨result, l, told, -, hlogged, -, hfails⟩ := run_accounts Club.make_plan
      (Generator.ofSeed 1) (.error .notFound) Club.after
      (MatchList.sink : Sink (MatchList Float) Float) {}
    obtain ⟨rfl, rfl, rfl⟩ := hfails _ (.loading rfl)
    exact ⟨_, hlogged⟩

end Linkage
