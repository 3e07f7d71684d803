import Linkage.Proofs.Estimation.Comparable
import Linkage.Proofs.Estimation.Learner
import Linkage.Proofs.Exact.Order

/-
# Restarts

Several runs are made one after the other, each from where the one before has left the source of
random numbers.  The first failure ends them.  Else the best solution is kept on the way, and a new
one takes its place only if it is better: so the earliest of the best is returned.

With exact numbers every log-likelihood that a run reaches is a number or the lower end, and of two
such one is the better or they are equal.  Without this more runs could be worse.
-/

namespace Linkage

open Extended (undefined)

def Event.isFinish {α : Type} : Event α → Bool
  | iteration .. => false
  | finish _ => true

namespace Problem

variable {γ α : Type} [Arithmetic α] [Draws γ α] {p : Problem α} {r : StopRule} {g : γ}
  {events : Array (Event α)}

/-! ## Runs after other runs -/

omit [Draws γ α] in
theorem continueRun_eq (p : Problem α) (tolerance : α) (left done : Nat) (s : Estimate α) (old : α)
    (events : Array (Event α)) : p.continueRun tolerance left done s old events =
      ⟨events ++ (p.continueRun tolerance left done s old #[]).events,
        (p.continueRun tolerance left done s old #[]).result⟩ := by
  induction left generalizing done s old events with
  | zero => simp [continueRun, finish]
  | succ left ih =>
      cases hstep : p.step s with
      | error e => simp [continueRun_error hstep]
      | ok t =>
          rw [continueRun_succ hstep, continueRun_succ hstep]
          split
          case isTrue => simp only [finish, Array.push_eq_append, Array.empty_append, Array.append_assoc]
          case isFalse =>
            rw [ih, ih _ _ _ (#[].push _)]
            simp only [Array.push_eq_append, Array.empty_append, Array.append_assoc]

/-- What some runs have told, one after the other. -/
def toldBy (xs : List (Observed (Event α) (Solution α))) : Array (Event α) :=
  xs.foldr (fun x told => x.events ++ told) #[]

theorem runFrom_start_eq (p : Problem α) (r : StopRule) (g : γ) (events : Array (Event α)) :
    p.runFrom r (p.start g).1 events =
      ⟨events ++ (p.run r g).1.events, (p.run r g).1.result⟩ :=
  p.continueRun_eq ..

theorem runs_succ (p : Problem α) (r : StopRule) (left : Nat) (best : Option (Solution α)) (g : γ)
    (events : Array (Event α)) : p.runs r (left + 1) best g events =
      match (p.run r g).1.result with
      | .error e => (⟨events ++ (p.run r g).1.events, .error e⟩, (p.run r g).2)
      | .ok new => p.runs r left (some (better best new)) (p.run r g).2
          (events ++ (p.run r g).1.events) := by
  rw [runs]
  simp only [runFrom_start_eq]
  cases (p.run r g).1.result <;> rfl

/-- What some calls of a run one after the other return. -/
def calls (p : Problem α) (r : StopRule) : (count : Nat) → γ → List (Observed (Event α) (Solution α))
  | 0, _ => []
  | n + 1, g => (p.run r g).1 :: calls p r n (p.run r g).2

theorem length_calls (p : Problem α) (r : StopRule) (n : Nat) (g : γ) :
    (p.calls r n g).length = n := by
  induction n generalizing g with
  | zero => rfl
  | succ n ih => exact congrArg (· + 1) (ih _)

theorem take_calls (p : Problem α) (r : StopRule) {n m : Nat} (h : n ≤ m) (g : γ) :
    (p.calls r m g).take n = p.calls r n g := by
  induction n generalizing m g with
  | zero => rfl
  | succ n ih =>
      obtain ⟨m, rfl⟩ := Nat.exists_eq_succ_of_ne_zero (Nat.ne_zero_of_lt h)
      exact congrArg (_ :: ·) (ih (Nat.le_of_succ_le_succ h) _)

theorem calls_restarts (p : Problem α) (r : StopRule) (restarts n : Nat) (g : γ) :
    p.calls { r with restarts } n g = p.calls r n g := by
  induction n generalizing g with
  | zero => rfl
  | succ n ih => exact congrArg (_ :: ·) (ih _)

theorem mem_calls {n : Nat} {x : Observed (Event α) (Solution α)} (h : x ∈ p.calls r n g) :
    ∃ g' : γ, x = (p.run r g').1 := by
  induction n generalizing g with
  | zero => cases h
  | succ n ih =>
      rcases List.mem_cons.mp h with rfl | h
      · exact ⟨g, rfl⟩
      · exact ih h

/-- The first failure of the calls ends the runs. -/
theorem runs_of_failure {left : Nat} {best : Option (Solution α)}
    {before after : List (Observed (Event α) (Solution α))} {x : Observed (Event α) (Solution α)}
    {e : Error} (hcalls : p.calls r left g = before ++ x :: after)
    (hbefore : ∀ y ∈ before, ∃ solution, y.result = .ok solution) (hx : x.result = .error e) :
    p.runs r left best g events =
      (⟨events ++ toldBy (before ++ [x]), .error e⟩,
        p.sourceAt (before.length + 1) g) := by
  induction left generalizing before best g events with
  | zero => simp [calls] at hcalls
  | succ left ih =>
      cases before with
      | nil =>
          obtain ⟨rfl, -⟩ := List.cons.inj hcalls
          simp only [runs_succ, hx]
          simp [toldBy, sourceAt, run]
      | cons y before =>
          obtain ⟨rfl, hrest⟩ := List.cons.inj hcalls
          obtain ⟨new, hnew⟩ := hbefore _ List.mem_cons_self
          simp only [runs_succ, hnew]
          rw [ih hrest fun z hz => hbefore z (List.mem_cons_of_mem _ hz)]
          simp [toldBy, sourceAt, Array.append_assoc, run]

/-- The best of some solutions that come after others. -/
def keep (best : Option (Solution α)) (solutions : List (Solution α)) : Option (Solution α) :=
  solutions.foldl (fun best new => some (better best new)) best

/-- If no call fails, the best solution is returned after all of them. -/
theorem runs_of_solutions {left : Nat} {best : Option (Solution α)} {solutions : List (Solution α)}
    {b : Solution α} (hcalls : (p.calls r left g).map Observed.result = solutions.map .ok)
    (hbest : keep best solutions = some b) :
    p.runs r left best g events =
      (⟨events ++ toldBy (p.calls r left g), .ok b⟩, p.sourceAt left g) := by
  induction left generalizing solutions best g events with
  | zero =>
      obtain rfl : solutions = [] := by simpa [calls] using hcalls
      obtain rfl : best = some b := hbest
      simp [runs, calls, toldBy, sourceAt]
  | succ left ih =>
      cases solutions with
      | nil => simp [calls] at hcalls
      | cons new solutions =>
          obtain ⟨hnew, hcalls⟩ := List.cons.inj hcalls
          simp only [runs_succ, hnew]
          rw [ih hcalls hbest]
          simp [calls, toldBy, sourceAt, Array.append_assoc, run]

/-! ## The ends that are told -/

omit [Draws γ α] in
theorem Told.countP_isFinish {s : Estimate α} {solution : Solution α} {told : List (Event α)}
    (h : p.Told r s solution told) : told.countP Event.isFinish = 1 := by
  have hnone : (p.reports s solution.report.iterations).countP Event.isFinish = 0 := by
    rw [reports, List.countP_map]
    exact List.countP_eq_zero.mpr fun _ _ => Bool.false_ne_true
  rw [h.events, List.countP_append, hnone]
  rfl

theorem countP_isFinish_run {solution : Solution α} (h : (p.run r g).1.result = .ok solution) :
    (p.run r g).1.events.countP Event.isFinish = 1 := by
  rw [← Array.countP_toList]
  exact (told_of_run h).countP_isFinish

theorem countP_isFinish_calls {n : Nat} {solutions : List (Solution α)}
    (h : (p.calls r n g).map Observed.result = solutions.map .ok) :
    (toldBy (p.calls r n g)).countP Event.isFinish = n := by
  induction n generalizing g solutions with
  | zero => rfl
  | succ n ih =>
      cases solutions with
      | nil => simp [calls] at h
      | cons new solutions =>
          obtain ⟨hnew, hrest⟩ := List.cons.inj h
          have hhead : (toldBy (p.calls r (n + 1) g)).countP Event.isFinish =
              (p.run r g).1.events.countP Event.isFinish +
                (toldBy (p.calls r n (p.run r g).2)).countP Event.isFinish :=
            Array.countP_append
          rw [hhead, ih hrest, countP_isFinish_run hnew, Nat.add_comm]

end Problem

/-! ## The earliest of the best -/

/-- A solution that no other one is better than, and the first such. -/
def EarliestBest (solutions : List (Solution Extended)) (best : Solution Extended) : Prop :=
  ∃ before after, solutions = before ++ best :: after ∧
    (∀ s ∈ before, s.report.logLikelihood < best.report.logLikelihood) ∧
    ∀ s ∈ after, s.report.logLikelihood ≤ best.report.logLikelihood

namespace EarliestBest

variable {solutions : List (Solution Extended)} {best new : Solution Extended}

theorem mem (h : EarliestBest solutions best) : best ∈ solutions := by
  obtain ⟨before, after, rfl, -⟩ := h
  exact List.mem_append_right _ List.mem_cons_self

/-- No solution is better, if they all compare. -/
theorem le (h : EarliestBest solutions best)
    (hdefined : ∀ s ∈ solutions, s.report.logLikelihood ≠ undefined) {s : Solution Extended}
    (hs : s ∈ solutions) : s.report.logLikelihood ≤ best.report.logLikelihood := by
  have hbest := hdefined best h.mem
  obtain ⟨before, after, rfl, hbefore, hafter⟩ := h
  rcases List.mem_append.mp hs with hs | hs
  · exact .inl (hbefore s hs)
  · rcases List.mem_cons.mp hs with rfl | hs
    · exact Extended.le_refl hbest
    · exact hafter s hs

theorem better (h : EarliestBest solutions best)
    (hdefined : ∀ s ∈ solutions, s.report.logLikelihood ≠ undefined)
    (hnew : new.report.logLikelihood ≠ undefined) :
    EarliestBest (solutions ++ [new]) (Problem.better (some best) new) := by
  by_cases hle : new.report.logLikelihood ≤ best.report.logLikelihood
  · rw [show Problem.better (some best) new = best from if_pos hle]
    obtain ⟨before, after, rfl, hbefore, hafter⟩ := h
    refine ⟨before, after ++ [new], by simp, hbefore, ?_⟩
    intro s hs
    rcases List.mem_append.mp hs with hs | hs
    · exact hafter s hs
    · rw [List.mem_singleton.mp hs]
      exact hle
  · rw [show Problem.better (some best) new = new from if_neg hle]
    have hlt := Extended.lt_of_not_le hnew (hdefined best h.mem) hle
    refine ⟨solutions, [], rfl, ?_, nofun⟩
    intro s hs
    exact Extended.lt_of_le_of_lt (h.le hdefined hs) hlt

end EarliestBest

/-- The one that is kept is the earliest of the best. -/
theorem Problem.exists_keep (first : Solution Extended) (solutions : List (Solution Extended))
    (hdefined : ∀ s ∈ first :: solutions, s.report.logLikelihood ≠ undefined) :
    ∃ best, keep none (first :: solutions) = some best ∧ EarliestBest (first :: solutions) best := by
  induction solutions using List.reverseRecOn with
  | nil => exact ⟨first, rfl, [], [], rfl, nofun, nofun⟩
  | append_singleton solutions new ih =>
      have hold : ∀ s ∈ first :: solutions, s.report.logLikelihood ≠ undefined := fun s hs =>
        hdefined s (by rw [← List.cons_append]; exact List.mem_append_left _ hs)
      obtain ⟨best, hkeep, hbest⟩ := ih hold
      refine ⟨better (some best) new, ?_, hbest.better hold (hdefined new (by simp))⟩
      rw [keep, ← List.cons_append, List.foldl_append]
      exact congrArg (fun kept => some (better kept new)) hkeep

namespace Problem

variable {γ : Type} [Draws γ Extended] {p : Problem ℝ} {r : StopRule} {g : γ}

theorem defined_of_calls (hdraws : Simplex.UnitDraws γ) (hp : p.Sound) {n : Nat}
    {solutions : List (Solution Extended)}
    (h : (p.extend.calls r n g).map Observed.result = solutions.map .ok) :
    ∀ s ∈ solutions, s.report.logLikelihood ≠ undefined := by
  intro s hs
  have hmem : Except.ok s ∈ (p.extend.calls r n g).map Observed.result := h ▸ List.mem_map_of_mem hs
  obtain ⟨x, hx, hresult⟩ := List.mem_map.mp hmem
  obtain ⟨g', rfl⟩ := mem_calls hx
  exact Extended.ne_undefined_of_lt_top (logLikelihood_run_lt_top hdraws hp hresult)

/-- If all calls have a solution, the earliest of the best is found, after all of them. -/
theorem solve_of_solutions (hdraws : Simplex.UnitDraws γ) (hp : p.Sound) (hr : 0 < r.restarts)
    {solutions : List (Solution Extended)}
    (h : (p.extend.calls r r.restarts g).map Observed.result = solutions.map .ok) :
    ∃ best, EarliestBest solutions best ∧ p.extend.solve r g =
      (⟨toldBy (p.extend.calls r r.restarts g), .ok best⟩, p.extend.sourceAt r.restarts g) := by
  have hlength : solutions.length = r.restarts := by
    rw [← length_calls p.extend r r.restarts g, ← List.length_map Observed.result, h, List.length_map]
  cases solutions with
  | nil => exact absurd hlength hr.ne
  | cons first solutions =>
      obtain ⟨best, hkeep, hbest⟩ := exists_keep first solutions (defined_of_calls hdraws hp h)
      refine ⟨best, hbest, ?_⟩
      rw [solve, runs_of_solutions h hkeep, Array.empty_append]

theorem calls_cases {α : Type} (xs : List (Observed (Event α) (Solution α))) :
    (∃ solutions : List (Solution α), xs.map Observed.result = solutions.map .ok) ∨
      ∃ before x after e, xs = before ++ x :: after ∧
        (∀ y ∈ before, ∃ solution, y.result = .ok solution) ∧ x.result = .error e := by
  induction xs with
  | nil => exact .inl ⟨[], rfl⟩
  | cons x xs ih =>
      cases hx : x.result with
      | error e => exact .inr ⟨[], x, xs, e, rfl, nofun, hx⟩
      | ok first =>
          rcases ih with ⟨solutions, h⟩ | ⟨before, y, after, e, rfl, hbefore, hy⟩
          · exact .inl ⟨first :: solutions, by rw [List.map_cons, hx, h]; rfl⟩
          · exact .inr ⟨x :: before, y, after, e, rfl,
              List.forall_mem_cons.mpr ⟨⟨first, hx⟩, hbefore⟩, hy⟩

theorem solve_of_failure {before after : List (Observed (Event Extended) (Solution Extended))}
    {x : Observed (Event Extended) (Solution Extended)} {e : Error}
    (hcalls : p.extend.calls r r.restarts g = before ++ x :: after)
    (hbefore : ∀ y ∈ before, ∃ solution, y.result = .ok solution) (hx : x.result = .error e) :
    p.extend.solve r g = (⟨toldBy (before ++ [x]), .error e⟩,
      p.extend.sourceAt (before.length + 1) g) := by
  rw [solve, runs_of_failure hcalls hbefore hx, Array.empty_append]

theorem solutions_of_solve {best : Solution Extended}
    (h : (p.extend.solve r g).1.result = .ok best) : ∃ solutions : List (Solution Extended),
      (p.extend.calls r r.restarts g).map Observed.result = solutions.map .ok := by
  rcases calls_cases (p.extend.calls r r.restarts g) with
    hsolutions | ⟨before, x, after, e, hcalls, hbefore, hx⟩
  · exact hsolutions
  · rw [solve_of_failure hcalls hbefore hx] at h
    cases h

theorem map_result_take {n m : Nat} (h : n ≤ m) {solutions : List (Solution Extended)}
    (hcalls : (p.extend.calls r m g).map Observed.result = solutions.map .ok) :
    (p.extend.calls r n g).map Observed.result = (solutions.take n).map .ok := by
  rw [← take_calls _ _ h, List.map_take, hcalls, List.map_take]

/-- Fewer runs have a solution too, and it is not better. -/
theorem exists_solve_fewer (hdraws : Simplex.UnitDraws γ) (hp : p.Sound) {restarts : Nat}
    (hpos : 0 < restarts) (hle : restarts ≤ r.restarts) {best : Solution Extended}
    (h : (p.extend.solve r g).1.result = .ok best) : ∃ fewer,
      (p.extend.solve { r with restarts } g).1.result = .ok fewer ∧
        fewer.report.logLikelihood ≤ best.report.logLikelihood := by
  obtain ⟨solutions, hcalls⟩ := solutions_of_solve h
  obtain ⟨best', hbest, hsolve⟩ := solve_of_solutions hdraws hp (hpos.trans_le hle) hcalls
  obtain rfl : best' = best := by
    rw [hsolve] at h
    exact Except.ok.inj h
  have hfewer := map_result_take hle hcalls
  rw [← calls_restarts p.extend r restarts] at hfewer
  obtain ⟨fewer, hearliest, hsolve'⟩ :=
    solve_of_solutions hdraws hp (r := { r with restarts }) hpos hfewer
  refine ⟨fewer, by rw [hsolve'], ?_⟩
  exact hbest.le (defined_of_calls hdraws hp hcalls) (List.mem_of_mem_take hearliest.mem)

/-- With exact numbers, restarts make the runs that as many calls of a run make one after the other,
and they fail if and only if one of these does.

* If all calls have solutions, the earliest of the best is returned.  All calls are told then, with
  as many ends as there are runs.
* The first failure is returned.  Only the calls up to it are told, and the numbers they have drawn
  are all that is drawn.
* If more runs have a solution, fewer have one, and it is not better. -/
theorem solve_keeps_best (hdraws : Simplex.UnitDraws γ) (hp : p.Sound) (hr : 0 < r.restarts)
    (g : γ) :
    (∀ solutions : List (Solution Extended),
      (p.extend.calls r r.restarts g).map Observed.result = solutions.map .ok →
      (toldBy (p.extend.calls r r.restarts g)).countP Event.isFinish = r.restarts ∧
        ∃ best, EarliestBest solutions best ∧ p.extend.solve r g =
          (⟨toldBy (p.extend.calls r r.restarts g), .ok best⟩,
            p.extend.sourceAt r.restarts g)) ∧
    (∀ before x after e, p.extend.calls r r.restarts g = before ++ x :: after →
      (∀ y ∈ before, ∃ solution, y.result = .ok solution) → x.result = .error e →
      p.extend.solve r g = (⟨toldBy (before ++ [x]), .error e⟩,
        p.extend.sourceAt (before.length + 1) g)) ∧
    ((∃ e, (p.extend.solve r g).1.result = .error e) ↔
      ∃ x ∈ p.extend.calls r r.restarts g, ∃ e, x.result = .error e) ∧
    ∀ restarts best, 0 < restarts → restarts ≤ r.restarts →
      (p.extend.solve r g).1.result = .ok best → ∃ fewer,
        (p.extend.solve { r with restarts } g).1.result = .ok fewer ∧
          fewer.report.logLikelihood ≤ best.report.logLikelihood := by
  refine ⟨?_, ?_, ⟨?_, ?_⟩, ?_⟩
  · exact fun _ h => ⟨countP_isFinish_calls h, solve_of_solutions hdraws hp hr h⟩
  · exact fun _ _ _ _ hcalls hbefore hx => solve_of_failure hcalls hbefore hx
  · rintro ⟨e, he⟩
    rcases calls_cases (p.extend.calls r r.restarts g) with
      ⟨solutions, h⟩ | ⟨before, x, after, e', hcalls, -, hx⟩
    · obtain ⟨best, -, hsolve⟩ := solve_of_solutions hdraws hp hr h
      rw [hsolve] at he
      cases he
    · exact ⟨x, hcalls ▸ List.mem_append_right _ List.mem_cons_self, e', hx⟩
  · rintro ⟨x, hx, e, he⟩
    cases hsolve : (p.extend.solve r g).1.result with
    | error e' => exact ⟨e', rfl⟩
    | ok best =>
        obtain ⟨solutions, h⟩ := solutions_of_solve hsolve
        have hmem : x.result ∈ solutions.map .ok := h ▸ List.mem_map_of_mem hx
        obtain ⟨solution, -, hok⟩ := List.mem_map.mp hmem
        rw [he] at hok
        cases hok
  · exact fun _ _ hpos hle h => exists_solve_fewer hdraws hp hpos hle h

theorem solve_keeps_best_firstNames :
    Simplex.UnitDraws Generator ∧ (FirstNames.problem [] 0).Sound ∧ ∃ first second best fewer,
      0 < 2 ∧ EarliestBest [first, second] best ∧
      ((FirstNames.problem [] 0).extend.solve { restarts := 2 }
        FirstNames.generator).1.result = .ok best ∧
      ((FirstNames.problem [] 0).extend.solve {} FirstNames.generator).1.result = .ok fewer ∧
      fewer.report.logLikelihood ≤ best.report.logLikelihood := by
  have htallies : ∀ t ∈ [FirstNames.same], t.Filled FirstNames.comparator := by
    simpa using FirstNames.filled FirstNames.same List.mem_cons_self
  have hlambda : (0 : ℝ) ≤ 0 ∧ (0 : ℝ) ≤ 1 := ⟨le_rfl, zero_le_one⟩
  have hp : (FirstNames.problem [] 0).Sound := sound_of_filled htallies (Nat.zero_le 2) hlambda
  have hrun := fun g => @FirstNames.exists_runFrom_eq_ok [] 0 htallies (Nat.zero_le 2) hlambda
    (fun h => absurd h (lt_irrefl 0)) { restarts := 2 } g
  obtain ⟨first, hfirst⟩ := hrun FirstNames.generator FirstNames.draws_pos
  obtain ⟨second, hsecond⟩ := hrun (start _ FirstNames.generator).2 <| by
    rw [FirstNames.start_snd [] 0]
    exact ⟨Generator.value_pos (by decide +kernel), Generator.value_pos (by decide +kernel),
      Generator.value_pos (by decide +kernel)⟩
  obtain ⟨hsolutions, -, -, hfewer⟩ := solve_keeps_best Generator.unitDraws hp
    (r := { restarts := 2 }) Nat.two_pos FirstNames.generator
  obtain ⟨-, best, hbest, hsolve⟩ :=
    hsolutions [first, second] (congrArg₂ (fun x y => [x, y]) hfirst hsecond)
  have hresult := congrArg (fun x => x.1.result) hsolve
  obtain ⟨fewer, hone, hle⟩ := hfewer 1 best Nat.one_pos Nat.one_lt_two.le hresult
  exact ⟨Generator.unitDraws, hp, first, second, best, fewer, Nat.two_pos, hbest, hresult, hone, hle⟩

end Problem

end Linkage
