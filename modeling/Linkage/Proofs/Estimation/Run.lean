import Linkage.Proofs.Estimation.Extension

/-
# What a run reports

The iterations that a run reports are the steps from its first estimate: each reports the
log-likelihood that its step reached, and by how much this differs from the one before, which the
iteration before it has reported.
-/

namespace Linkage.Problem

variable {α : Type} [Arithmetic α] {p : Problem α}

/-- A number of steps lead from one estimate to another. -/
inductive Steps (p : Problem α) : Nat → Estimate α → Estimate α → Prop
  | refl (s : Estimate α) : Steps p 0 s s
  | cons {n : Nat} {s t u : Estimate α} : p.step s = .ok t → Steps p n t u → Steps p (n + 1) s u

theorem Steps.snoc {n : Nat} {s t u : Estimate α} (h : p.Steps n s t) (hstep : p.step t = .ok u) :
    p.Steps (n + 1) s u := by
  induction h with
  | refl => exact .cons hstep (.refl u)
  | cons hfirst _ ih => exact .cons hfirst (ih hstep)

theorem Steps.unique {n : Nat} {s t u : Estimate α} (ht : p.Steps n s t) (hu : p.Steps n s u) :
    t = u := by
  induction ht with
  | refl =>
      cases hu
      rfl
  | cons hstep _ ih =>
      cases hu with
      | cons hstep' hu =>
          obtain rfl := Except.ok.inj (hstep.symm.trans hstep')
          exact ih hu

/-! ## The events of a run -/

theorem continueRun_succ {tolerance : α} {left done : Nat} {s t : Estimate α} {old : α}
    {events : Array (Event α)} (h : p.step s = .ok t) :
    p.continueRun tolerance (left + 1) done s old events =
      if 0 ≤ p.logLikelihood t - old ∧ p.logLikelihood t - old < tolerance then
        finish t ⟨done + 1, p.logLikelihood t, true⟩
          (events.push (.iteration (done + 1) (p.logLikelihood t) (p.logLikelihood t - old)))
      else p.continueRun tolerance left (done + 1) t (p.logLikelihood t)
        (events.push (.iteration (done + 1) (p.logLikelihood t) (p.logLikelihood t - old))) := by
  rw [continueRun, h]

theorem continueRun_error {tolerance : α} {left done : Nat} {s : Estimate α} {old : α}
    {events : Array (Event α)} {e : Error} (h : p.step s = .error e) :
    p.continueRun tolerance (left + 1) done s old events = ⟨events, .error e⟩ := by
  rw [continueRun, h]

omit [Arithmetic α] in
theorem mem_finish {s : Estimate α} {report : Report α} {events : Array (Event α)}
    {event : Event α} :
    event ∈ (finish s report events).events ↔ event ∈ events ∨ event = .finish report :=
  Array.mem_push

theorem mem_continueRun {tolerance : α} {left done : Nat} {s : Estimate α} {old : α}
    {events : Array (Event α)} {event : Event α} (h : event ∈ events) :
    event ∈ (p.continueRun tolerance left done s old events).events := by
  induction left generalizing done s old events with
  | zero => exact mem_finish.mpr (.inl h)
  | succ left ih =>
      cases hstep : p.step s with
      | error e => rwa [continueRun_error hstep]
      | ok t =>
          rw [continueRun_succ hstep]
          split
          case isTrue => exact mem_finish.mpr (.inl (Array.mem_push_of_mem _ h))
          case isFalse => exact ih (Array.mem_push_of_mem _ h)

theorem iteration_mem_continueRun {tolerance : α} {left done : Nat} {s t : Estimate α} {old : α}
    {events : Array (Event α)} (h : p.step s = .ok t) :
    .iteration (done + 1) (p.logLikelihood t) (p.logLikelihood t - old) ∈
      (p.continueRun tolerance (left + 1) done s old events).events := by
  rw [continueRun_succ h]
  split
  case isTrue => exact mem_finish.mpr (.inl (Array.mem_push_self ..))
  case isFalse => exact mem_continueRun (Array.mem_push_self ..)

/-- An iteration of a run is a step from an estimate that steps have reached.  The iteration
before it has reported the log-likelihood of this estimate. -/
structure Reports (p : Problem α) (s : Estimate α) (done : Nat) (events : Array (Event α))
    (number : Nat) (logLikelihood delta : α) (k : Nat) (u w : Estimate α) : Prop where
  number_eq : number = done + k + 1
  steps : p.Steps k s u
  step : p.step u = .ok w
  logLikelihood_eq : logLikelihood = p.logLikelihood w
  delta_eq : delta = p.logLikelihood w - p.logLikelihood u
  previous : 0 < k → ∃ d, Event.iteration (done + k) (p.logLikelihood u) d ∈ events

theorem reports_of_mem_continueRun {tolerance : α} {left done : Nat} {s : Estimate α}
    {events : Array (Event α)} {number : Nat} {logLikelihood delta : α}
    (h : Event.iteration number logLikelihood delta ∈
      (p.continueRun tolerance left done s (p.logLikelihood s) events).events) :
    Event.iteration number logLikelihood delta ∈ events ∨
      ∃ k u w, p.Reports s done
        (p.continueRun tolerance left done s (p.logLikelihood s) events).events
        number logLikelihood delta k u w := by
  induction left generalizing done s events with
  | zero => exact (mem_finish.mp h).imp_right nofun
  | succ left ih =>
      cases hstep : p.step s with
      | error e =>
          rw [continueRun_error hstep] at h
          exact .inl h
      | ok t =>
          rw [continueRun_succ hstep] at h ⊢
          have hnew : ∀ result, Event.iteration number logLikelihood delta ∈ events.push
              (.iteration (done + 1) (p.logLikelihood t) (p.logLikelihood t - p.logLikelihood s)) →
              Event.iteration number logLikelihood delta ∈ events ∨
                ∃ k u w, p.Reports s done result number logLikelihood delta k u w := by
            intro result hmem
            refine (Array.mem_push.mp hmem).imp_right ?_
            intro heq
            obtain ⟨rfl, rfl, rfl⟩ := Event.iteration.inj heq
            exact ⟨0, s, t, rfl, .refl s, hstep, rfl, rfl, nofun⟩
          split at h
          case isTrue hstop =>
            rw [if_pos hstop]
            exact hnew _ ((mem_finish.mp h).resolve_right nofun)
          case isFalse hstop =>
            rw [if_neg hstop]
            rcases ih h with hmem | ⟨k, u, w, hr⟩
            · exact hnew _ hmem
            · refine .inr ⟨k + 1, u, w, ?_, .cons hstep hr.steps, hr.step, hr.logLikelihood_eq,
                hr.delta_eq, ?_⟩
              · rw [hr.number_eq, Nat.add_right_comm done 1 k, Nat.add_assoc done k 1]
              · intro _
                rcases Nat.eq_zero_or_pos k with rfl | hk
                · cases hr.steps
                  exact ⟨_, mem_continueRun (Array.mem_push_self ..)⟩
                · obtain ⟨d, hd⟩ := hr.previous hk
                  refine ⟨d, ?_⟩
                  rwa [Nat.add_right_comm done 1 k, Nat.add_assoc done k 1] at hd

theorem reports_of_mem_runFrom {r : StopRule} {s : Estimate α} {number : Nat}
    {logLikelihood delta : α}
    (h : Event.iteration number logLikelihood delta ∈ (p.runFrom r s #[]).events) :
    ∃ k u w, p.Reports s 0 (p.runFrom r s #[]).events number logLikelihood delta k u w :=
  (reports_of_mem_continueRun h).resolve_left (Array.not_mem_empty _)

/-- The iteration of a number reports the log-likelihood that this number of steps reaches. -/
theorem logLikelihood_eq_of_mem_runFrom {r : StopRule} {s u : Estimate α} {number : Nat}
    {logLikelihood delta : α}
    (h : Event.iteration number logLikelihood delta ∈ (p.runFrom r s #[]).events)
    (hsteps : p.Steps number s u) : logLikelihood = p.logLikelihood u := by
  obtain ⟨k, t, w, hr⟩ := reports_of_mem_runFrom h
  obtain rfl : number = k + 1 := by rw [hr.number_eq, Nat.zero_add]
  rw [hr.logLikelihood_eq, (hr.steps.snoc hr.step).unique hsteps]

/-! ## The result of a run -/

/-- A run from which every step can be made has a result. -/
theorem exists_continueRun_eq_ok {tolerance : α} {left done : Nat} {s : Estimate α} {old : α}
    {events : Array (Event α)} (h : ∀ n u, p.Steps n s u → ∃ v, p.step u = .ok v) :
    ∃ solution, (p.continueRun tolerance left done s old events).result = .ok solution := by
  induction left generalizing done s old events with
  | zero => exact ⟨_, rfl⟩
  | succ left ih =>
      obtain ⟨t, hstep⟩ := h 0 s (.refl s)
      rw [continueRun_succ hstep]
      split
      case isTrue => exact ⟨_, rfl⟩
      case isFalse => exact ih fun n u hu => h (n + 1) u (.cons hstep hu)

/-- What a run finds are the parameters that its steps have reached. -/
theorem steps_of_continueRun {tolerance : α} {left done : Nat} {s : Estimate α} {old : α}
    {events : Array (Event α)} {solution : Solution α}
    (h : (p.continueRun tolerance left done s old events).result = .ok solution) :
    ∃ n u, p.Steps n s u ∧ solution.priors = u.priors ∧ solution.weights = u.weights ∧
      solution.report.iterations = done + n ∧ (0 < left → 0 < n) := by
  induction left generalizing done s old events with
  | zero =>
      obtain rfl := Except.ok.inj h
      exact ⟨0, s, .refl s, rfl, rfl, rfl, id⟩
  | succ left ih =>
      cases hstep : p.step s with
      | error e =>
          rw [continueRun_error hstep] at h
          cases h
      | ok t =>
          rw [continueRun_succ hstep] at h
          split at h
          case isTrue =>
            obtain rfl := Except.ok.inj h
            exact ⟨1, t, .cons hstep (.refl t), rfl, rfl, rfl, fun _ => Nat.one_pos⟩
          case isFalse =>
            obtain ⟨n, u, hsteps, hpriors, hweights, hiterations, -⟩ := ih h
            refine ⟨n + 1, u, .cons hstep hsteps, hpriors, hweights, ?_, fun _ => Nat.succ_pos n⟩
            rw [hiterations, Nat.add_assoc, Nat.add_comm 1 n]

/-- If the first step can be made only when all can, a run fails before its first report or not at
all. -/
theorem runFrom_eq_error {s : Estimate α}
    (h : ∀ t, p.step s = .ok t → ∀ n u, p.Steps n t u → ∃ v, p.step u = .ok v)
    {r : StopRule} {events : Array (Event α)} {e : Error}
    (herror : (p.runFrom r s events).result = .error e) :
    p.step s = .error e ∧ (p.runFrom r s events).events = events := by
  rw [runFrom] at herror ⊢
  cases hleft : r.maxIterations with
  | zero =>
      rw [hleft] at herror
      cases herror
  | succ left =>
      rw [hleft] at herror
      cases hstep : p.step s with
      | error e' =>
          rw [continueRun_error hstep] at herror ⊢
          exact ⟨congrArg Except.error (Except.error.inj herror), rfl⟩
      | ok t =>
          rw [continueRun_succ hstep] at herror
          split at herror
          case isTrue => cases herror
          case isFalse =>
            obtain ⟨solution, hok⟩ := exists_continueRun_eq_ok (h t hstep)
            rw [hok] at herror
            cases herror

/-! ## The best of some runs -/

section Runs

variable {γ : Type} [Draws γ α] {r : StopRule} {left : Nat} {best : Option (Solution α)} {g : γ}
  {events : Array (Event α)} {solution : Solution α}

theorem runs_succ_ok {new : Solution α}
    (h : (p.runFrom r (p.start g).1 events).result = .ok new) :
    p.runs r (left + 1) best g events =
      p.runs r left (some (better best new)) (p.start g).2
        (p.runFrom r (p.start g).1 events).events := by
  rw [runs]
  simp only
  generalize p.runFrom r (p.start g).1 events = run at h ⊢
  cases run with
  | mk events' result =>
      cases h
      rfl

theorem runs_succ_error {e : Error}
    (h : (p.runFrom r (p.start g).1 events).result = .error e) :
    (p.runs r (left + 1) best g events).1.result = .error e := by
  rw [runs]
  simp only
  generalize p.runFrom r (p.start g).1 events = run at h ⊢
  cases run with
  | mk events' result =>
      cases h
      rfl

theorem better_eq (best : Option (Solution α)) (new : Solution α) :
    better best new = new ∨ best = some (better best new) := by
  cases best with
  | none => exact .inl rfl
  | some b =>
      rw [better]
      split
      case isTrue => exact .inr rfl
      case isFalse => exact .inl rfl

/-- What holds of the result of every run holds of the best one. -/
theorem of_runs {q : Solution α → Prop} (hbest : ∀ b, best = some b → q b)
    (hrun : ∀ (g : γ) events new, (p.runFrom r (p.start g).1 events).result = .ok new → q new)
    (h : (p.runs r left best g events).1.result = .ok solution) : q solution := by
  induction left generalizing best g events with
  | zero =>
      cases best with
      | none => cases h
      | some b =>
          obtain rfl := Except.ok.inj h
          exact hbest b rfl
  | succ left ih =>
      cases hfirst : (p.runFrom r (p.start g).1 events).result with
      | error e =>
          rw [runs_succ_error hfirst] at h
          cases h
      | ok new =>
          rw [runs_succ_ok hfirst] at h
          refine ih ?_ h
          intro b hb
          obtain rfl := Option.some.inj hb
          rcases better_eq best new with heq | heq
          · rw [heq]
            exact hrun g events new hfirst
          · exact hbest _ heq

def sourceAt (p : Problem α) : (run : Nat) → γ → γ
  | 0, g => g
  | run + 1, g => sourceAt p run (p.start g).2

theorem exists_runs {q : Solution α → Prop} (hbest : ∀ b, best = some b → q b)
    (hrun : ∀ i < left, ∀ events, ∃ new,
      (p.runFrom r (p.start (p.sourceAt i g)).1 events).result = .ok new ∧ q new)
    (hsome : 0 < left ∨ best.isSome) :
    ∃ solution, (p.runs r left best g events).1.result = .ok solution ∧ q solution := by
  induction left generalizing best g events with
  | zero =>
      obtain ⟨b, rfl⟩ := Option.isSome_iff_exists.mp (hsome.resolve_left (lt_irrefl 0))
      exact ⟨b, rfl, hbest b rfl⟩
  | succ left ih =>
      obtain ⟨new, hnew, hq⟩ := hrun 0 (Nat.succ_pos left) events
      have hfirst : (p.runFrom r (p.start g).1 events).result = .ok new := hnew
      rw [runs_succ_ok hfirst]
      refine ih ?_ (fun i hi => hrun (i + 1) (Nat.succ_lt_succ hi)) (.inr rfl)
      intro b hb
      obtain rfl := Option.some.inj hb
      rcases better_eq best new with heq | heq
      · rw [heq]
        exact hq
      · exact hbest _ heq

theorem of_solve {q : Solution α → Prop}
    (hrun : ∀ (g : γ) events new, (p.runFrom r (p.start g).1 events).result = .ok new → q new)
    (h : (p.solve r g).1.result = .ok solution) : q solution := by
  refine of_runs ?_ hrun h
  intro b hb
  cases hb

theorem exists_solve {q : Solution α → Prop} (hrestarts : 0 < r.restarts)
    (hrun : ∀ i < r.restarts, ∀ events, ∃ new,
      (p.runFrom r (p.start (p.sourceAt i g)).1 events).result = .ok new ∧ q new) :
    ∃ solution, (p.solve r g).1.result = .ok solution ∧ q solution :=
  exists_runs nofun hrun (.inl hrestarts)

end Runs

/-! ## Steps with extended numbers -/

/-- Steps with extended numbers from an estimate with real numbers are steps with real numbers. -/
theorem Steps.of_extend {p : Problem ℝ} {n : Nat} {s : Estimate ℝ} {u : Estimate Extended}
    (h : p.extend.Steps n s.extend u) : ∃ v, u = Estimate.extend v ∧ p.Steps n s v := by
  generalize hs : s.extend = s' at h
  induction h generalizing s with
  | refl => exact ⟨s, hs.symm, .refl s⟩
  | cons hstep _ ih =>
      subst hs
      rw [step_extend] at hstep
      cases ht : p.step s with
      | error e =>
          rw [ht] at hstep
          cases hstep
      | ok t =>
          rw [ht] at hstep
          obtain ⟨v, hv, hsteps⟩ := ih (Except.ok.inj hstep)
          exact ⟨v, hv, .cons ht hsteps⟩

/-- Where every step can be made with real numbers, every step can with extended numbers. -/
theorem exists_step_extend {p : Problem ℝ} {s : Estimate ℝ}
    (h : ∀ n u, p.Steps n s u → ∃ v, p.step u = .ok v) (n : Nat) (u : Estimate Extended)
    (hsteps : p.extend.Steps n s.extend u) : ∃ v, p.extend.step u = .ok v := by
  obtain ⟨t, rfl, hreal⟩ := hsteps.of_extend
  obtain ⟨v, hv⟩ := h n t hreal
  exact ⟨v.extend, by rw [step_extend, hv]; rfl⟩

end Linkage.Problem
