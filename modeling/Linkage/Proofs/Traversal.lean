import Linkage.Error
import Mathlib.Data.List.Forall2

/-
# The first failure of a traversal

A list is traversed from the left and the first failure ends the traversal.  So there is a result
just if every element has one, and the failure of the whole is that of the first element that has
none.  It is the same with actions on a state: each goes on from the state that the one before it left.
-/

namespace Linkage.Traversal

variable {ε α β : Type} {f : α → Except ε β}

theorem bind_eq_ok_iff {x : Except ε α} {y : β} :
    (x >>= f) = .ok y ↔ ∃ z, x = .ok z ∧ f z = .ok y := by
  cases x <;> simp [bind, Except.bind]

theorem bind_eq_error_iff {x : Except ε α} {e : ε} :
    (x >>= f) = .error e ↔ x = .error e ∨ ∃ z, x = .ok z ∧ f z = .error e := by
  cases x <;> simp [bind, Except.bind]

theorem bind_of_ok {x : Except ε α} {z : α} (h : x = .ok z) : (x >>= f) = f z := by
  rw [h]
  rfl

theorem bind_of_error {x : Except ε α} {e : ε} (h : x = .error e) : (x >>= f) = .error e := by
  rw [h]
  rfl

theorem map_eq_ok_iff {g : α → β} {x : Except ε α} {y : β} :
    x.map g = .ok y ↔ ∃ z, x = .ok z ∧ g z = y := by
  cases x <;> simp [Except.map]

theorem map_eq_error_iff {g : α → β} {x : Except ε α} {e : ε} :
    x.map g = .error e ↔ x = .error e := by
  cases x <;> simp [Except.map]

theorem map_bind_eq {γ : Type} {g : β → γ} (x : Except ε α) :
    (x >>= f).map g = x >>= fun y => (f y).map g := by
  cases x <;> rfl

theorem mapM_cons_ok {x : α} {xs : List α} {y : β} {ys : List β} (hx : f x = .ok y)
    (hxs : xs.mapM f = .ok ys) : (x :: xs).mapM f = .ok (y :: ys) := by
  simp only [List.mapM_cons, hx, hxs]
  rfl

theorem mapM_cons_error {x : α} {xs : List α} {e : ε} (hx : f x = .error e) :
    (x :: xs).mapM f = .error e := by
  rw [List.mapM_cons, hx]
  rfl

theorem mapM_cons_eq_error_iff {x : α} {xs : List α} {y : β} {e : ε} (hx : f x = .ok y) :
    (x :: xs).mapM f = .error e ↔ xs.mapM f = .error e := by
  cases hxs : xs.mapM f with
  | error e' => simp [List.mapM_cons, hx, hxs, bind, Except.bind]
  | ok ys => simp [mapM_cons_ok hx hxs]

theorem mapM_eq_ok_iff {xs : List α} {ys : List β} :
    xs.mapM f = .ok ys ↔ List.Forall₂ (fun x y => f x = .ok y) xs ys := by
  induction xs generalizing ys with
  | nil => cases ys <;> simp [pure, Except.pure]
  | cons x xs ih =>
      cases hx : f x with
      | error e => cases ys <;> simp [mapM_cons_error hx, hx]
      | ok y =>
          cases hxs : xs.mapM f with
          | error e =>
              cases ys <;> simp [List.mapM_cons, hx, hxs, ← ih, bind, Except.bind]
          | ok ys' =>
              cases ys <;> simp [mapM_cons_ok hx hxs, hx, hxs, ← ih]

theorem mem_mapM_iff {xs : List α} {ys : List β} (h : xs.mapM f = .ok ys) (y : β) :
    y ∈ ys ↔ ∃ x ∈ xs, f x = .ok y := by
  rw [mapM_eq_ok_iff] at h
  induction h with
  | nil => simp
  | cons hx _ ih => simp [ih, hx, eq_comm]

theorem exists_of_mapM_eq_ok {xs : List α} {ys : List β} (h : xs.mapM f = .ok ys) {x : α}
    (hx : x ∈ xs) : ∃ y, f x = .ok y := by
  rw [mapM_eq_ok_iff] at h
  induction h with
  | nil => cases hx
  | cons hy _ ih =>
      rcases List.mem_cons.mp hx with rfl | hx
      · exact ⟨_, hy⟩
      · exact ih hx

theorem exists_mapM_eq_ok {xs : List α} (h : ∀ x ∈ xs, ∃ y, f x = .ok y) :
    ∃ ys, xs.mapM f = .ok ys := by
  induction xs with
  | nil => exact ⟨[], rfl⟩
  | cons x xs ih =>
      obtain ⟨y, hy⟩ := h x List.mem_cons_self
      obtain ⟨ys, hys⟩ := ih fun z hz => h z (List.mem_cons_of_mem x hz)
      exact ⟨y :: ys, mapM_cons_ok hy hys⟩

/-- As many results have a property as there are elements whose result has it. -/
theorem countP_of_mapM_eq_ok {xs : List α} {ys : List β} (h : xs.mapM f = .ok ys) {q : β → Bool}
    {p : α → Bool} (hp : ∀ x y, f x = .ok y → q y = p x) : ys.countP q = xs.countP p := by
  rw [mapM_eq_ok_iff] at h
  induction h with
  | nil => rfl
  | cons hy _ ih => rw [List.countP_cons, List.countP_cons, ih, hp _ _ hy]

theorem exists_mapM_eq_error_iff {xs : List α} :
    (∃ e, xs.mapM f = .error e) ↔ ∃ x ∈ xs, ∃ e, f x = .error e := by
  constructor
  · rintro ⟨e, h⟩
    by_contra hnone
    have hall : ∀ x ∈ xs, ∃ y, f x = .ok y := by
      intro x hx
      cases hy : f x with
      | error e => exact absurd ⟨x, hx, e, hy⟩ hnone
      | ok y => exact ⟨y, rfl⟩
    obtain ⟨ys, hys⟩ := exists_mapM_eq_ok hall
    rw [hys] at h
    cases h
  · rintro ⟨x, hx, e, he⟩
    cases hys : xs.mapM f with
    | error e' => exact ⟨e', rfl⟩
    | ok ys =>
        obtain ⟨y, hy⟩ := exists_of_mapM_eq_ok hys hx
        rw [hy] at he
        cases he

theorem mapM_map_result {γ : Type} {g : α → Except ε γ} {r : β → γ} {xs : List α}
    (h : ∀ x ∈ xs, g x = (f x).map r) : xs.mapM g = (xs.mapM f).map (·.map r) := by
  induction xs with
  | nil => rfl
  | cons x xs ih =>
      have hxs := ih fun y hy => h y (List.mem_cons_of_mem x hy)
      rw [List.mapM_cons, List.mapM_cons, h x List.mem_cons_self, hxs]
      cases f x with
      | error e => rfl
      | ok y => cases xs.mapM f <;> rfl

theorem mapM_eq_ok_map {g : α → β} {xs : List α} (h : ∀ x ∈ xs, f x = .ok (g x)) :
    xs.mapM f = .ok (xs.map g) := by
  induction xs with
  | nil => rfl
  | cons x xs ih =>
      exact mapM_cons_ok (h x List.mem_cons_self) (ih fun y hy => h y (List.mem_cons_of_mem x hy))

/-- Two computations with related results, or with the same failure. -/
inductive Alike {γ : Type} (related : β → γ → Prop) : Except ε β → Except ε γ → Prop
  | error (e : ε) : Alike related (.error e) (.error e)
  | ok {y : β} {z : γ} : related y z → Alike related (.ok y) (.ok z)

theorem Alike.error_iff {γ : Type} {related : β → γ → Prop} {x : Except ε β} {y : Except ε γ}
    (h : Alike related x y) (e : ε) : x = .error e ↔ y = .error e := by
  cases h with
  | error e' => simp
  | ok _ => simp

theorem Alike.exists_ok_iff {γ : Type} {related : β → γ → Prop} {x : Except ε β} {y : Except ε γ}
    (h : Alike related x y) : (∃ a, x = .ok a) ↔ ∃ b, y = .ok b := by
  cases h with
  | error e => simp
  | ok _ => simp

theorem Alike.map {γ β' γ' : Type} {related : β → γ → Prop} {related' : β' → γ' → Prop}
    {x : Except ε β} {y : Except ε γ} (h : Alike related x y) {r : β → β'} {r' : γ → γ'}
    (hr : ∀ y z, related y z → related' (r y) (r' z)) : Alike related' (x.map r) (y.map r') := by
  cases h with
  | error e => exact .error e
  | ok hyz => exact .ok (hr _ _ hyz)

theorem Alike.bind {γ β' γ' : Type} {related : β → γ → Prop} {related' : β' → γ' → Prop}
    {x : Except ε β} {y : Except ε γ} (h : Alike related x y) {k : β → Except ε β'}
    {k' : γ → Except ε γ'} (hk : ∀ y z, related y z → Alike related' (k y) (k' z)) :
    Alike related' (x >>= k) (y >>= k') := by
  cases h with
  | error e => exact .error e
  | ok hyz => exact hk _ _ hyz

/-- Two traversals of a list are alike if they are at every element. -/
theorem Alike.mapM {γ : Type} {g : α → Except ε γ} {related : β → γ → Prop} {xs : List α}
    (h : ∀ x ∈ xs, Alike related (f x) (g x)) :
    Alike (List.Forall₂ related) (xs.mapM f) (xs.mapM g) := by
  induction xs with
  | nil => exact .ok .nil
  | cons x xs ih =>
      rw [List.mapM_cons, List.mapM_cons]
      refine (h x List.mem_cons_self).bind fun y z hyz => ?_
      refine (ih fun w hw => h w (List.mem_cons_of_mem x hw)).bind fun ys zs hrest => ?_
      exact .ok (.cons hyz hrest)

/-- A fold that adds a result for each element is the traversal that finds the results, and then the
fold that adds them.  `inv` may be needed to find them; it is kept. -/
theorem foldlM_eq_mapM {σ : Type} {step : σ → α → Except ε σ} {add : σ → β → σ} (inv : σ → Prop)
    (hstep : ∀ s x, inv s → step s x = (f x).map (add s)) (hadd : ∀ s y, inv s → inv (add s y))
    {s : σ} (hs : inv s) (xs : List α) : xs.foldlM step s = (xs.mapM f).map (·.foldl add s) := by
  induction xs generalizing s with
  | nil => rfl
  | cons x xs ih =>
      rw [List.foldlM_cons, List.mapM_cons, hstep s x hs]
      cases f x with
      | error e => rfl
      | ok y =>
          have hrest := ih (hadd s y hs)
          simp only [Except.map, bind, Except.bind] at hrest ⊢
          rw [hrest]
          cases xs.mapM f <;> rfl

theorem forM_eq_ok_iff {check : α → Except ε Unit} {xs : List α} :
    xs.forM check = .ok () ↔ ∀ x ∈ xs, check x = .ok () := by
  induction xs with
  | nil => simp [pure, Except.pure]
  | cons x xs ih =>
      cases hx : check x with
      | error e => simp [hx, bind, Except.bind]
      | ok _ => simpa [hx, bind, Except.bind] using ih

/-- A check fails with the failure of an element. -/
theorem exists_of_forM_eq_error {check : α → Except ε Unit} {xs : List α} {e : ε}
    (h : xs.forM check = .error e) : ∃ x ∈ xs, check x = .error e := by
  induction xs with
  | nil => cases h
  | cons x xs ih =>
      rcases bind_eq_error_iff.mp h with hx | ⟨-, -, hxs⟩
      · exact ⟨x, List.mem_cons_self, hx⟩
      · obtain ⟨y, hy, he⟩ := ih hxs
        exact ⟨y, List.mem_cons_of_mem x hy, he⟩

theorem forall_mem_zipIdx_iff (xs : List α) (p : α → Prop) :
    (∀ x ∈ xs.zipIdx, p x.1) ↔ ∀ x ∈ xs, p x := by
  conv_rhs => rw [← List.zipIdx_map_fst 0 xs]
  exact List.forall_mem_map.symm

/-- A traversal fails with the failure of the first element that fails. -/
theorem mapM_eq_error_iff {xs : List α} {e : ε} :
    xs.mapM f = .error e ↔ ∃ before x after, xs = before ++ x :: after ∧
      (∀ y ∈ before, ∃ z, f y = .ok z) ∧ f x = .error e := by
  induction xs with
  | nil => simp [pure, Except.pure]
  | cons x xs ih =>
      cases hx : f x with
      | error e' =>
          rw [mapM_cons_error hx]
          constructor
          · intro h
            obtain rfl := Except.error.inj h
            exact ⟨[], x, xs, rfl, by simp, hx⟩
          · rintro ⟨before, y, after, hsplit, hbefore, hy⟩
            cases before with
            | nil =>
                obtain ⟨rfl, -⟩ := List.cons.inj hsplit
                exact congrArg Except.error (Except.error.inj (hx.symm.trans hy))
            | cons z before =>
                obtain ⟨rfl, -⟩ := List.cons.inj hsplit
                obtain ⟨w, hw⟩ := hbefore x List.mem_cons_self
                exact absurd (hx.symm.trans hw) (by simp)
      | ok y =>
          rw [mapM_cons_eq_error_iff hx, ih]
          constructor
          · rintro ⟨before, z, after, rfl, hbefore, hz⟩
            refine ⟨x :: before, z, after, rfl, ?_, hz⟩
            intro w hw
            rcases List.mem_cons.mp hw with rfl | hw
            · exact ⟨y, hx⟩
            · exact hbefore w hw
          · rintro ⟨before, z, after, hsplit, hbefore, hz⟩
            cases before with
            | nil =>
                obtain ⟨rfl, -⟩ := List.cons.inj hsplit
                exact absurd (hx.symm.trans hz) (by simp)
            | cons w before =>
                obtain ⟨rfl, rfl⟩ := List.cons.inj hsplit
                exact ⟨before, z, after, rfl,
                  fun v hv => hbefore v (List.mem_cons_of_mem _ hv), hz⟩

end Linkage.Traversal

/-! ## Actions -/

namespace Linkage.Action

variable {σ τ α β δ : Type}

/-- An action goes on where the one before it ended, if that did not fail. -/
theorem run_bind (x : Action σ β) (f : β → Action σ δ) (s : σ) : (x >>= f).run s =
    match x.run s with
    | (.ok y, s') => (f y).run s'
    | (.error e, s') => (.error e, s') := by
  unfold ExceptT.run
  simp only [bind, ExceptT.bind, ExceptT.mk, StateT.bind, ExceptT.bindCont]
  cases x s with
  | mk result s' => cases result <;> rfl

theorem run_bind_of_ok {x : Action σ β} {s s' : σ} {y : β} (h : x.run s = (.ok y, s'))
    (f : β → Action σ δ) : (x >>= f).run s = (f y).run s' := by
  rw [run_bind, h]

theorem run_bind_of_error {x : Action σ β} {s s' : σ} {e : Error} (h : x.run s = (.error e, s'))
    (f : β → Action σ δ) : (x >>= f).run s = (.error e, s') := by
  rw [run_bind, h]

theorem run_discard (x : Action σ β) (s : σ) :
    (discard x).run s = ((x.run s).1.map fun _ => (), (x.run s).2) := by
  change (x >>= fun _ => pure ()).run s = _
  rw [run_bind]
  rcases x.run s with ⟨_ | _, _⟩ <;> rfl

theorem run_onPart (part : σ → τ) (update : σ → τ → σ) (action : Action τ β) (s : σ) :
    (onPart part update action).run s =
      ((action.run (part s)).1, update s (action.run (part s)).2) := rfl

theorem exec_onPart (part : σ → τ) (update : σ → τ → σ) (action : Action τ Unit) (s : σ) :
    (onPart part update action).exec s = (action.exec (part s)).map (update s) := by
  rw [exec, exec, run_onPart]
  rcases action.run (part s) with ⟨_ | _, _⟩ <;> rfl

theorem exec_of_ok {action : Action σ Unit} {s s' : σ} (h : action.run s = (.ok (), s')) :
    action.exec s = .ok s' := by
  rw [exec, h]

theorem exec_of_error {action : Action σ Unit} {s s' : σ} {e : Error}
    (h : action.run s = (.error e, s')) : action.exec s = .error e := by
  rw [exec, h]

/-- Actions one after the other lead from state to state, up to the first failure. -/
theorem exec_forM (f : α → Action σ Unit) (xs : List α) (s : σ) :
    (xs.forM f).exec s = xs.foldlM (fun s x => (f x).exec s) s := by
  induction xs generalizing s with
  | nil => rfl
  | cons x xs ih =>
      rw [List.forM, List.foldlM_cons]
      cases hrun : (f x).run s with
      | mk result s' =>
          cases result with
          | error e => rw [exec_of_error (run_bind_of_error hrun _), exec_of_error hrun]; rfl
          | ok y =>
              rw [exec_of_ok hrun, exec, run_bind_of_ok hrun, ← exec, ih]
              rfl

end Linkage.Action
