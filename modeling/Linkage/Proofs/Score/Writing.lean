import Linkage.Proofs.Score.Shelf
import Linkage.Proofs.Score.Sink

/-
# Writing to a sink that may fail

There is one sequence of notices for a score map and a cutoff, and a writing tells it from the first
notice on.  How far it comes is up to the sink: a sink that takes all notices is told all of them,
and one that fails on a notice is told nothing behind it.  One of the two is the case for every sink
and every state it starts from.
-/

namespace Linkage

open Std (TransOrd)

variable {σ α : Type}

namespace Sink

variable {sink : Sink σ α} {notice : Notice α} {notices before : List (Notice α)}
  {s s' s'' : σ} {e : Error}

/-- A sink takes notices, one after the other, without a failure. -/
inductive Takes (sink : Sink σ α) : List (Notice α) → σ → σ → Prop where
  | nil (s : σ) : Takes sink [] s s
  | cons {notice : Notice α} {notices : List (Notice α)} {s s' s'' : σ}
      (first : (sink notice).run s = (.ok (), s')) (rest : Takes sink notices s' s'') :
      Takes sink (notice :: notices) s s''

/-- A sink takes the first `k` notices and fails on the next one. -/
def FailsAt (sink : Sink σ α) (notices : List (Notice α)) (s : σ) (k : Nat) (e : Error) (s' : σ) :
    Prop :=
  ∃ (_ : k < notices.length) (s₁ : σ),
    sink.Takes (notices.take k) s s₁ ∧ (sink notices[k]).run s₁ = (.error e, s')

theorem takes_or_failsAt (sink : Sink σ α) (notices : List (Notice α)) (s : σ) :
    (∃ s', sink.Takes notices s s') ∨ ∃ k e s', sink.FailsAt notices s k e s' := by
  induction notices generalizing s with
  | nil => exact .inl ⟨s, .nil s⟩
  | cons notice notices ih =>
      cases hfirst : (sink notice).run s with
      | mk result s₁ =>
          cases result with
          | error e => exact .inr ⟨0, e, s₁, Nat.zero_lt_succ _, s, .nil s, hfirst⟩
          | ok =>
              rcases ih s₁ with ⟨s', hrest⟩ | ⟨k, e, s', hk, s₂, htakes, hfails⟩
              · exact .inl ⟨s', .cons hfirst hrest⟩
              · exact .inr ⟨k + 1, e, s', Nat.succ_lt_succ hk, s₂, .cons hfirst htakes, hfails⟩

theorem Takes.run_forM (h : sink.Takes notices s s') (told : List (Notice α)) :
    (notices.forM sink.logged).run (s, told) = (.ok (), s', told ++ notices) := by
  induction h generalizing told with
  | nil s =>
      rw [List.append_nil]
      rfl
  | cons first rest ih =>
      rw [List.forM, Action.run_bind, run_logged, first]
      exact (ih _).trans (by rw [← List.append_cons])

theorem Takes.run_forM_append (h : sink.Takes before s s')
    (hfails : (sink notice).run s' = (.error e, s'')) (after told : List (Notice α)) :
    ((before ++ notice :: after).forM sink.logged).run (s, told) =
      (.error e, s'', told ++ (before ++ [notice])) := by
  induction h generalizing told with
  | nil s =>
      rw [List.nil_append, List.nil_append, List.forM, Action.run_bind, run_logged, hfails]
  | cons first rest ih =>
      rw [List.cons_append, List.forM, Action.run_bind, run_logged, first]
      exact (ih hfails _).trans (by rw [← List.append_cons, List.cons_append])

theorem FailsAt.run_forM {k : Nat} (h : sink.FailsAt notices s k e s') (told : List (Notice α)) :
    (notices.forM sink.logged).run (s, told) = (.error e, s', told ++ notices.take (k + 1)) := by
  obtain ⟨hk, s₁, htakes, hfails⟩ := h
  have hall : notices = notices.take k ++ notices[k] :: notices.drop (k + 1) := by
    rw [← List.drop_eq_getElem_cons hk, List.take_append_drop]
  have hrun := htakes.run_forM_append hfails (notices.drop (k + 1)) told
  rwa [← hall, List.take_append_getElem hk] at hrun

end Sink

namespace ScoreMap

section Writes

variable [Ord α] {m : ScoreMap α} {sink : Sink σ α} {cutoff : α} {s s' : σ}

/-- A writing ends with a result and in a state of the sink, which has been told some notices. -/
def Writes (m : ScoreMap α) (sink : Sink σ α) (cutoff : α) (s : σ) (result : Except Error Nat)
    (s' : σ) (told : List (Notice α)) : Prop :=
  (m.write sink cutoff).run s = (result, s') ∧
    (m.write sink.logged cutoff).run (s, []) = (result, s', told)

/-- The sink that keeps what it is told shows what a writing does. -/
theorem writes_of_logged {result : Except Error Nat} {told : List (Notice α)}
    (h : (m.write sink.logged cutoff).run (s, []) = (result, s', told)) :
    m.Writes sink cutoff s result s' told := by
  obtain ⟨told', -, hrun, -⟩ := m.write_logged sink cutoff s
  rw [h, Prod.mk.injEq, Prod.mk.injEq] at hrun
  exact ⟨Prod.ext hrun.1.symm hrun.2.1.symm, h⟩

theorem writes_of_takes (h : sink.Takes (m.notices cutoff) s s') :
    m.Writes sink cutoff s (.ok (m.countAtLeast cutoff)) s' (m.notices cutoff) := by
  refine writes_of_logged ?_
  rw [write_eq, Action.run_bind, h.run_forM, length_matchesFrom]
  rfl

theorem writes_of_failsAt {k : Nat} {e : Error} (h : sink.FailsAt (m.notices cutoff) s k e s') :
    m.Writes sink cutoff s (.error e) s' ((m.notices cutoff).take (k + 1)) := by
  refine writes_of_logged ?_
  rw [write_eq, Action.run_bind, h.run_forM]
  rfl

theorem finish_notMem_take {k : Nat} (h : k < (m.notices cutoff).length) :
    .finish ∉ (m.notices cutoff).take k := by
  have hbefore : .finish ∉ Notice.start m.fieldNames :: m.matchesFrom cutoff := by
    rintro (_ | ⟨_, hmem⟩)
    cases isAccept_of_mem_matchesFrom hmem
  have hsplit : m.notices cutoff = (.start m.fieldNames :: m.matchesFrom cutoff) ++ [.finish] := rfl
  rw [hsplit, List.length_append, List.length_singleton] at h
  rw [hsplit, List.take_append_of_le_length (Nat.le_of_lt_succ h)]
  exact fun hmem => hbefore (List.mem_of_mem_take hmem)

end Writes

theorem flatMap_atLeast_perm [Ord α] [TransOrd α] {names : List (String × String)}
    (ps : List (ScoredPair α)) (cutoff : α) :
    (((ofList names ps).atLeast cutoff).reverse.flatMap fun b => b.pairs.toList).Perm
      (ps.filter fun p => compare p.score cutoff != .lt) := by
  have hfound := @filter_toList_ofList _ _ names ps _ _ (uniform_compare (· != .lt) cutoff)
  have hreverse := (List.reverse_perm ((ofList names ps).atLeast cutoff)).flatMap_right
    fun b => b.pairs.toList
  rw [atLeast, (ascending_ofList ps).dropWhile_isBelow] at hreverse ⊢
  rw [← hfound] at hreverse
  exact hreverse.trans ((toList_ofList_perm ps).filter _)

end ScoreMap

/-! ## After any moves -/

variable {ι : Type} [DecidableEq ι]

/-- After any moves a writing has one sequence of notices to tell: the start, then the pairs from the
cutoff on, from the highest score down and within a bucket as they were inserted, each once and with
the score of the bucket, and the finish.  A sink that takes all of them is told just these, and the
pairs are counted; a sink that fails on one is told the notices up to this one, and its error is the
result.  One of the two is the case, and there is no finish but at the end. -/
theorem Shelf.write_protocol (names : ι → List (String × String)) (moves : List (Move ι Float))
    (i : ι) (sink : Sink σ Float) (cutoff : Float) (s : σ) :
    let m := maps names moves i
    let found := (m.atLeast cutoff).reverse
    let notices := Notice.start (names i) ::
      ((found.flatMap fun b => b.pairs.toList.map fun p => .accept p.a p.b b.score) ++ [.finish])
    (found.Pairwise (fun a b => Score.below b.score a.score = true) ∧
      (∀ b ∈ found, b.pairs.toList =
        (ledgers moves i).filter fun p => Score.same p.score b.score) ∧
      (found.flatMap fun b => b.pairs.toList).Perm
        ((ledgers moves i).filter fun p => Score.atLeast p.score cutoff) ∧
      notices.countP Notice.isAccept = m.countAtLeast cutoff) ∧
    (∀ s', sink.Takes notices s s' →
      m.Writes sink cutoff s (.ok (m.countAtLeast cutoff)) s' notices) ∧
    (∀ k e s', sink.FailsAt notices s k e s' →
      m.Writes sink cutoff s (.error e) s' (notices.take (k + 1))) ∧
    ((∃ s', sink.Takes notices s s') ∨ ∃ k e s', sink.FailsAt notices s k e s') ∧
    (∀ k, k < notices.length → .finish ∉ notices.take k) := by
  intro m found notices
  have hm : m = .ofList (names i) (ledgers moves i) := congrFun (maps_eq names moves) i
  have hnotices : notices = m.notices cutoff := by
    rw [ScoreMap.notices, hm, ScoreMap.fieldNames_ofList, ← hm]
    rfl
  rw [hnotices]
  refine ⟨⟨?_, ?_, ?_, ?_⟩, fun s' => ScoreMap.writes_of_takes,
    fun k e s' => ScoreMap.writes_of_failsAt, sink.takes_or_failsAt _ s,
    fun k => ScoreMap.finish_notMem_take⟩
  · have hascending := (ScoreMap.proper_ofList (names i) (ledgers moves i)).ascending
    rw [← hm] at hascending
    exact List.pairwise_reverse.mpr (hascending.sublist (List.dropWhile_sublist _))
  · intro b hb
    have hmem := (List.dropWhile_sublist _).subset (List.mem_reverse.mp hb)
    rw [hm] at hmem
    simp only [← Score.compare_eq_eq]
    exact ScoreMap.pairs_eq_filter hmem
  · have hperm := @ScoreMap.flatMap_atLeast_perm _ _ _ (names i) (ledgers moves i) cutoff
    rw [← hm] at hperm
    simpa only [← Score.compare_ne_lt] using hperm
  · rw [ScoreMap.countP_notices, ScoreMap.length_matchesFrom]

/-! ### A sink that gets full -/

/-- A sink that has room for as many notices as its state says. -/
def Sink.rationed : Sink Nat α := fun _ =>
  ExceptT.mk fun
    | 0 => (.error (.output "full"), 0)
    | room + 1 => (.ok (), room)

def guest (name number : String) : Record :=
  Schema.recordOf ⟨0, ["name"], [], none, none⟩ [name] number

/-- Two score maps with a pair each, one of which is merged into the other. -/
def Shelf.guests : List (Move Bool Float) :=
  [.insert true ⟨guest "ann" "0", guest "bob" "1", 0.75⟩,
    .insert false ⟨guest "cy" "2", guest "di" "3", 1⟩, .merge true false]

/-- A sink with room for the start and one match is told of the next match and nothing more. -/
theorem Shelf.write_protocol_guests :
    (maps (fun _ => [("name", "name")]) guests true).Writes Sink.rationed 0.5 2
      (.error (.output "full")) 0
      [.start [("name", "name")], .accept (guest "cy" "2") (guest "di" "3") 1,
        .accept (guest "ann" "0") (guest "bob" "1") 0.75] := by
  obtain ⟨-, -, hfails, -⟩ :=
    write_protocol (fun _ => [("name", "name")]) guests true Sink.rationed 0.5 2
  have htakes : Sink.rationed.Takes
      [.start [("name", "name")], .accept (guest "cy" "2") (guest "di" "3") (1 : Float)] 2 0 :=
    .cons rfl (.cons rfl (.nil 0))
  exact hfails 2 (.output "full") 0 ⟨Nat.lt_succ_of_lt (Nat.lt_succ_self 2), 0, htakes, rfl⟩

end Linkage
