import Linkage.Proofs.Traversal
import Linkage.Score.ScoreMap

/-
# What a sink is told

A sink can be made to keep what it is told, beside doing what it does.  This changes no result and
no other part of its state, and what it keeps is a beginning of what there was to tell: all of it,
if nothing failed.
-/

namespace Linkage

variable {σ α β δ : Type}

namespace Sink

/-- The sink that does the same and keeps what it is told. -/
def logged (sink : Sink σ α) : Sink (σ × List (Notice α)) α := fun notice =>
  ExceptT.mk fun (s, told) =>
    let (result, s) := (sink notice).run s
    (result, s, told ++ [notice])

theorem run_logged (sink : Sink σ α) (notice : Notice α) (s : σ) (told : List (Notice α)) :
    (sink.logged notice).run (s, told) =
      (((sink notice).run s).1, ((sink notice).run s).2, told ++ [notice]) := rfl

/-- The notices that a sink is told are the first ones, and all of them if it does not fail. -/
theorem forM_logged (sink : Sink σ α) (notices : List (Notice α)) (s : σ)
    (told : List (Notice α)) : ∃ new : List (Notice α), new <+: notices ∧
      (∀ y, ((notices.forM sink).run s).1 = .ok y → new = notices) ∧
      (notices.forM sink.logged).run (s, told) =
        (((notices.forM sink).run s).1, ((notices.forM sink).run s).2, told ++ new) := by
  induction notices generalizing s told with
  | nil =>
      refine ⟨[], List.prefix_rfl, fun _ _ => rfl, ?_⟩
      rw [List.append_nil]
      rfl
  | cons notice notices ih =>
      rw [List.forM, List.forM, Action.run_bind, Action.run_bind, run_logged]
      cases (sink notice).run s with
      | mk result s' =>
          cases result with
          | error e =>
              -- The sink was told the notice on which it failed.
              refine ⟨[notice], List.prefix_append _ _, ?_, rfl⟩
              intro y hy
              cases hy
          | ok y =>
              obtain ⟨new, hprefix, hall, hrun⟩ := ih s' (told ++ [notice])
              refine ⟨notice :: new, ?_, ?_, ?_⟩
              · exact List.prefix_cons_inj notice |>.mpr hprefix
              · intro z hz
                rw [hall z hz]
              · exact hrun.trans (by rw [← List.append_cons])

/-- A sink that never fails. -/
def Answers (sink : Sink σ α) : Prop :=
  ∀ notice s, ((sink notice).run s).1 = .ok ()

theorem Answers.forM {sink : Sink σ α} (h : sink.Answers) (notices : List (Notice α)) (s : σ) :
    ((notices.forM sink).run s).1 = .ok () := by
  induction notices generalizing s with
  | nil => rfl
  | cons notice notices ih =>
      have hnotice := h notice s
      rw [List.forM, Action.run_bind]
      cases hrun : (sink notice).run s with
      | mk result s' =>
          rw [hrun] at hnotice
          obtain rfl : result = .ok () := hnotice
          exact ih s'

end Sink

/-! ## Telling the matches -/

def Notice.isAccept : Notice α → Bool
  | .accept _ _ _ => true
  | _ => false

/-- The matches of a bucket, each with the score of the bucket. -/
def Bucket.notices (b : Bucket α) : List (Notice α) :=
  b.pairs.toList.map fun p => .accept p.a p.b b.score

theorem Bucket.tell_eq (sink : Sink σ α) (b : Bucket α) (written : Nat) : b.tell sink written = do
    b.notices.forM sink
    return written + b.notices.length := by
  rw [tell, Bucket.notices, ← Array.foldlM_toList]
  generalize b.pairs.toList = ps
  induction ps generalizing written with
  | nil => simp
  | cons p ps ih =>
      rw [List.foldlM_cons, List.map_cons, List.length_cons]
      simp only [List.forM_eq_forM, List.forM_cons, bind_assoc, pure_bind] at ih ⊢
      simp only [ih, Nat.add_assoc, Nat.add_comm 1]

namespace ScoreMap

variable [Ord α] {m : ScoreMap α} {cutoff : α}

/-- The matches from a score on, from the highest score down, each with the score of its
bucket. -/
def matchesFrom (m : ScoreMap α) (cutoff : α) : List (Notice α) :=
  (m.atLeast cutoff).reverse.flatMap Bucket.notices

/-- All that there is to tell about the matches from a score on. -/
def notices (m : ScoreMap α) (cutoff : α) : List (Notice α) :=
  .start m.fieldNames :: (m.matchesFrom cutoff ++ [.finish])

omit [Ord α] in
theorem foldlM_tell (sink : Sink σ α) (bs : List (Bucket α)) (written : Nat) :
    bs.foldlM (fun written b => b.tell sink written) written = do
      (bs.flatMap Bucket.notices).forM sink
      return written + (bs.flatMap Bucket.notices).length := by
  induction bs generalizing written with
  | nil => simp
  | cons b bs ih =>
      rw [List.foldlM_cons, Bucket.tell_eq, List.flatMap_cons, List.length_append]
      simp only [List.forM_eq_forM, List.forM_append, bind_assoc, pure_bind] at ih ⊢
      simp only [ih, Nat.add_assoc]

theorem write_eq (m : ScoreMap α) (sink : Sink σ α) (cutoff : α) : m.write sink cutoff = do
    (m.notices cutoff).forM sink
    return (m.matchesFrom cutoff).length := by
  rw [write, foldlM_tell, ← matchesFrom]
  simp [notices]

/-- A writing tells a sink the first notices.  If it succeeds it tells all of them, and returns how
many matches there are. -/
theorem write_logged (m : ScoreMap α) (sink : Sink σ α) (cutoff : α) (s : σ) :
    ∃ told : List (Notice α), told <+: m.notices cutoff ∧
      (m.write sink.logged cutoff).run (s, []) =
        (((m.write sink cutoff).run s).1, ((m.write sink cutoff).run s).2, told) ∧
      ∀ n, ((m.write sink cutoff).run s).1 = .ok n →
        n = (m.matchesFrom cutoff).length ∧ told = m.notices cutoff := by
  obtain ⟨told, hprefix, hall, hrun⟩ := sink.forM_logged (m.notices cutoff) s []
  refine ⟨told, hprefix, ?_, ?_⟩
  · rw [write_eq, write_eq, Action.run_bind, Action.run_bind, hrun]
    cases ((m.notices cutoff).forM sink).run s with
    | mk result s' => cases result <;> rfl
  · intro n hn
    rw [write_eq, Action.run_bind] at hn
    revert hall hn
    cases ((m.notices cutoff).forM sink).run s with
    | mk result s' =>
        cases result with
        | error e => exact fun _ => nofun
        | ok y => exact fun hall hn => ⟨(Except.ok.inj hn).symm, hall y rfl⟩

theorem write_of_answers (m : ScoreMap α) {sink : Sink σ α} (h : sink.Answers) (cutoff : α)
    (s : σ) : ((m.write sink cutoff).run s).1 = .ok (m.matchesFrom cutoff).length := by
  have hall := h.forM (m.notices cutoff) s
  rw [write_eq, Action.run_bind]
  cases hrun : ((m.notices cutoff).forM sink).run s with
  | mk result s' =>
      rw [hrun] at hall
      obtain rfl : result = .ok () := hall
      rfl

theorem isAccept_of_mem_matchesFrom {notice : Notice α} (h : notice ∈ m.matchesFrom cutoff) :
    notice.isAccept = true := by
  obtain ⟨b, -, hb⟩ := List.mem_flatMap.mp h
  obtain ⟨p, -, rfl⟩ := List.mem_map.mp hb
  rfl

theorem countP_notices (m : ScoreMap α) (cutoff : α) :
    (m.notices cutoff).countP Notice.isAccept = (m.matchesFrom cutoff).length := by
  have hall : (m.matchesFrom cutoff).countP Notice.isAccept = (m.matchesFrom cutoff).length :=
    List.countP_eq_length.mpr fun _ h => isAccept_of_mem_matchesFrom h
  rw [notices, List.countP_cons, List.countP_append, hall]
  rfl

theorem length_matchesFrom (m : ScoreMap α) (cutoff : α) :
    (m.matchesFrom cutoff).length = m.countAtLeast cutoff := by
  rw [matchesFrom, List.length_flatMap, List.map_reverse, List.sum_reverse]
  simp [countAtLeast, pairCount, List.sum, Bucket.notices]

end ScoreMap

theorem MatchList.answers : (MatchList.sink : Sink (MatchList α) α).Answers := fun _ _ => rfl

theorem MatchList.run_forM_sink (notices : List (Notice α)) (l : MatchList α) :
    (notices.forM MatchList.sink).run l = (.ok (), notices.foldl note l) := by
  induction notices generalizing l with
  | nil => rfl
  | cons notice notices ih =>
      rw [List.forM, Action.run_bind]
      exact ih (l.note notice)

theorem MatchList.run_write [Ord α] (m : ScoreMap α) (cutoff : α) (l : MatchList α) :
    (m.write MatchList.sink cutoff).run l =
      (.ok (m.matchesFrom cutoff).length, (m.notices cutoff).foldl note l) := by
  rw [ScoreMap.write_eq, Action.run_bind, run_forM_sink]
  rfl

end Linkage
