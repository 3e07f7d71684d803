import Linkage.Proofs.Agreement.Comparison
import Linkage.Proofs.Job.Plan
import Linkage.Proofs.Join.Frequency
import Linkage.Proofs.Source

/-
# What the making of a plan has checked

The parts of a plan fit together: the names of both schemas are columns, a comparator reads fields
that both have, and the settings are accepted.  So loading fails only because of a file, counting
only because of a value, and where a training needs ids the records have them.
-/

namespace Linkage

open Traversal (bind_eq_ok_iff bind_eq_error_iff)

/-! ## Settings -/

theorem Job.check_eq_ok {j : Job} (h : j.check = .ok ()) :
    j.stopRule.check = .ok () ∧ j.matchRule.check = .ok () ∧ j.checkTraining = .ok () := by
  rw [check] at h
  split at h
  case isTrue => cases h
  case isFalse =>
    simp only at h
    split at h
    case isTrue => cases h
    case isFalse =>
      obtain ⟨⟨⟩, hstop, h⟩ := bind_eq_ok_iff.mp h
      obtain ⟨⟨⟩, hmatch, htraining⟩ := bind_eq_ok_iff.mp h
      exact ⟨hstop, hmatch, htraining⟩

theorem Job.checkIds_eq_ok {j : Job} (h : j.checkIds = .ok ()) :
    j.left.id.isSome = true ∧ j.right.id.isSome = true := by
  rw [checkIds] at h
  cases hleft : j.left.id with
  | none => simp [hleft] at h
  | some _ =>
      cases hright : j.right.id with
      | none => simp [hleft, hright] at h
      | some _ => exact ⟨rfl, rfl⟩

namespace Plan

variable {p : Plan} {ls rs : List Record}

/-! ## Parts -/

/-- The parts of a plan fit together. -/
structure Checked (p : Plan) : Prop where
  left : p.left.Sound
  right : p.right.Sound
  left_id : p.left.schema.id = p.job.left.id
  right_id : p.right.schema.id = p.job.right.id
  numbered : p.comparator.Numbered
  bindings : ∀ b ∈ p.comparator.bindings,
    b.indexA < p.left.schema.fields.length ∧ b.indexB < p.right.schema.fields.length
  stopRule : p.job.stopRule.check = .ok ()
  matchRule : p.job.matchRule.check = .ok ()
  training : p.job.checkTraining = .ok ()

theorem checked_of_make {currentYear : Int} {j : Job} (h : make currentYear j = .ok p) :
    p.Checked := by
  obtain ⟨hjob, hcheck, hleft, hright, bindings, hbindings, hc⟩ := make_eq_ok h
  obtain ⟨hleft, hleftId⟩ := Side.sound_of_source hleft
  obtain ⟨hright, hrightId⟩ := Side.sound_of_source hright
  obtain ⟨hstop, hmatch, htraining⟩ := Job.check_eq_ok hcheck
  have hcomparator : p.comparator.bindings = bindings := by
    rw [(RecordComparator.make_eq_ok_iff.mp hc).2]
  refine ⟨hleft, hright, hjob ▸ hleftId, hjob ▸ hrightId, RecordComparator.numbered_of_make hc, ?_,
    hjob ▸ hstop, hjob ▸ hmatch, hjob ▸ htraining⟩
  intro b hb
  rw [hcomparator] at hb
  obtain ⟨c, -, hb⟩ := (Traversal.mem_mapM_iff hbindings b).mp hb
  exact Binding.index_lt_of_make hb

theorem Checked.reaches (hp : p.Checked) {a b : Record} (ha : a.IsOf p.left.schema)
    (hb : b.IsOf p.right.schema) : p.comparator.Reaches a b := by
  intro binding hbinding
  rw [ha.size_fields, hb.size_fields]
  exact hp.bindings binding hbinding

/-! ## Loading and counting -/

def collections (p : Plan) (left right : Contents) :
    Except Error (List Record × List Record) := do
  let ls ← ((p.left.load left).run 0).1
  let rs ← ((p.right.load right).run 0).1
  return (ls, rs)

theorem result_load {α : Type} (p : Plan) (left right : Contents) :
    (p.load left right : Observed (Milestone α) _).result = p.collections left right := by
  simp only [load, loadBatch, collections, Observed.result_bind, Observed.result_of,
    Observed.result_note, Observed.result_pure, bind_assoc, pure_bind]

/-- Two collections of records of the schemas of a plan. -/
structure Loaded (p : Plan) (ls rs : List Record) : Prop where
  left : ∀ r ∈ ls, r.IsOf p.left.schema
  right : ∀ r ∈ rs, r.IsOf p.right.schema

theorem Checked.loaded (hp : p.Checked) {left right : Contents}
    (h : p.collections left right = .ok (ls, rs)) : p.Loaded ls rs := by
  obtain ⟨ls', hls, h⟩ := bind_eq_ok_iff.mp h
  obtain ⟨rs', hrs, h⟩ := bind_eq_ok_iff.mp h
  obtain ⟨rfl, rfl⟩ := Prod.mk.inj (Except.ok.inj h)
  exact ⟨(Source.load_yields hp.left left 0).1 _ hls, (Source.load_yields hp.right right 0).1 _ hrs⟩

theorem Checked.collections_eq_error (hp : p.Checked) {left right : Contents} {e : Error}
    (h : p.collections left right = .error e) :
    ∃ path cause, Intake.Fault cause ∧ e = .recordLoading path cause := by
  rcases bind_eq_error_iff.mp h with h | ⟨ls, -, h⟩
  · obtain ⟨cause, hcause, he⟩ := (Source.load_yields hp.left left 0).2 e h
    exact ⟨_, cause, hcause, he⟩
  · rcases bind_eq_error_iff.mp h with h | ⟨rs, -, h⟩
    · obtain ⟨cause, hcause, he⟩ := (Source.load_yields hp.right right 0).2 e h
      exact ⟨_, cause, hcause, he⟩
    · cases h

theorem Checked.tally_eq_error (hp : p.Checked) (hloaded : p.Loaded ls rs) {e : Error}
    (h : tally p.comparator ls rs = .error e) : ∃ value, e = .notNumeric value .number := by
  obtain ⟨before, pair, after, hsplit, -, hpair⟩ := (tally_eq_error_iff hp.numbered ls rs e).mp h
  have hmem : pair ∈ (crossPairs ls rs).filter sameBlock := by
    rw [hsplit]
    exact List.mem_append_right _ List.mem_cons_self
  obtain ⟨hl, hr⟩ := mem_crossPairs.mp (List.mem_of_mem_filter hmem)
  rcases RecordComparator.compare_eq_error hpair with hvalue | ⟨-, hreach⟩
  · exact hvalue
  · exact absurd (hp.reaches (hloaded.left _ hl) (hloaded.right _ hr)) hreach

theorem Checked.hasId (hp : p.Checked) (hloaded : p.Loaded ls rs)
    (hids : p.job.checkIds = .ok ()) : ∀ r ∈ ls ++ rs, r.schema.hasId = true := by
  obtain ⟨hleft, hright⟩ := Job.checkIds_eq_ok hids
  intro r hr
  rcases List.mem_append.mp hr with hr | hr
  · rw [(hloaded.left r hr).schema_eq, Schema.hasId, hp.left_id]
    exact hleft
  · rw [(hloaded.right r hr).schema_eq, Schema.hasId, hp.right_id]
    exact hright

end Plan

end Linkage
