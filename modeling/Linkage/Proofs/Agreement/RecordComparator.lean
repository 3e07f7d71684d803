import Linkage.Proofs.Agreement.PatternSpace
import Linkage.Proofs.Traversal

/-
# The pattern of two records has a number

Every comparator gives a level below its level count, whatever the values.  So the pattern of two
records belongs to the pattern space of the comparator, and if the records can be compared at all,
numbering their pattern does not fail, nor does reading the number back.
-/

namespace Linkage

open PatternSpace

theorem Agreement.levelOf_le {β : Type} (n : Nat) (holds : β → Bool) (conditions : List β) :
    levelOf n holds conditions ≤ n := by
  rw [levelOf]
  split
  · exact Nat.sub_le n _
  · exact Nat.zero_le n

theorem FieldComparator.compare_lt {c : FieldComparator} {a b : Field} {level : Nat}
    (h : c.compare a b = .ok level) : level < c.levels := by
  have hnumbers : ∀ {f : Float → Float → Nat} {n : Nat}, (∀ x y, f x y ≤ n) →
      (do return f (← a.asFloat) (← b.asFloat)) = Except.ok level → level < n + 1 := by
    intro f n hf h
    obtain ⟨x, -, h⟩ := Traversal.bind_eq_ok_iff.mp h
    obtain ⟨y, -, h⟩ := Traversal.bind_eq_ok_iff.mp h
    obtain rfl := Except.ok.inj h
    exact Nat.lt_succ_of_le (hf x y)
  cases c with
  | exact =>
      obtain rfl := Except.ok.inj h
      simp only [levels]
      split <;> omega
  | prorated slopes intercepts =>
      exact hnumbers (fun _ _ => Agreement.levelOf_le slopes.length _ _) h
  | absoluteDifference thresholds =>
      exact hnumbers (fun _ _ => Agreement.levelOf_le thresholds.length _ _) h
  | yearAdjusted baseYear slopes intercepts =>
      exact hnumbers (fun _ _ => Agreement.levelOf_le slopes.length _ _) h
  | fuzzy thresholds adjustments =>
      obtain rfl := Except.ok.inj h
      exact Nat.lt_succ_of_le (Agreement.levelOf_le thresholds.length _ _)

theorem FieldComparator.levels_pos (c : FieldComparator) : 0 < c.levels := by
  cases c <;> simp [levels]

theorem Binding.level_lt {b : Binding} {handleBlanks : Bool} {x y : Field} {level : Nat}
    (h : b.level handleBlanks x y = .ok level) : level < b.levels handleBlanks := by
  have hpos := b.comparator.levels_pos
  rw [Binding.level] at h
  rw [levels]
  split at h
  case isTrue =>
    obtain rfl := Except.ok.inj h
    omega
  case isFalse =>
    split at h
    case isTrue =>
      obtain rfl := Except.ok.inj h
      omega
    case isFalse =>
      split at h
      case isTrue =>
        obtain rfl := Except.ok.inj h
        omega
      case isFalse =>
        obtain ⟨n, hn, h⟩ := Traversal.bind_eq_ok_iff.mp h
        obtain rfl := Except.ok.inj h
        exact Nat.add_lt_add_right (FieldComparator.compare_lt hn) _

namespace RecordComparator

variable {c : RecordComparator} {a b : Record} {p : Pattern}

/-- A comparator whose pattern count is that of its levels. -/
def Numbered (c : RecordComparator) : Prop :=
  c.patternCount = size c.levels

theorem numbered_of_make {serial : Nat} {bindings : List Binding}
    {handleBlanks : Bool} {c : RecordComparator} (h : make serial bindings handleBlanks = .ok c) :
    c.Numbered := by
  obtain ⟨-, rfl⟩ := make_eq_ok_iff.mp h
  rfl

theorem fits_compare (h : c.compare a b = .ok p) : Fits c.levels p := by
  have hlevels := Traversal.mapM_eq_ok_iff.mp h
  rw [Fits, levels, List.forall₂_map_right_iff]
  refine (hlevels.imp fun binding level hlevel => ?_).flip
  obtain ⟨x, -, hlevel⟩ := Traversal.bind_eq_ok_iff.mp hlevel
  obtain ⟨y, -, hlevel⟩ := Traversal.bind_eq_ok_iff.mp hlevel
  exact Binding.level_lt hlevel

theorem compareIndex_eq (c : RecordComparator) (a b : Record) :
    c.compareIndex a b = (c.compare a b).map (encode c.levels) := by
  rw [compareIndex]
  cases h : c.compare a b with
  | error e => rfl
  | ok p => exact patternIndex_of_fits (fits_compare h)

theorem Numbered.encode_lt (hc : c.Numbered) (hp : Fits c.levels p) :
    encode c.levels p < c.patternCount :=
  hc ▸ encode_lt_size hp

theorem Numbered.patternAt_encode (hc : c.Numbered) (hp : Fits c.levels p) :
    c.patternAt (encode c.levels p) = .ok p := by
  rw [patternAt_of_lt (hc.encode_lt hp), decode_encode hp]

end RecordComparator

end Linkage
