import Linkage.Proofs.Agreement.Failure
import Linkage.Proofs.Source

/-
# Comparing two records

A binding stumbles on two fields when its comparator is numeric, neither field is blank, their texts
differ, and one of them writes no number: all else is decided before the numbers are read.  For the
records of the schemas that a comparator was built for, comparing them fails just if some binding
stumbles, and the failure names the field at which the first of these does, where side A is read
first.  Otherwise there is a level for every binding, and the pattern has a number.
-/

namespace Linkage

open Traversal (bind_eq_ok_iff)

/-! ## Two fields -/

namespace Binding

variable {binding : Binding} {handleBlanks : Bool} {x y : Field} {level : Nat}

/-- What the level of two fields says: with blank handling 0 stands for blanks and for nothing else,
and equal texts get the highest level. -/
structure Grades (binding : Binding) (handleBlanks : Bool) (x y : Field) (level : Nat) : Prop where
  lt : level < binding.levels handleBlanks
  eq_zero_iff : handleBlanks = true → (level = 0 ↔ x.isBlank = true ∨ y.isBlank = true)
  top : x.isBlank = false → y.isBlank = false → x.text = y.text →
    level + 1 = binding.levels handleBlanks

theorem grades_of_level (h : binding.level handleBlanks x y = .ok level) :
    binding.Grades handleBlanks x y level := by
  have hlt := level_lt h
  have hlevels := binding.comparator.levels_pos
  rw [Binding.level] at h
  split at h
  case isTrue hblank =>
    obtain rfl := Except.ok.inj h
    have hsome := Bool.or_eq_true_iff.mp hblank
    refine ⟨hlt, fun _ => iff_of_true rfl hsome, ?_⟩
    intro hx hy
    simp [hx, hy] at hsome
  case isFalse hblank =>
    obtain ⟨hx, hy⟩ := Bool.or_eq_false_iff.mp (Bool.eq_false_of_not_eq_true hblank)
    have hzero : ∀ {n}, handleBlanks = true →
        (n + handleBlanks.toNat = 0 ↔ x.isBlank = true ∨ y.isBlank = true) := by
      rintro n rfl
      simp [hx, hy]
    split at h
    case isTrue hsame =>
      obtain rfl := Except.ok.inj h
      refine ⟨hlt, hzero, fun _ _ _ => ?_⟩
      rw [levels]
      omega
    case isFalse hne =>
      refine ⟨hlt, ?_, fun _ _ hsame => absurd hsame hne⟩
      split at h
      case isTrue =>
        obtain rfl := Except.ok.inj h
        simpa using hzero (n := 0)
      case isFalse =>
        obtain ⟨n, -, h⟩ := bind_eq_ok_iff.mp h
        obtain rfl := Except.ok.inj h
        exact hzero

/-! ## Two records -/

def levelOn (binding : Binding) (handleBlanks : Bool) (a b : Record) : Except Error Nat := do
  let x ← a.field binding.indexA
  let y ← b.field binding.indexB
  binding.level handleBlanks x y

def StumblesOn (binding : Binding) (a b : Record) : Prop :=
  ∃ x y, a.fields[binding.indexA]? = some x ∧ b.fields[binding.indexB]? = some y ∧
    binding.Stumbles x y

theorem levelOn_eq {a b : Record} (hx : a.fields[binding.indexA]? = some x)
    (hy : b.fields[binding.indexB]? = some y) :
    binding.levelOn handleBlanks a b = binding.level handleBlanks x y := by
  rw [levelOn, Record.field, Record.field, hx, hy]
  rfl

theorem index_lt_of_make {left right : Schema} {nameA nameB : String} {c : FieldComparator}
    (h : make left right nameA nameB c = .ok binding) :
    binding.indexA < left.fields.length ∧ binding.indexB < right.fields.length := by
  obtain ⟨-, -, h⟩ := bind_eq_ok_iff.mp h
  obtain ⟨i, hi, h⟩ := bind_eq_ok_iff.mp h
  obtain ⟨k, hk, h⟩ := bind_eq_ok_iff.mp h
  obtain rfl := Except.ok.inj h
  exact ⟨Schema.fieldIndex_lt hi, Schema.fieldIndex_lt hk⟩

end Binding

theorem Record.field_eq_ok {r : Record} {i : Nat} {x : Field} (h : r.field i = .ok x) :
    r.fields[i]? = some x := by
  rw [field] at h
  split at h
  case h_1 hx => exact hx.trans (congrArg some (Except.ok.inj h))
  case h_2 => cases h

namespace RecordComparator

section

variable {c : RecordComparator} {a b : Record} (hreach : c.Reaches a b)
include hreach

theorem Reaches.exists_fields {binding : Binding} (h : binding ∈ c.bindings) :
    ∃ x y, a.fields[binding.indexA]? = some x ∧ b.fields[binding.indexB]? = some y :=
  ⟨_, _, Array.getElem?_eq_getElem (hreach binding h).1, Array.getElem?_eq_getElem (hreach binding h).2⟩

theorem Reaches.levelOn_eq_error_iff {binding : Binding} (h : binding ∈ c.bindings) {e : Error} :
    binding.levelOn c.handleBlanks a b = .error e ↔
      ∃ x y, a.fields[binding.indexA]? = some x ∧ b.fields[binding.indexB]? = some y ∧
        binding.Stumbles x y ∧ e = .notNumeric (x.firstUnreadable y).text .number := by
  obtain ⟨x, y, hx, hy⟩ := hreach.exists_fields h
  rw [Binding.levelOn_eq hx hy, Binding.level_eq_error_iff, hx, hy]
  simp

theorem Reaches.exists_levelOn_eq_ok_iff {binding : Binding} (h : binding ∈ c.bindings) :
    (∃ level, binding.levelOn c.handleBlanks a b = .ok level) ↔ ¬ binding.StumblesOn a b := by
  constructor
  · rintro ⟨level, hlevel⟩ ⟨x, y, hx, hy, hstumbles⟩
    rw [(hreach.levelOn_eq_error_iff h).mpr ⟨x, y, hx, hy, hstumbles, rfl⟩] at hlevel
    cases hlevel
  · intro hnot
    cases hlevel : binding.levelOn c.handleBlanks a b with
    | ok level => exact ⟨level, rfl⟩
    | error e =>
        obtain ⟨x, y, hx, hy, hstumbles, -⟩ := (hreach.levelOn_eq_error_iff h).mp hlevel
        exact absurd ⟨x, y, hx, hy, hstumbles⟩ hnot

/-- Comparing two records fails at the first binding that stumbles. -/
theorem Reaches.compare_eq_error_iff {e : Error} :
    c.compare a b = .error e ↔ ∃ before binding after x y,
      c.bindings = before ++ binding :: after ∧ (∀ other ∈ before, ¬ other.StumblesOn a b) ∧
        a.fields[binding.indexA]? = some x ∧ b.fields[binding.indexB]? = some y ∧
          binding.Stumbles x y ∧ e = .notNumeric (x.firstUnreadable y).text .number := by
  have htraversal : c.compare a b = .error e ↔ ∃ before binding after,
      c.bindings = before ++ binding :: after ∧
        (∀ other ∈ before, ∃ level, other.levelOn c.handleBlanks a b = .ok level) ∧
          binding.levelOn c.handleBlanks a b = .error e := Traversal.mapM_eq_error_iff
  rw [htraversal]
  constructor
  · rintro ⟨before, binding, after, hsplit, hbefore, hbinding⟩
    have hmem : ∀ other, other ∈ before ++ binding :: after → other ∈ c.bindings :=
      fun other hother => hsplit ▸ hother
    obtain ⟨x, y, hfields⟩ := (hreach.levelOn_eq_error_iff (hmem binding (by simp))).mp hbinding
    refine ⟨before, binding, after, x, y, hsplit, ?_, hfields⟩
    intro other hother
    exact (hreach.exists_levelOn_eq_ok_iff (hmem other (by simp [hother]))).mp (hbefore other hother)
  · rintro ⟨before, binding, after, x, y, hsplit, hbefore, hfields⟩
    have hmem : ∀ other, other ∈ before ++ binding :: after → other ∈ c.bindings :=
      fun other hother => hsplit ▸ hother
    refine ⟨before, binding, after, hsplit, ?_,
      (hreach.levelOn_eq_error_iff (hmem binding (by simp))).mpr ⟨x, y, hfields⟩⟩
    intro other hother
    exact (hreach.exists_levelOn_eq_ok_iff (hmem other (by simp [hother]))).mpr (hbefore other hother)

theorem Reaches.exists_compare_eq_error_iff :
    (∃ e, c.compare a b = .error e) ↔ ∃ binding ∈ c.bindings, binding.StumblesOn a b := by
  have htraversal : (∃ e, c.compare a b = .error e) ↔
      ∃ binding ∈ c.bindings, ∃ e, binding.levelOn c.handleBlanks a b = .error e :=
    Traversal.exists_mapM_eq_error_iff
  rw [htraversal]
  refine exists_congr fun binding => and_congr_right fun hmem => ?_
  constructor
  · rintro ⟨e, he⟩
    obtain ⟨x, y, hx, hy, hstumbles, -⟩ := (hreach.levelOn_eq_error_iff hmem).mp he
    exact ⟨x, y, hx, hy, hstumbles⟩
  · rintro ⟨x, y, hx, hy, hstumbles⟩
    exact ⟨_, (hreach.levelOn_eq_error_iff hmem).mpr ⟨x, y, hx, hy, hstumbles, rfl⟩⟩

end

/-- Every level of a pattern is that of the fields its binding reads. -/
def Grades (c : RecordComparator) (a b : Record) (p : Pattern) : Prop :=
  List.Forall₂ (fun binding level => ∃ x y, a.fields[binding.indexA]? = some x ∧
    b.fields[binding.indexB]? = some y ∧ binding.Grades c.handleBlanks x y level) c.bindings p

theorem grades_of_compare {c : RecordComparator} {a b : Record} {p : Pattern}
    (h : c.compare a b = .ok p) : c.Grades a b p := by
  refine (Traversal.mapM_eq_ok_iff.mp h).imp fun binding level hlevel => ?_
  obtain ⟨x, hx, hlevel⟩ := bind_eq_ok_iff.mp hlevel
  obtain ⟨y, hy, hlevel⟩ := bind_eq_ok_iff.mp hlevel
  exact ⟨x, y, Record.field_eq_ok hx, Record.field_eq_ok hy, Binding.grades_of_level hlevel⟩

theorem compareIndex_eq_error_iff {c : RecordComparator} {a b : Record} {e : Error} :
    c.compareIndex a b = .error e ↔ c.compare a b = .error e := by
  rw [compareIndex_eq, Traversal.map_eq_error_iff]

/-- Records of the schemas that a comparator was built for have the fields that it reads. -/
theorem reaches_of_isOf {left right : Schema} {parts : List (String × String × FieldComparator)}
    {c : RecordComparator}
    (hbindings : parts.mapM (fun (nameA, nameB, comparator) =>
      Binding.make left right nameA nameB comparator) = .ok c.bindings)
    {a b : Record} (ha : a.IsOf left) (hb : b.IsOf right) : c.Reaches a b := by
  intro binding hbinding
  obtain ⟨⟨nameA, nameB, comparator⟩, -, hmake⟩ :=
    (Traversal.mem_mapM_iff hbindings binding).mp hbinding
  rw [ha.size_fields, hb.size_fields]
  exact Binding.index_lt_of_make hmake

/-- For records of the schemas that a comparator was built for, the comparison fails just if some
binding stumbles, with the value at which the first one does.  Otherwise every binding gives a level,
and the pattern has a number. -/
theorem compare_total {left right : Schema} {parts : List (String × String × FieldComparator)}
    {serial : Nat} {handleBlanks : Bool} {bindings : List Binding} {c : RecordComparator}
    (hbindings : parts.mapM (fun (nameA, nameB, comparator) =>
      Binding.make left right nameA nameB comparator) = .ok bindings)
    (hc : make serial bindings handleBlanks = .ok c)
    {a b : Record} (ha : a.IsOf left) (hb : b.IsOf right) :
    ((∃ e, c.compare a b = .error e) ↔ ∃ binding ∈ c.bindings, binding.StumblesOn a b) ∧
      (∀ e, c.compare a b = .error e ↔ ∃ before binding after x y,
        c.bindings = before ++ binding :: after ∧ (∀ other ∈ before, ¬ other.StumblesOn a b) ∧
          a.fields[binding.indexA]? = some x ∧ b.fields[binding.indexB]? = some y ∧
            binding.Stumbles x y ∧ e = .notNumeric (x.firstUnreadable y).text .number) ∧
      (∀ e, c.compareIndex a b = .error e ↔ c.compare a b = .error e) ∧
      ((∀ binding ∈ c.bindings, ¬ binding.StumblesOn a b) →
        ∃ p, c.compare a b = .ok p ∧ c.Grades a b p ∧
          ∃ index < c.patternCount, c.compareIndex a b = .ok index) := by
  have hnumbered := numbered_of_make hc
  have hsame : c.bindings = bindings := by rw [(make_eq_ok_iff.mp hc).2]
  have hreach : c.Reaches a b := reaches_of_isOf (hsame ▸ hbindings) ha hb
  refine ⟨hreach.exists_compare_eq_error_iff, fun _ => hreach.compare_eq_error_iff,
    fun _ => compareIndex_eq_error_iff, ?_⟩
  intro hnone
  obtain ⟨p, hp⟩ := Traversal.exists_mapM_eq_ok fun binding hbinding =>
    (hreach.exists_levelOn_eq_ok_iff hbinding).mpr (hnone binding hbinding)
  have hp : c.compare a b = .ok p := hp
  refine ⟨p, hp, grades_of_compare hp, _, hnumbered.encode_lt (fits_compare hp), ?_⟩
  rw [compareIndex_eq, hp]
  rfl

/-! An example: names are compared with first names, ages with years. -/

namespace Ages

def left : Schema := ⟨0, ["zip", "name", "age"], ["zip"], none, none⟩

def right : Schema := ⟨1, ["years", "first", "zip"], ["zip"], none, none⟩

def parts : List (String × String × FieldComparator) :=
  [("name", "first", .exact), ("age", "years", .standardProrated)]

def bound : List Binding :=
  [⟨"name", "first", 0, 1, .exact⟩, ⟨"age", "years", 1, 0, .standardProrated⟩]

def comparator : RecordComparator := ⟨0, bound, true, 15⟩

def ann : Record := left.recordOf ["1", "Ann", "forty"] "0"

def bob : Record := right.recordOf ["42", "Bob", "1"] "0"

end Ages

open Ages in
/-- The names differ, which is no failure, and one of the ages is no number. -/
theorem compare_total_ages :
    parts.mapM (fun (nameA, nameB, comparator) => Binding.make left right nameA nameB comparator) =
        .ok bound ∧
      make 0 bound true = .ok comparator ∧ ann.IsOf left ∧ bob.IsOf right ∧
        comparator.compare ann bob = .error (.notNumeric "forty" .number) := by
  have hbindings : parts.mapM (fun (nameA, nameB, comparator) =>
      Binding.make left right nameA nameB comparator) = .ok bound := rfl
  have hc : make 0 bound true = .ok comparator := rfl
  have hleft : left.names ⊆ left.columns := by decide
  have hright : right.names ⊆ right.columns := by decide
  have hann : ann.IsOf left :=
    Schema.isOf_recordOf hleft (rfl : ["1", "Ann", "forty"].length = left.columns.length) "0"
  have hbob : bob.IsOf right :=
    Schema.isOf_recordOf hright (rfl : ["42", "Bob", "1"].length = right.columns.length) "0"
  refine ⟨hbindings, hc, hann, hbob, ?_⟩
  rw [(compare_total hbindings hc hann hbob).2.1]
  refine ⟨[⟨"name", "first", 0, 1, .exact⟩], ⟨"age", "years", 1, 0, .standardProrated⟩, [], ⟨"forty"⟩,
    ⟨"42"⟩, rfl, ?_, rfl, rfl, ⟨rfl, rfl, rfl, by decide, .inl rfl⟩, rfl⟩
  intro other hother
  obtain rfl := List.mem_singleton.mp hother
  rintro ⟨x, y, -, -, h⟩
  cases h.isNumeric

end RecordComparator

end Linkage
