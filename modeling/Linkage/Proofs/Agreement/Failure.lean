import Linkage.Proofs.Agreement.RecordComparator

/-
# When two records cannot be compared

Only a numeric comparator can fail on two fields, and it fails on a text that writes no number.  It
is not asked when a field is blank or the texts are equal.  Besides, a record must have the fields
that a comparator reads.  There is no other failure; the main statement is `compare_eq_error`.
-/

namespace Linkage

open Traversal (bind_eq_error_iff)

/-! ## Numbers -/

def Field.isNumber (f : Field) : Bool :=
  (Decimal.readFloat? (Text.trim f.text)).isSome

/-- Of two fields that are not both numbers, the first that is none. -/
def Field.firstUnreadable (x y : Field) : Field :=
  if x.isNumber then y else x

theorem Field.asFloat_of_isNumber {f : Field} (h : f.isNumber = true) : ∃ x, f.asFloat = .ok x := by
  obtain ⟨x, hx⟩ := Option.isSome_iff_exists.mp h
  exact ⟨x, by rw [asFloat, hx]⟩

theorem Field.asFloat_of_not_isNumber {f : Field} (h : f.isNumber = false) :
    f.asFloat = .error (.notNumeric f.text .number) := by
  rw [isNumber, Option.isSome_eq_false_iff, Option.isNone_iff_eq_none] at h
  rw [asFloat, h]

theorem Field.readBoth_eq_error_iff {x y : Field} {f : Float → Float → Nat} {e : Error} :
    (do return f (← x.asFloat) (← y.asFloat)) = Except.error e ↔
      (x.isNumber = false ∨ y.isNumber = false) ∧
        e = .notNumeric (x.firstUnreadable y).text .number := by
  rw [firstUnreadable]
  cases hx : x.isNumber with
  | false =>
      rw [Traversal.bind_of_error (asFloat_of_not_isNumber hx)]
      simpa using eq_comm
  | true =>
      obtain ⟨u, hu⟩ := asFloat_of_isNumber hx
      rw [Traversal.bind_of_ok hu]
      cases hy : y.isNumber with
      | false =>
          rw [Traversal.bind_of_error (asFloat_of_not_isNumber hy)]
          simpa using eq_comm
      | true =>
          obtain ⟨v, hv⟩ := asFloat_of_isNumber hy
          rw [Traversal.bind_of_ok hv]
          simp [pure, Except.pure]

/-- Whether a comparator compares the numbers that the texts write. -/
def FieldComparator.isNumeric : FieldComparator → Bool
  | prorated _ _ => true
  | absoluteDifference _ => true
  | yearAdjusted _ _ _ => true
  | _ => false

theorem FieldComparator.compare_eq_error_iff {c : FieldComparator} {x y : Field} {e : Error} :
    c.compare x y = .error e ↔
      c.isNumeric = true ∧ (x.isNumber = false ∨ y.isNumber = false) ∧
        e = .notNumeric (x.firstUnreadable y).text .number := by
  -- The numeric comparators differ only in what they make of the two numbers.
  have hnumbers : ∀ f : Float → Float → Nat,
      (do return f (← x.asFloat) (← y.asFloat)) = Except.error e ↔
        true = true ∧ (x.isNumber = false ∨ y.isNumber = false) ∧
          e = .notNumeric (x.firstUnreadable y).text .number :=
    fun f => Field.readBoth_eq_error_iff.trans (and_iff_right rfl).symm
  cases c with
  | exact => exact iff_of_false nofun nofun
  | prorated slopes intercepts => exact hnumbers (Agreement.proratedLevel slopes intercepts)
  | absoluteDifference thresholds => exact hnumbers (Agreement.differenceLevel thresholds)
  | yearAdjusted baseYear slopes intercepts => exact hnumbers _
  | fuzzy thresholds adjustments => exact iff_of_false nofun nofun

theorem FieldComparator.isExact_of_isNumeric {c : FieldComparator} (h : c.isNumeric = true) :
    c.isExact = false := by
  cases c with
  | exact => cases h
  | _ => rfl

/-! ## Two fields -/

namespace Binding

variable {binding : Binding} {handleBlanks : Bool} {x y : Field} {e : Error}

/-- Whether a binding must read two fields as numbers and cannot. -/
structure Stumbles (binding : Binding) (x y : Field) : Prop where
  isNumeric : binding.comparator.isNumeric = true
  isBlank_left : x.isBlank = false
  isBlank_right : y.isBlank = false
  text_ne : x.text ≠ y.text
  not_isNumber : x.isNumber = false ∨ y.isNumber = false

theorem level_eq_error_iff :
    binding.level handleBlanks x y = .error e ↔
      binding.Stumbles x y ∧ e = .notNumeric (x.firstUnreadable y).text .number := by
  have hok : ∀ level, ¬ (Except.ok level : Except Error Nat) = .error e := by
    intro level h
    cases h
  rw [level]
  split
  case isTrue hblank =>
    refine iff_of_false (hok 0) ?_
    rintro ⟨h, -⟩
    rw [h.isBlank_left, h.isBlank_right] at hblank
    cases hblank
  case isFalse hblank =>
    obtain ⟨hx, hy⟩ := Bool.or_eq_false_iff.mp (Bool.eq_false_of_not_eq_true hblank)
    split
    case isTrue hsame => exact iff_of_false (hok _) fun h => h.1.text_ne hsame
    case isFalse hne =>
      split
      case isTrue hexact =>
        refine iff_of_false (hok _) ?_
        rintro ⟨h, -⟩
        rw [FieldComparator.isExact_of_isNumeric h.isNumeric] at hexact
        cases hexact
      case isFalse =>
        rw [bind_eq_error_iff, FieldComparator.compare_eq_error_iff]
        constructor
        · rintro (⟨hnumeric, hnumber, he⟩ | ⟨_, -, h⟩)
          · exact ⟨⟨hnumeric, hx, hy, hne, hnumber⟩, he⟩
          · cases h
        · rintro ⟨h, he⟩
          exact .inl ⟨h.isNumeric, h.not_isNumber, he⟩

end Binding

/-! ## Two records -/

theorem Record.field_eq_error {r : Record} {i : Nat} {e : Error} (h : r.field i = .error e) :
    e = .misuse .outOfBounds ∧ r.fields.size ≤ i := by
  rw [field] at h
  split at h
  case h_1 => cases h
  case h_2 hnone => exact ⟨(Except.error.inj h).symm, Array.getElem?_eq_none_iff.mp hnone⟩

namespace RecordComparator

/-- Whether two records have the fields that a comparator reads. -/
def Reaches (c : RecordComparator) (a b : Record) : Prop :=
  ∀ binding ∈ c.bindings, binding.indexA < a.fields.size ∧ binding.indexB < b.fields.size

/-- Comparing two records fails on a value that is no number, or for want of a field. -/
theorem compare_eq_error {c : RecordComparator} {a b : Record} {e : Error}
    (h : c.compare a b = .error e) :
    (∃ value, e = .notNumeric value .number) ∨ (e = .misuse .outOfBounds ∧ ¬ c.Reaches a b) := by
  obtain ⟨before, binding, after, hsplit, -, h⟩ := Traversal.mapM_eq_error_iff.mp h
  have hmem : binding ∈ c.bindings := by
    rw [hsplit]
    exact List.mem_append_right _ List.mem_cons_self
  rcases bind_eq_error_iff.mp h with ha | ⟨x, -, h⟩
  · obtain ⟨he, hsize⟩ := Record.field_eq_error ha
    refine .inr ⟨he, ?_⟩
    intro hreach
    exact absurd (hreach binding hmem).1 (Nat.not_lt.mpr hsize)
  · rcases bind_eq_error_iff.mp h with hb | ⟨y, -, h⟩
    · obtain ⟨he, hsize⟩ := Record.field_eq_error hb
      refine .inr ⟨he, ?_⟩
      intro hreach
      exact absurd (hreach binding hmem).2 (Nat.not_lt.mpr hsize)
    · exact .inl ⟨_, (Binding.level_eq_error_iff.mp h).2⟩

end RecordComparator

end Linkage
