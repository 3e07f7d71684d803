import Linkage.Proofs.Source
import Mathlib.Data.List.NodupEquivFin

/-
# From columns to fields

A name is looked up twice, among the columns of a row and among the fields of a record, and the two
places differ: the columns with another use are not counted among the fields.  What a name finds is
the last of its places on either side.  So the record of a row has under a name the value that the
row has under it, wherever the name stands in the two lists, also where names are repeated or have
several uses.

Where no name is repeated every value of a row goes somewhere.  The fields are then the values of
the other columns as they stand in the row, and the places of two names are in the same order on
both sides, because the fields are a part of the columns.
-/

namespace Linkage

/-! ## The last place of a name -/

/-- A name stands at a place, and not behind it. -/
def LastAt (names : List String) (name : String) (i : Nat) : Prop :=
  names[i]? = some name ∧ ∀ j, names[j]? = some name → j ≤ i

theorem LastAt.unique {names : List String} {name : String} {i j : Nat} (hi : LastAt names name i)
    (hj : LastAt names name j) : i = j :=
  Nat.le_antisymm (hj.2 i hi.1) (hi.2 j hj.1)

theorem LastAt.of_nodup {names : List String} (hnames : names.Nodup) {name : String} {i : Nat}
    (h : names[i]? = some name) : LastAt names name i := by
  refine ⟨h, fun j hj => Nat.le_of_eq ?_⟩
  have hlt : j < names.length := (List.getElem?_eq_some_iff.mp hj).1
  exact (List.getElem?_inj hlt hnames).mp (hj.trans h.symm)

theorem le_of_lastIndex?_eq_some {name : String} {names : List String} {i j : Nat}
    (h : lastIndex? name names = some i) (hj : names[j]? = some name) : j ≤ i := by
  induction names generalizing i j with
  | nil => cases h
  | cons x xs ih =>
      rw [lastIndex?] at h
      cases j with
      | zero => exact Nat.zero_le i
      | succ j =>
          rw [List.getElem?_cons_succ] at hj
          obtain ⟨k, hk⟩ := exists_lastIndex?_of_mem (List.mem_of_getElem? hj)
          rw [hk] at h
          obtain rfl := Option.some.inj h
          exact Nat.succ_le_succ (ih hk hj)

theorem lastIndex?_eq_some_iff {name : String} {names : List String} {i : Nat} :
    lastIndex? name names = some i ↔ LastAt names name i := by
  refine ⟨fun h => ⟨lastIndex?_eq_some h, fun j => le_of_lastIndex?_eq_some h⟩, fun h => ?_⟩
  obtain ⟨j, hj⟩ := exists_lastIndex?_of_mem (List.mem_of_getElem? h.1)
  have hlast : LastAt names name j := ⟨lastIndex?_eq_some hj, fun k => le_of_lastIndex?_eq_some hj⟩
  rw [h.unique hlast, hj]

theorem lastIndex?_eq_none_iff {name : String} {names : List String} :
    lastIndex? name names = none ↔ name ∉ names := by
  constructor
  · intro h hmem
    obtain ⟨i, hi⟩ := exists_lastIndex?_of_mem hmem
    cases h.symm.trans hi
  · intro h
    rw [Option.eq_none_iff_forall_ne_some]
    exact fun i hi => h (List.mem_of_getElem? (lastIndex?_eq_some hi))

namespace Schema

variable {s : Schema} {row : List String} {name value : String} {i k : Nat}

/-! ## Looking names up -/

theorem columnIndex_eq_ok_iff : s.columnIndex name = .ok i ↔ LastAt s.columns name i := by
  rw [← lastIndex?_eq_some_iff, columnIndex, find]
  cases lastIndex? name s.columns <;> simp

theorem fieldIndex_eq_ok_iff : s.fieldIndex name = .ok k ↔ LastAt s.fields name k := by
  rw [← lastIndex?_eq_some_iff, fieldIndex]
  cases lastIndex? name s.fields <;> simp

theorem fieldIndex_eq_error_iff {e : Error} :
    s.fieldIndex name = .error e ↔ name ∉ s.fields ∧ e = .unknownField name := by
  rw [← lastIndex?_eq_none_iff, fieldIndex]
  cases lastIndex? name s.fields <;> simp [eq_comm]

theorem fields_eq_filter (s : Schema) : s.fields = s.columns.filter fun name =>
    decide (name ∉ s.blocking ∧ s.sequence ≠ some name ∧ s.id ≠ some name) := by
  rw [fields]
  refine List.filter_congr fun name _ => ?_
  rw [isSpecial, Bool.eq_iff_iff]
  simp [and_assoc]

theorem mem_fields_iff : name ∈ s.fields ↔
    name ∈ s.columns ∧ name ∉ s.blocking ∧ s.sequence ≠ some name ∧ s.id ≠ some name := by
  rw [fields_eq_filter, List.mem_filter, decide_eq_true_iff]

/-- A row has a value under a name: the one in the last column of this name. -/
def Reads (s : Schema) (row : List String) (name value : String) : Prop :=
  ∃ i, s.columnIndex name = .ok i ∧ row[i]? = some value

theorem Reads.unique {value' : String} (h : s.Reads row name value) (h' : s.Reads row name value') :
    value = value' := by
  obtain ⟨i, hi, hvalue⟩ := h
  obtain ⟨j, hj, hvalue'⟩ := h'
  obtain rfl := Except.ok.inj (hi.symm.trans hj)
  exact Option.some.inj (hvalue.symm.trans hvalue')

theorem reads_valueAt (hs : s.names ⊆ s.columns) (hrow : row.length = s.columns.length)
    (hname : name ∈ s.names) : s.Reads row name (s.valueAt row name) := by
  obtain ⟨i, hi, hvalue⟩ := exists_valueAt_eq hs hrow hname
  exact ⟨i, columnIndex_eq_ok_iff.mpr (lastIndex?_eq_some_iff.mp hi), hvalue⟩

end Schema

/-! ## The record of a row -/

/-- A record has its parts from the columns of a row that their names stand for.  `next` is the
running number that is used without a sequence column. -/
structure Record.TakenFrom (r : Record) (s : Schema) (row : List String) (next : Nat) : Prop where
  schema : r.schema = s
  fields : List.Forall₂ (s.Reads row) s.fields (r.fields.toList.map Field.text)
  key : ∃ values, List.Forall₂ (s.Reads row) s.blocking values ∧ r.key = String.join values
  id : ∀ name, s.id = some name → s.Reads row name r.id
  noId : s.id = none → r.id = ""
  sequence : ∀ name, s.sequence = some name → s.Reads row name r.sequence
  numbered : s.sequence = none → r.sequence = toString next

namespace Schema

variable {s : Schema} {row : List String} {next : Nat}

/-- The sequence value of a row. -/
def sequenceOf (s : Schema) (row : List String) (next : Nat) : String :=
  (s.sequence.map (s.valueAt row)).getD (toString next)

theorem run_record (hrow : row.length = s.columns.length) (next : Nat) :
    (s.record row).run next = (.ok (s.recordOf row (s.sequenceOf row next)),
      if s.sequence = none then next + 1 else next) := by
  rw [record, if_pos hrow, sequenceOf]
  cases s.sequence <;> rfl

theorem run_record_of_ne (hrow : row.length ≠ s.columns.length) (next : Nat) :
    (s.record row).run next = (.error (.columnCount s.columns.length row.length), next) := by
  rw [record, if_neg hrow]
  rfl

theorem takenFrom_recordOf (hs : s.names ⊆ s.columns) (hrow : row.length = s.columns.length)
    (next : Nat) : (s.recordOf row (s.sequenceOf row next)).TakenFrom s row next := by
  have hreads : ∀ name ∈ s.names, s.Reads row name (s.valueAt row name) :=
    fun name => reads_valueAt hs hrow
  have hblocking : ∀ name ∈ s.blocking, name ∈ s.names := fun name h =>
    List.mem_append_left _ (List.mem_append_left _ (List.mem_append_left _ h))
  have hsequence : ∀ name, s.sequence = some name → name ∈ s.names := fun name h =>
    List.mem_append_left _ (List.mem_append_left _ (List.mem_append_right _ (by simp [h])))
  have hid : ∀ name, s.id = some name → name ∈ s.names := fun name h =>
    List.mem_append_left _ (List.mem_append_right _ (by simp [h]))
  have hfields : ∀ name ∈ s.fields, name ∈ s.names := fun name h => List.mem_append_right _ h
  exact {
    schema := rfl
    fields := by
      rw [recordOf, List.map_map, List.forall₂_map_right_iff, List.forall₂_same]
      exact fun name h => hreads name (hfields name h)
    key := by
      refine ⟨s.blocking.map (s.valueAt row), ?_, rfl⟩
      rw [List.forall₂_map_right_iff, List.forall₂_same]
      exact fun name h => hreads name (hblocking name h)
    id := fun name h => by
      simp only [recordOf, h, Option.map_some, Option.getD_some]
      exact hreads name (hid name h)
    noId := fun h => by
      simp only [recordOf, h, Option.map_none, Option.getD_none]
    sequence := fun name h => by
      simp only [recordOf, sequenceOf, h, Option.map_some, Option.getD_some]
      exact hreads name (hsequence name h)
    numbered := fun h => by
      simp only [recordOf, sequenceOf, h, Option.map_none, Option.getD_none] }

theorem sequenceOf_congr (row : List String) {next next' : Nat}
    (h : s.sequence = none → next = next') : s.sequenceOf row next = s.sequenceOf row next' := by
  cases hsequence : s.sequence with
  | none => rw [h hsequence]
  | some name => rw [sequenceOf, sequenceOf, hsequence, Option.map_some, Option.getD_some,
      Option.getD_some]

/-- Rows with a value for each column have their records, one after the other. -/
theorem run_records {rows : List (List String)} (hs : s.names ⊆ s.columns)
    (hrows : ∀ row ∈ rows, row.length = s.columns.length) (next : Nat) :
    ∃ records, (s.records rows).run next =
        (.ok records, if s.sequence = none then next + rows.length else next) ∧
      List.Forall₂ (fun (row : List String × Nat) r => r.TakenFrom s row.1 row.2)
        (rows.zipIdx next) records := by
  -- The rows are counted in any case, but the count is of no use if there is a sequence column.
  suffices hrun : ∀ count next, (s.sequence = none → count = next) → (s.records rows).run next =
      (.ok ((rows.zipIdx count).map fun row => s.recordOf row.1 (s.sequenceOf row.1 row.2)),
        if s.sequence = none then next + rows.length else next) by
    refine ⟨_, hrun next next fun _ => rfl, ?_⟩
    rw [List.forall₂_map_right_iff, List.forall₂_same]
    intro row hrow
    exact takenFrom_recordOf hs (hrows _ (List.fst_mem_of_mem_zipIdx hrow)) row.2
  induction rows with
  | nil =>
      intro count next _
      rw [records, List.mapM_nil, List.length_nil, Nat.add_zero, ite_self]
      rfl
  | cons row rows ih =>
      intro count next hcount
      have hnext : s.sequence = none →
          count + 1 = if s.sequence = none then next + 1 else next := by
        intro h
        rw [if_pos h, hcount h]
      have hrest := ih (fun row hrow => hrows row (List.mem_cons_of_mem _ hrow)) _ _ hnext
      rw [records] at hrest
      rw [records, List.mapM_cons, Action.run_bind, run_record (hrows row List.mem_cons_self)]
      dsimp only
      rw [Action.run_bind, hrest, List.zipIdx_cons, List.map_cons, sequenceOf_congr row hcount]
      refine Prod.ext rfl ?_
      change (if s.sequence = none then (if s.sequence = none then next + 1 else next) + rows.length
        else (if s.sequence = none then next + 1 else next)) = _
      split <;> simp [Nat.add_comm, Nat.add_left_comm]

end Schema

/-! ## Distinct names -/

/-- Every value of a row is in a record: the values of the columns without another use are the
fields, in order, and the other values have their uses. -/
structure Record.UsesAll (r : Record) (s : Schema) (row : List String) : Prop where
  fields : r.fields.toList.map Field.text =
    ((s.columns.zip row).filter fun c => decide (c.1 ∈ s.fields)).map Prod.snd
  field : ∀ c ∈ s.columns.zip row, c.1 ∈ s.fields →
    ∃ k, s.fieldIndex c.1 = .ok k ∧ r.fields[k]? = some ⟨c.2⟩
  key : ∀ c ∈ s.columns.zip row, c.1 ∈ s.blocking →
    ∃ before after, r.key = before ++ c.2 ++ after
  sequence : ∀ c ∈ s.columns.zip row, s.sequence = some c.1 → r.sequence = c.2
  id : ∀ c ∈ s.columns.zip row, s.id = some c.1 → r.id = c.2

namespace Schema

variable {s : Schema} {row : List String} {next : Nat} (hcolumns : s.columns.Nodup)
include hcolumns

theorem reads_of_mem_zip {c : String × String} (h : c ∈ s.columns.zip row) :
    s.Reads row c.1 c.2 := by
  obtain ⟨i, hi⟩ := List.mem_iff_getElem?.mp h
  obtain ⟨hcolumn, hvalue⟩ := List.getElem?_zip_eq_some.mp hi
  exact ⟨i, columnIndex_eq_ok_iff.mpr (.of_nodup hcolumns hcolumn), hvalue⟩

theorem fieldIndex_lt_iff {name name' : String} {i j k l : Nat} (hi : s.columnIndex name = .ok i)
    (hj : s.columnIndex name' = .ok j) (hk : s.fieldIndex name = .ok k)
    (hl : s.fieldIndex name' = .ok l) : k < l ↔ i < j := by
  -- The fields are a part of the columns, so that they have places there in their order.
  have hpart : s.fields.Sublist s.columns := List.filter_sublist
  obtain ⟨f, hf⟩ := List.sublist_iff_exists_orderEmbedding_getElem?_eq.mp hpart
  have hplace : ∀ {name : String} {i k : Nat}, s.columnIndex name = .ok i →
      s.fieldIndex name = .ok k → i = f k := by
    intro name i k hi hk
    have hcolumn : s.columns[f k]? = some name := by
      rw [← hf]
      exact (fieldIndex_eq_ok_iff.mp hk).1
    exact (columnIndex_eq_ok_iff.mp hi).unique (.of_nodup hcolumns hcolumn)
  rw [hplace hi hk, hplace hj hl, f.lt_iff_lt]

end Schema

theorem exists_getElem?_of_forall₂ {α β : Type} {R : α → β → Prop} {xs : List α} {ys : List β}
    (h : List.Forall₂ R xs ys) {k : Nat} {x : α} (hx : xs[k]? = some x) :
    ∃ y, ys[k]? = some y ∧ R x y := by
  induction h generalizing k with
  | nil => cases hx
  | cons hxy _ ih =>
      cases k with
      | zero =>
          obtain rfl := Option.some.inj hx
          exact ⟨_, rfl, hxy⟩
      | succ k => exact ih hx

/-- Where no name is repeated, a record of a row uses all of it. -/
theorem Record.TakenFrom.usesAll {r : Record} {s : Schema} {row : List String} {next : Nat}
    (h : r.TakenFrom s row next) (hcolumns : s.columns.Nodup)
    (hrow : row.length = s.columns.length) : r.UsesAll s row := by
  have hreads : ∀ c ∈ s.columns.zip row, s.Reads row c.1 c.2 :=
    fun _ => Schema.reads_of_mem_zip hcolumns
  exact {
    fields := by
      set held := (s.columns.zip row).filter fun c => decide (c.1 ∈ s.fields) with hheld
      have hnames : held.map Prod.fst = s.fields := by
        conv_rhs => rw [Schema.fields_eq_filter, ← List.map_fst_zip (Nat.le_of_eq hrow.symm)]
        rw [List.filter_map]
        refine congrArg _ (List.filter_congr fun c hc => ?_)
        have hmem : c.1 ∈ s.columns := (List.of_mem_zip hc).1
        simp [Schema.mem_fields_iff, hmem]
      have hvalues : List.Forall₂ (s.Reads row) s.fields (held.map Prod.snd) := by
        rw [← hnames, List.forall₂_map_left_iff, List.forall₂_map_right_iff, List.forall₂_same]
        exact fun c hc => hreads c (List.mem_of_mem_filter hc)
      have hunique : Relator.RightUnique (s.Reads row) := fun _ _ _ h h' => h.unique h'
      exact List.right_unique_forall₂' hunique h.fields hvalues
    field := fun c hc hfield => by
      obtain ⟨k, hk⟩ := exists_lastIndex?_of_mem hfield
      have hlast := lastIndex?_eq_some_iff.mp hk
      obtain ⟨text, htext, hread⟩ := exists_getElem?_of_forall₂ h.fields hlast.1
      refine ⟨k, Schema.fieldIndex_eq_ok_iff.mpr hlast, ?_⟩
      rw [List.getElem?_map, Option.map_eq_some_iff] at htext
      obtain ⟨field, hfound, rfl⟩ := htext
      rw [← Array.getElem?_toList, hfound, ← hread.unique (hreads c hc)]
    key := fun c hc hblocking => by
      obtain ⟨values, hvalues, hkey⟩ := h.key
      obtain ⟨j, hj⟩ := List.mem_iff_getElem?.mp hblocking
      obtain ⟨value, hvalue, hread⟩ := exists_getElem?_of_forall₂ hvalues hj
      obtain rfl := hread.unique (hreads c hc)
      obtain ⟨before, after, rfl⟩ := List.append_of_mem (List.mem_of_getElem? hvalue)
      refine ⟨String.join before, String.join after, ?_⟩
      rw [hkey, String.join_append, String.join_cons, String.append_assoc]
    sequence := fun c hc hsequence => (h.sequence c.1 hsequence).unique (hreads c hc)
    id := fun c hc hid => (h.id c.1 hid).unique (hreads c hc) }

/-- If the columns have no other uses either, the fields of a record are its row. -/
theorem Record.TakenFrom.text_fields {r : Record} {serial next : Nat} {columns row : List String}
    (h : r.TakenFrom ⟨serial, columns, [], none, none⟩ row next) (hcolumns : columns.Nodup)
    (hrow : row.length = columns.length) : r.fields.toList.map Field.text = row := by
  have hall : ∀ c ∈ columns.zip row,
      c.1 ∈ (⟨serial, columns, [], none, none⟩ : Schema).fields := by
    intro c hc
    exact Schema.mem_fields_iff.mpr ⟨(List.of_mem_zip hc).1, nofun, nofun, nofun⟩
  rw [(h.usesAll hcolumns hrow).fields,
    List.filter_eq_self.mpr fun c hc => decide_eq_true (hall c hc)]
  exact List.map_snd_zip (Nat.le_of_eq hrow)

/-! ## Schemas that are accepted -/

namespace Schema

/-- In a schema that is accepted the fields are the columns without another use.  A name finds the
last of its places among the columns, and the last of its places among the fields, or it is not among
them.  A row with a value for each column has one record, whose parts are the values under their
names; it takes a running number if there is no sequence column.  A row of another length is refused
and takes none.  And if no name is repeated, the record uses all values of the row, and the fields
stand in the order of the columns. -/
theorem columns_reach_fields {serial : Nat} {columns blocking : List String}
    {sequence id : Option String} {s : Schema}
    (hmake : make serial columns blocking sequence id = .ok s) :
    (s.fields = columns.filter fun name =>
      decide (name ∉ blocking ∧ sequence ≠ some name ∧ id ≠ some name)) ∧
    ((∀ name i, s.columnIndex name = .ok i ↔ LastAt columns name i) ∧
      (∀ name k, s.fieldIndex name = .ok k ↔ LastAt s.fields name k) ∧
      ∀ name e, s.fieldIndex name = .error e ↔ name ∉ s.fields ∧ e = .unknownField name) ∧
    (∀ row next, row.length = columns.length → ∃ r,
      (s.record row).run next = (.ok r, if sequence = none then next + 1 else next) ∧
        r.TakenFrom s row next ∧ (columns.Nodup → r.UsesAll s row)) ∧
    (∀ row next, row.length ≠ columns.length →
      (s.record row).run next = (.error (.columnCount columns.length row.length), next)) ∧
    (columns.Nodup → ∀ name name' i j k l, s.columnIndex name = .ok i →
      s.columnIndex name' = .ok j → s.fieldIndex name = .ok k → s.fieldIndex name' = .ok l →
        (k < l ↔ i < j)) := by
  obtain ⟨rfl, hs⟩ := make_eq_ok hmake
  refine ⟨fields_eq_filter _, ⟨fun name i => columnIndex_eq_ok_iff,
    fun name k => fieldIndex_eq_ok_iff, fun name e => fieldIndex_eq_error_iff⟩, ?_, ?_, ?_⟩
  · intro row next hrow
    have htaken := takenFrom_recordOf hs hrow next
    exact ⟨_, run_record hrow next, htaken, fun hcolumns => htaken.usesAll hcolumns hrow⟩
  · exact fun row next hrow => run_record_of_ne hrow next
  · exact fun hcolumns name name' i j k l => fieldIndex_lt_iff hcolumns

/-! ### Residents -/

/-- Residents, whose id is also a blocking column and whose zip code also numbers them. -/
def residents : Schema :=
  ⟨0, ["zip", "first", "last", "id"], ["id", "zip"], some "zip", some "id"⟩

theorem columns_reach_fields_residents :
    make 0 residents.columns residents.blocking residents.sequence residents.id = .ok residents ∧
      ∃ r, (residents.record ["12", "ann", "lee", "7"]).run 3 = (.ok r, 3) ∧
        r.TakenFrom residents ["12", "ann", "lee", "7"] 3 ∧
        r.UsesAll residents ["12", "ann", "lee", "7"] ∧ r.key = "712" := by
  have hmake : make 0 residents.columns residents.blocking residents.sequence residents.id =
      .ok residents := rfl
  obtain ⟨-, -, hrecord, -⟩ := columns_reach_fields hmake
  obtain ⟨r, hrun, htaken, huses⟩ := hrecord ["12", "ann", "lee", "7"] 3 rfl
  have hr : r = residents.recordOf ["12", "ann", "lee", "7"] "12" :=
    (Except.ok.inj (congrArg Prod.fst hrun)).symm
  refine ⟨hmake, r, hrun, htaken, huses (by decide), ?_⟩
  rw [hr]
  decide

/-- Of several columns with one name all fields hold the last value. -/
example : ((⟨0, ["name", "name"], [], none, none⟩ : Schema).recordOf ["ann", "lee"] "").fields =
    #[⟨"lee"⟩, ⟨"lee"⟩] := by
  decide

end Schema

end Linkage
