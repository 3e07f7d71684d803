import Linkage.Job
import Linkage.Proofs.Traversal

/-
# What a source yields

The names of a schema are looked up when it is made, and a layout is compared with the schema when a
source is made.  So whatever the file holds, the places that a record is taken from exist, and every
record is that of a row with all columns.  What is left to go wrong is the file: there may be none,
its bytes may be no text, and its rows may have other lengths.
-/

namespace Linkage

open Traversal (bind_eq_ok_iff forM_eq_ok_iff)

/-! ## Names -/

theorem lastIndex?_eq_some {name : String} {names : List String} {i : Nat}
    (h : lastIndex? name names = some i) : names[i]? = some name := by
  induction names generalizing i with
  | nil => cases h
  | cons x xs ih =>
      rw [lastIndex?] at h
      cases hxs : lastIndex? name xs with
      | some j =>
          rw [hxs] at h
          obtain rfl := Option.some.inj h
          exact ih hxs
      | none =>
          rw [hxs] at h
          by_cases hx : x = name
          · rw [if_pos hx] at h
            obtain rfl := Option.some.inj h
            exact congrArg some hx
          · rw [if_neg hx] at h
            cases h

theorem lastIndex?_lt {name : String} {names : List String} {i : Nat}
    (h : lastIndex? name names = some i) : i < names.length :=
  (List.getElem?_eq_some_iff.mp (lastIndex?_eq_some h)).1

theorem exists_lastIndex?_of_mem {name : String} {names : List String} (h : name ∈ names) :
    ∃ i, lastIndex? name names = some i := by
  induction names with
  | nil => cases h
  | cons x xs ih =>
      rw [lastIndex?]
      cases hxs : lastIndex? name xs with
      | some i => exact ⟨i + 1, rfl⟩
      | none =>
          rcases List.mem_cons.mp h with rfl | hmem
          · exact ⟨0, if_pos rfl⟩
          · obtain ⟨i, hi⟩ := ih hmem
            rw [hi] at hxs
            cases hxs

namespace Schema

def names (s : Schema) : List String :=
  s.blocking ++ s.sequence.toList ++ s.id.toList ++ s.fields

theorem discard_find_eq_ok_iff {s : Schema} {role : ColumnRole} {name : String} :
    discard (s.find role name) = .ok () ↔ name ∈ s.columns := by
  rw [find]
  cases h : lastIndex? name s.columns with
  | some i => exact iff_of_true rfl (List.mem_of_getElem? (lastIndex?_eq_some h))
  | none =>
      refine iff_of_false nofun ?_
      intro hmem
      obtain ⟨i, hi⟩ := exists_lastIndex?_of_mem hmem
      rw [hi] at h
      cases h

theorem names_subset_of_check {s : Schema} (h : s.check = .ok ()) : s.names ⊆ s.columns := by
  rw [check] at h
  obtain ⟨⟨⟩, hblocking, h⟩ := bind_eq_ok_iff.mp h
  obtain ⟨⟨⟩, hsequence, hid⟩ := bind_eq_ok_iff.mp h
  simp only [forM_eq_ok_iff, discard_find_eq_ok_iff] at hblocking hsequence hid
  intro name hname
  rcases List.mem_append.mp hname with hname | hfield
  · rcases List.mem_append.mp hname with hname | hname
    · rcases List.mem_append.mp hname with hname | hname
      · exact hblocking name hname
      · exact hsequence name hname
    · exact hid name hname
  · exact List.mem_of_mem_filter hfield

theorem make_eq_ok {serial : Nat} {columns blocking : List String} {sequence id : Option String}
    {s : Schema} (h : make serial columns blocking sequence id = .ok s) :
    s = ⟨serial, columns, blocking, sequence, id⟩ ∧ s.names ⊆ s.columns := by
  rw [make] at h
  obtain ⟨⟨⟩, hcheck, h⟩ := bind_eq_ok_iff.mp h
  obtain rfl := Except.ok.inj h
  exact ⟨rfl, names_subset_of_check hcheck⟩

theorem fieldIndex_lt {s : Schema} {name : String} {i : Nat} (h : s.fieldIndex name = .ok i) :
    i < s.fields.length := by
  rw [fieldIndex] at h
  cases hi : lastIndex? name s.fields with
  | some k =>
      rw [hi] at h
      exact Except.ok.inj h ▸ lastIndex?_lt hi
  | none =>
      rw [hi] at h
      cases h

/-- In a row with all columns, a name stands for a value of the row. -/
theorem exists_valueAt_eq {s : Schema} (hs : s.names ⊆ s.columns) {row : List String}
    (hrow : row.length = s.columns.length) {name : String} (hname : name ∈ s.names) :
    ∃ i, lastIndex? name s.columns = some i ∧ row[i]? = some (s.valueAt row name) := by
  obtain ⟨i, hi⟩ := exists_lastIndex?_of_mem (hs hname)
  have hlt : i < row.length := hrow ▸ lastIndex?_lt hi
  refine ⟨i, hi, ?_⟩
  rw [valueAt, hi, Option.bind_some, List.getElem?_eq_getElem hlt, Option.getD_some]

end Schema

/-- A record of a row in which every name stands for a value. -/
def Record.IsOf (r : Record) (s : Schema) : Prop :=
  ∃ row sequence, r = s.recordOf row sequence ∧ ∀ name ∈ s.names,
    ∃ i, lastIndex? name s.columns = some i ∧ row[i]? = some (s.valueAt row name)

theorem Schema.isOf_recordOf {s : Schema} (hs : s.names ⊆ s.columns) {row : List String}
    (hrow : row.length = s.columns.length) (sequence : String) :
    (s.recordOf row sequence).IsOf s :=
  ⟨row, sequence, rfl, fun _ hname => exists_valueAt_eq hs hrow hname⟩

theorem Record.IsOf.schema_eq {r : Record} {s : Schema} (h : r.IsOf s) : r.schema = s := by
  obtain ⟨row, sequence, rfl, -⟩ := h
  rfl

theorem Record.IsOf.size_fields {r : Record} {s : Schema} (h : r.IsOf s) :
    r.fields.size = s.fields.length := by
  obtain ⟨row, sequence, rfl, -⟩ := h
  exact List.length_map ..

/-! ## Intakes -/

namespace Intake

variable {β δ : Type} {x : Intake β} {kept : β → Prop} {fault : Error → Prop}

/-- Whatever number comes next, an intake ends with a result of one kind or a failure of another. -/
def Yields (x : Intake β) (kept : β → Prop) (fault : Error → Prop) : Prop :=
  ∀ n, (∀ b, (x.run n).1 = .ok b → kept b) ∧ ∀ e, (x.run n).1 = .error e → fault e

theorem Yields.pure {b : β} (h : kept b) : Yields (pure b) kept fault := by
  intro n
  refine ⟨?_, nofun⟩
  intro b' hb
  obtain rfl := Except.ok.inj hb
  exact h

theorem Yields.throw {e : Error} (h : fault e) : Yields (throw e : Intake β) kept fault := by
  intro n
  refine ⟨nofun, ?_⟩
  intro e' he
  obtain rfl := Except.error.inj he
  exact h

theorem Yields.bind {f : β → Intake δ} {kept' : δ → Prop} (hx : x.Yields kept fault)
    (hf : ∀ b, kept b → (f b).Yields kept' fault) : (x >>= f).Yields kept' fault := by
  intro n
  have hxn := hx n
  rw [Action.run_bind]
  cases hrun : x.run n with
  | mk result m =>
      rw [hrun] at hxn
      cases result with
      | error e => exact ⟨nofun, fun e' he => Except.error.inj he ▸ hxn.2 e rfl⟩
      | ok b => exact hf b (hxn.1 b rfl) m

/-- Nothing need be known of a result that is passed on. -/
theorem Yields.bind_of_fault {f : β → Intake δ} {kept' : δ → Prop}
    (hx : ∀ n e, (x.run n).1 = .error e → fault e) (hf : ∀ b, (f b).Yields kept' fault) :
    (x >>= f).Yields kept' fault := by
  have hany : x.Yields (fun _ => True) fault := fun n => ⟨fun _ _ => trivial, hx n⟩
  exact hany.bind fun b _ => hf b

theorem Yields.mapM {f : δ → Intake β} {xs : List δ} (h : ∀ x ∈ xs, (f x).Yields kept fault) :
    (xs.mapM f).Yields (fun ys => ∀ y ∈ ys, kept y) fault := by
  induction xs with
  | nil => exact .pure (by simp)
  | cons x xs ih =>
      rw [List.mapM_cons]
      refine (h x List.mem_cons_self).bind fun y hy => ?_
      refine (ih fun z hz => h z (List.mem_cons_of_mem x hz)).bind fun ys hys => ?_
      refine .pure ?_
      intro z hz
      rcases List.mem_cons.mp hz with rfl | hz
      · exact hy
      · exact hys z hz

theorem Yields.mono {kept' : β → Prop} {fault' : Error → Prop} (h : x.Yields kept fault)
    (hkept : ∀ b, kept b → kept' b) (hfault : ∀ e, fault e → fault' e) : x.Yields kept' fault' :=
  fun n => ⟨fun b hb => hkept b ((h n).1 b hb), fun e he => hfault e ((h n).2 e he)⟩

theorem Yields.fromSource (h : x.Yields kept fault) (source : String) :
    (fromSource source x).Yields kept
      fun e => ∃ cause, fault cause ∧ e = .recordLoading source cause := by
  intro n
  have hrun : ((Intake.fromSource source x).run n).1 =
      (x.run n).1.mapError (Error.recordLoading source) := rfl
  have hn := h n
  rw [hrun]
  cases hresult : (x.run n).1 with
  | ok b => exact ⟨fun b' hb => hn.1 b' (hresult.trans hb), nofun⟩
  | error e =>
      refine ⟨nofun, ?_⟩
      intro e' he
      exact ⟨e, hn.2 e hresult, (Except.error.inj he).symm⟩

/-- What can be wrong with a file. -/
inductive Fault : Error → Prop
  | noFile (reason : FileFault) : Fault (.noFile reason)
  | noRows (reason : FileFault) : Fault (.noRows reason)
  | columnCount {expected actual : Nat} : actual ≠ expected → Fault (.columnCount expected actual)
  | shortLine {line given expected : Nat} : given < expected → Fault (.shortLine line given expected)
  | lineNotUtf8 : Fault .lineNotUtf8
  | valueNotUtf8 : Fault .valueNotUtf8

end Intake

open Intake (Fault)

/-! ## Rows -/

section Rows

variable {s : Schema} (hs : s.names ⊆ s.columns)
include hs

theorem Schema.record_yields (row : List String) :
    (s.record row).Yields (·.IsOf s)
      fun e => row.length ≠ s.columns.length ∧ e = .columnCount s.columns.length row.length := by
  rw [record]
  split
  case isTrue hlen =>
    split
    case h_1 => exact .pure (isOf_recordOf hs hlen _)
    case h_2 =>
      exact Intake.Yields.bind_of_fault (fun _ => nofun) fun next => .pure (isOf_recordOf hs hlen _)
  case isFalse hlen => exact .throw ⟨hlen, rfl⟩

namespace DelimitedOptions

omit hs in
theorem valueText_eq_error {bytes : Csv.Value} {e : Error} (h : valueText bytes = .error e) :
    e = .valueNotUtf8 := by
  rw [valueText] at h
  split at h
  · cases h
  · exact (Except.error.inj h).symm

theorem record_yields (o : DelimitedOptions) (row : List Csv.Value) :
    (o.record s row).Yields (·.IsOf s) Fault := by
  rw [record]
  refine Intake.Yields.bind_of_fault ?_ ?_
  · intro n e he
    obtain ⟨-, bytes, -, -, -, hbytes⟩ := Traversal.mapM_eq_error_iff.mp he
    rw [valueText_eq_error hbytes]
    exact .valueNotUtf8
  · intro values
    refine (Schema.record_yields hs _).mono (fun _ h => h) ?_
    rintro e ⟨hlen, rfl⟩
    exact .columnCount hlen

theorem records_yields {o : DelimitedOptions} {d : Csv.Dialect} (ho : o.dialect = .ok d)
    (bytes : List UInt8) : (o.records s bytes).Yields (fun rs => ∀ r ∈ rs, r.IsOf s) Fault := by
  rw [records, ho]
  exact .bind_of_fault (fun _ => nofun) fun _ => .mapM fun row _ => o.record_yields hs row

end DelimitedOptions

namespace FixedWidth

omit hs in
theorem stop_le_foldl (spans : List Span) (width : Nat) :
    width ≤ spans.foldl (fun width span => max width span.stop) width ∧
      ∀ span ∈ spans, span.stop ≤ spans.foldl (fun width span => max width span.stop) width := by
  induction spans generalizing width with
  | nil => exact ⟨Nat.le_refl _, nofun⟩
  | cons span spans ih =>
      obtain ⟨hwidth, hspans⟩ := ih (max width span.stop)
      refine ⟨Nat.le_trans (Nat.le_max_left ..) hwidth, ?_⟩
      intro other hother
      rcases List.mem_cons.mp hother with rfl | hother
      · exact Nat.le_trans (Nat.le_max_right ..) hwidth
      · exact hspans other hother

omit hs in
theorem stop_le_width {spans : List Span} {span : Span} (h : span ∈ spans) :
    span.stop ≤ width spans :=
  (stop_le_foldl spans 0).2 span h

omit hs in
theorem of_check {spans : List Span} (h : check s spans = .ok ()) :
    spans.length = s.columns.length ∧ ∀ span ∈ spans, span.start ≤ span.stop := by
  rw [check] at h
  split at h
  case isTrue => cases h
  case isFalse hlen =>
    have hlen := not_not.mp hlen
    split at h
    case h_1 => cases h
    case h_2 hnone =>
      refine ⟨hlen, ?_⟩
      intro span hspan
      rw [← List.map_snd_zip (Nat.le_of_eq hlen)] at hspan
      obtain ⟨pair, hpair, rfl⟩ := List.mem_map.mp hspan
      simpa using List.find?_eq_none.mp hnone pair hpair

omit hs in
theorem lineText_eq_error {bytes : List UInt8} {e : Error} (h : lineText bytes = .error e) :
    e = .lineNotUtf8 := by
  rw [lineText] at h
  split at h
  · exact (Except.error.inj h).symm
  · cases h

omit hs in
theorem values_yields (spans : List Span) (number : Nat) (line : List Char) :
    Intake.Yields (values spans number line : Except Error (List String))
      (fun row => row.length = spans.length) Fault := by
  rw [values]
  split
  case isTrue hshort => exact .throw (.shortLine hshort)
  case isFalse => exact .pure (List.length_map ..)

theorem lineRecords_yields {spans : List Span}
    (hspans : spans.length = s.columns.length) (line : List UInt8 × Nat) :
    (lineRecords s spans line).Yields (fun rs => ∀ r ∈ rs, r.IsOf s) Fault := by
  rw [lineRecords]
  refine Intake.Yields.bind_of_fault ?_ ?_
  · intro n e he
    rw [lineText_eq_error he]
    exact .lineNotUtf8
  · intro text
    cases text with
    | none => exact .pure nofun
    | some text =>
        refine (values_yields spans line.2 text).bind ?_
        intro row hrow
        refine Intake.Yields.bind ((Schema.record_yields hs row).mono (fun _ h => h) ?_) ?_
        · rintro e ⟨hlen, -⟩
          exact absurd (hrow.trans hspans) hlen
        · intro r hr
          refine .pure ?_
          intro r' hr'
          rw [List.mem_singleton.mp hr']
          exact hr

theorem records_yields {spans : List Span} (hspans : spans.length = s.columns.length)
    (bytes : List UInt8) : (records s spans bytes).Yields (fun rs => ∀ r ∈ rs, r.IsOf s) Fault := by
  rw [records]
  refine (Intake.Yields.mapM fun line _ => lineRecords_yields hs hspans line).bind ?_
  intro rss hrss
  refine .pure ?_
  intro r hr
  obtain ⟨rs, hrs, hr⟩ := List.mem_flatten.mp hr
  exact hrss rs hrs r hr

end FixedWidth

end Rows

/-! ## Sources -/

/-- A source whose names are columns, and whose layout can be read and has a place for each. -/
structure Source.Sound (s : Source) : Prop where
  names : s.schema.names ⊆ s.schema.columns
  dialect : ∀ options, s.layout = .delimited options → ∃ d, options.dialect = .ok d
  length_spans : ∀ spans, s.layout = .fixedWidth spans → spans.length = s.schema.columns.length
  spans : ∀ spans, s.layout = .fixedWidth spans → ∀ span ∈ spans,
    span.start ≤ span.stop ∧ span.stop ≤ FixedWidth.width spans

theorem Source.sound_of_make {path : String} {schema : Schema} {layout : Layout} {s : Source}
    (hnames : schema.names ⊆ schema.columns) (h : make path schema layout = .ok s) :
    s = ⟨path, schema, layout⟩ ∧ s.Sound := by
  obtain ⟨⟨⟩, hcheck, h⟩ := bind_eq_ok_iff.mp h
  obtain rfl := Except.ok.inj h
  refine ⟨rfl, hnames, ?_, ?_, ?_⟩
  · rintro options rfl
    change discard options.dialect = .ok () at hcheck
    cases hdialect : options.dialect with
    | error e =>
        rw [hdialect] at hcheck
        cases hcheck
    | ok d => exact ⟨d, rfl⟩
  · rintro spans rfl
    exact (FixedWidth.of_check hcheck).1
  · rintro spans rfl span hspan
    exact ⟨(FixedWidth.of_check hcheck).2 span hspan, FixedWidth.stop_le_width hspan⟩

/-- The records of a file that can be read, with the source named in a failure. -/
theorem Source.run_load (source : Source) (bytes : List UInt8) (next : Nat) :
    (source.load (.ok bytes)).run next =
      (((source.layout.records source.schema bytes).run next).1.mapError
          (Error.recordLoading source.path),
        ((source.layout.records source.schema bytes).run next).2) := rfl

theorem Side.sound_of_source {side : Side} {serial : Nat} {s : Source}
    (h : side.source serial = .ok s) : s.Sound ∧ s.schema.id = side.id := by
  obtain ⟨schema, hschema, h⟩ := bind_eq_ok_iff.mp h
  obtain ⟨rfl, hnames⟩ := Schema.make_eq_ok hschema
  obtain ⟨rfl, hsound⟩ := Source.sound_of_make hnames h
  exact ⟨hsound, rfl⟩

theorem Layout.fault_failure (layout : Layout) (reason : FileFault) :
    Fault (layout.failure reason) := by
  cases layout with
  | fixedWidth spans => exact .noFile reason
  | delimited options =>
      rw [failure]
      split
      case isTrue => exact .noRows reason
      case isFalse => exact .noFile reason

/-- What a source yields are records of its schema, or the file is at fault. -/
theorem Source.load_yields {s : Source} (hs : s.Sound) (contents : Contents) :
    (s.load contents).Yields (fun rs => ∀ r ∈ rs, r.IsOf s.schema)
      fun e => ∃ cause, Fault cause ∧ e = .recordLoading s.path cause := by
  refine Intake.Yields.fromSource ?_ s.path
  cases contents with
  | error reason => exact .throw (s.layout.fault_failure reason)
  | ok bytes =>
      cases hlayout : s.layout with
      | delimited options =>
          obtain ⟨d, hd⟩ := hs.dialect options hlayout
          exact DelimitedOptions.records_yields hs.names hd bytes
      | fixedWidth spans =>
          exact FixedWidth.records_yields hs.names (hs.length_spans spans hlayout) bytes

end Linkage
