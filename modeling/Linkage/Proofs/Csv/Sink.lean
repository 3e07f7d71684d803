import Linkage.Proofs.Csv.Rows
import Linkage.Proofs.Traversal

/-
# What is written of matches

A row goes to a device in pieces, and the pieces in blocks.  Where the blocks are cut does not
matter: whatever is written, the bytes passed on and the bytes pending are together those of before
and the new ones.  So a sink that is told of matches has written the rows of all of them, as long as
their values are found, and when it is told that there are no more, nothing is left pending.
-/

namespace Linkage

open Text (utf8)

/-! ## What goes to a device -/

namespace Output

/-- An action succeeds with some bytes more, if the device takes all blocks. -/
def Emits (action : Action Output Unit) (bytes : List UInt8) : Prop :=
  ∀ o, o.refusal = none → ∃ o', action.run o = (.ok (), o') ∧ o'.refusal = none ∧
    o'.bytes = o.bytes ++ bytes

theorem bytes_append (piece : List UInt8) (o : Output) :
    (o.append piece).bytes = o.bytes ++ piece := by
  rw [bytes, bytes, append, Array.toList_appendList, List.append_assoc]

theorem run_pass {o : Output} (ho : o.refusal = none) (failure : String → Error) :
    (pass failure).run o = (.ok (), { o with blocks := o.blocks.push o.pending, pending := #[] }) := by
  change pass failure o = _
  rw [pass, ho]

theorem bytes_passed (o : Output) :
    bytes { o with blocks := o.blocks.push o.pending, pending := #[] } = o.bytes := by
  simp [bytes]

theorem emits_put (piece : List UInt8) : Emits (put piece) piece := by
  intro o ho
  by_cases hroom : o.pending.size + piece.length ≤ blockSize
  · exact ⟨o.append piece, if_pos hroom, ho, bytes_append piece o⟩
  · refine ⟨append piece { o with blocks := o.blocks.push o.pending, pending := #[] }, ?_, ho, ?_⟩
    · refine (if_neg hroom).trans ?_
      have hpass := run_pass ho .output
      change pass .output o = _ at hpass
      rw [hpass]
    · rw [bytes_append, bytes_passed]

theorem emits_forM_put (pieces : List (List UInt8)) : Emits (pieces.forM put) pieces.flatten := by
  induction pieces with
  | nil => exact fun o ho => ⟨o, rfl, ho, (List.append_nil _).symm⟩
  | cons piece pieces ih =>
      intro o ho
      obtain ⟨o₁, hfirst, ho₁, hbytes₁⟩ := emits_put piece o ho
      obtain ⟨o₂, hrest, ho₂, hbytes₂⟩ := ih o₁ ho₁
      refine ⟨o₂, ?_, ho₂, ?_⟩
      · rw [List.forM, Action.run_bind, hfirst]
        exact hrest
      · rw [hbytes₂, hbytes₁, List.flatten_cons, List.append_assoc]

theorem run_flush {o : Output} (ho : o.refusal = none) (failure : String → Error) :
    ∃ o', (flush failure).run o = (.ok (), o') ∧ o'.pending = #[] ∧ o'.bytes = o.bytes := by
  by_cases hempty : o.pending.isEmpty
  · exact ⟨o, if_pos hempty, Array.isEmpty_iff.mp hempty, rfl⟩
  · exact ⟨_, (if_neg hempty).trans (run_pass ho failure), rfl, bytes_passed o⟩

end Output

/-! ## The rows of a writer -/

namespace Csv

theorem closing_append_singleton (row : List Value) (v : Value) :
    closing (row ++ [v]) = closing [v] := by
  rw [closing, closing, List.getLast?_append_of_ne_nil row (List.cons_ne_nil v [])]

theorem writtenValues_append_singleton {row : List Value} (hrow : row ≠ []) (v : Value) :
    writtenValues (row ++ [v]) = writtenValues row ++ comma :: writtenValue v := by
  induction row with
  | nil => exact absurd rfl hrow
  | cons w row ih =>
      cases row with
      | nil => rw [List.singleton_append, writtenValues_cons_cons, writtenValues_singleton,
          writtenValues_singleton]
      | cons x row =>
          have hrest := ih (List.cons_ne_nil x row)
          rw [List.cons_append] at hrest
          rw [List.cons_append, List.cons_append, writtenValues_cons_cons, hrest,
            writtenValues_cons_cons, List.append_assoc, List.cons_append]

/-- The pieces with which a value joins a row are what lies between the values before it and those
with it, but for the quotes that are still to close them. -/
theorem flatten_joining (row : List Value) (v : Value) : ∃ between,
    (joining row v).flatten ++ (closing (row ++ [v])).flatten = (closing row).flatten ++ between ∧
      writtenValues (row ++ [v]) = writtenValues row ++ between := by
  rw [closing_append_singleton]
  by_cases hrow : row = []
  · subst hrow
    refine ⟨writtenValue v, ?_, writtenValues_singleton v⟩
    rw [joining, if_pos rfl, List.nil_append, writtenValue, List.flatten_append]
    rfl
  · refine ⟨comma :: writtenValue v, ?_, writtenValues_append_singleton hrow v⟩
    rw [joining, if_neg hrow, writtenValue]
    simp

namespace Writer

variable {w : Writer} {rows : List (List Value)} {row : List Value}

/-- A writer whose device takes all blocks, that wrote some rows and then the values of another. -/
structure Wrote (w : Writer) (rows : List (List Value)) (row : List Value) : Prop where
  refusal : w.output.refusal = none
  width : w.width = rows.head?.map List.length
  begun : w.begun = row
  bytes : w.output.bytes ++ (closing row).flatten = rows.flatMap writtenRow ++ writtenValues row

theorem wrote_nil : Wrote {} [] [] :=
  ⟨rfl, rfl, rfl, rfl⟩

theorem run_get (w : Writer) : (get : Action Writer Writer).run w = (.ok w, w) := rfl

theorem run_put (hw : w.output.refusal = none) (pieces : List (List UInt8)) : ∃ o,
    (put pieces).run w = (.ok (), { w with output := o }) ∧ o.refusal = none ∧
      o.bytes = w.output.bytes ++ pieces.flatten := by
  obtain ⟨o, hrun, ho, hbytes⟩ := Output.emits_forM_put pieces w.output hw
  refine ⟨o, ?_, ho, hbytes⟩
  rw [put, Action.run_onPart, hrun]

theorem Wrote.run_putValue (h : w.Wrote rows row) (v : Value) :
    ∃ w', (putValue v).run w = (.ok (), w') ∧ w'.Wrote rows (row ++ [v]) := by
  obtain ⟨o, hrun, ho, hbytes⟩ := run_put h.refusal (joining row v)
  refine ⟨{ w with output := o, begun := row ++ [v] }, ?_, ho, h.width, rfl, ?_⟩
  · rw [putValue, Action.run_bind_of_ok (run_get w), h.begun, Action.run_bind_of_ok hrun, ← h.begun]
    rfl
  · obtain ⟨between, hbetween, hvalues⟩ := flatten_joining row v
    dsimp only
    rw [hbytes, List.append_assoc, hbetween, ← List.append_assoc, h.bytes, hvalues,
      List.append_assoc]

theorem Wrote.run_putValues (h : w.Wrote rows row) (vs : List Value) :
    ∃ w', (vs.forM putValue).run w = (.ok (), w') ∧ w'.Wrote rows (row ++ vs) := by
  induction vs generalizing w row with
  | nil => exact ⟨w, rfl, (List.append_nil row).symm ▸ h⟩
  | cons v vs ih =>
      obtain ⟨w₁, hrun₁, hwrote₁⟩ := h.run_putValue v
      obtain ⟨w₂, hrun₂, hwrote₂⟩ := ih hwrote₁
      refine ⟨w₂, ?_, List.append_cons row v vs ▸ hwrote₂⟩
      rw [List.forM, Action.run_bind_of_ok hrun₁, hrun₂]

theorem Wrote.width_getD (h : w.Wrote rows row) :
    w.width.getD w.begun.length = (rows.head?.map List.length).getD row.length := by
  rw [h.width, h.begun]

theorem Wrote.run_endRow (h : w.Wrote rows row)
    (hwidth : ∀ first ∈ rows.head?, row.length = first.length) :
    ∃ w', endRow.run w = (.ok (), w') ∧ w'.Wrote (rows ++ [row]) [] := by
  obtain rfl := h.begun
  have hfits : w.begun.length = w.width.getD w.begun.length := by
    rw [h.width_getD]
    cases hfirst : rows.head? with
    | none => rfl
    | some first => exact hwidth first hfirst
  have hcheck : checkWidth.run w = (.ok (), { w with width := some w.begun.length }) := by
    rw [checkWidth, Action.run_bind_of_ok (run_get w), if_pos hfits, ← hfits]
    rfl
  obtain ⟨o, hrun, ho, hbytes⟩ :=
    run_put (w := { w with width := some w.begun.length }) h.refusal (ending w.begun)
  refine ⟨{ output := o, width := some w.begun.length, begun := [] }, ?_, ho, ?_, rfl, ?_⟩
  · rw [endRow, Action.run_bind_of_ok hcheck, Action.run_bind_of_ok (run_get _),
      Action.run_bind_of_ok hrun]
    rfl
  · cases rows with
    | nil => rfl
    | cons first rows => exact congrArg some (hwidth first rfl)
  · have hwritten : o.bytes = rows.flatMap writtenRow ++ writtenRow w.begun := by
      rw [hbytes, ending, List.flatten_append, List.flatten_append, ← List.append_assoc,
        ← List.append_assoc, h.bytes, writtenRow]
      simp
    simp [hwritten, closing, writtenValues]

/-- A row of another width than the first is refused.  Its values stay, and belong to the next row. -/
theorem Wrote.run_endRow_of_ne (h : w.Wrote rows row) {first : List Value}
    (hfirst : rows.head? = some first) (hwidth : row.length ≠ first.length) :
    ∃ reason, endRow.run w = (.error (.output reason), w) := by
  have hmisfit : w.begun.length ≠ w.width.getD w.begun.length := by
    rw [h.width_getD, h.begun, hfirst]
    exact hwidth
  have hcheck : ∃ reason, checkWidth.run w = (.error (.output reason), w) := by
    rw [checkWidth, Action.run_bind_of_ok (run_get w), if_neg hmisfit]
    exact ⟨_, rfl⟩
  obtain ⟨reason, hcheck⟩ := hcheck
  exact ⟨reason, Action.run_bind_of_error hcheck _⟩

theorem Wrote.run_putRow (h : w.Wrote rows []) {row : List Value}
    (hwidth : ∀ first ∈ rows.head?, row.length = first.length) :
    ∃ w', (putRow row).run w = (.ok (), w') ∧ w'.Wrote (rows ++ [row]) [] := by
  obtain ⟨w₁, hrun₁, hwrote₁⟩ := h.run_putValues row
  obtain ⟨w₂, hrun₂, hwrote₂⟩ := hwrote₁.run_endRow hwidth
  exact ⟨w₂, by rw [putRow, Action.run_bind_of_ok hrun₁, hrun₂], hwrote₂⟩

/-- A row of another width than the first is refused, when all its values are written. -/
theorem Wrote.run_putRow_of_ne (h : w.Wrote rows []) {row first : List Value}
    (hfirst : rows.head? = some first) (hwidth : row.length ≠ first.length) :
    ∃ reason w', (putRow row).run w = (.error (.output reason), w') ∧ w'.Wrote rows row := by
  obtain ⟨w', hrun, hwrote⟩ := h.run_putValues row
  obtain ⟨reason, hrefused⟩ := hwrote.run_endRow_of_ne hfirst hwidth
  exact ⟨reason, w', by rw [putRow, Action.run_bind_of_ok hrun, hrefused], hwrote⟩

end Writer

/-! ## The rows of a sink -/

def writtenTexts (rows : List (List String)) : List UInt8 :=
  (rows.map (·.map utf8)).flatMap writtenRow

theorem length_interleave {β : Type} {as bs : List β} (h : as.length = bs.length) :
    (interleave as bs).length = 2 * as.length := by
  induction as generalizing bs with
  | nil => rfl
  | cons a as ih =>
      cases bs with
      | nil => cases h
      | cons b bs =>
          change (interleave as bs).length + 1 + 1 = _
          rw [ih (Nat.succ.inj h), List.length_cons]
          omega

end Csv

namespace CsvSink

variable {c : RecordComparator} {s : CsvSink} {rows : List (List String)}

def rowOf (c : RecordComparator) (m : Record × Record × Float) : Except Error (List String) :=
  row c m.1 m.2.1 m.2.2

theorem rowOf_eq_ok_iff {m : Record × Record × Float} {row : List String} :
    rowOf c m = .ok row ↔ ∃ as bs, c.valuesA m.1 = .ok as ∧ c.valuesB m.2.1 = .ok bs ∧
      row = Decimal.plain m.2.2 :: Csv.interleave as bs := by
  rw [rowOf, CsvSink.row]
  cases c.valuesA m.1 with
  | error e => simp [bind, Except.bind]
  | ok as =>
      cases c.valuesB m.2.1 with
      | error e => simp [bind, Except.bind]
      | ok bs =>
          change Except.ok (Decimal.plain m.2.2 :: Csv.interleave as bs) = .ok row ↔ _
          simp [eq_comm]

theorem length_header (c : RecordComparator) :
    (header c.fieldNames).length = 2 * c.bindings.length + 1 := by
  rw [header, List.length_cons, Csv.length_interleave (by simp), List.length_map,
    RecordComparator.fieldNames, List.length_map]

theorem length_of_rowOf {m : Record × Record × Float} {row : List String}
    (hrow : rowOf c m = .ok row) : row.length = 2 * c.bindings.length + 1 := by
  obtain ⟨as, bs, has, hbs, rfl⟩ := rowOf_eq_ok_iff.mp hrow
  have has := (Traversal.mapM_eq_ok_iff.mp has).length_eq
  have hbs := (Traversal.mapM_eq_ok_iff.mp hbs).length_eq
  rw [List.length_cons, Csv.length_interleave (has.symm.trans hbs), has]

/-- A sink of a comparator that wrote some rows. -/
structure Wrote (s : CsvSink) (c : RecordComparator) (rows : List (List String)) : Prop where
  comparator : s.comparator = c
  writer : s.toWriter.Wrote (rows.map (·.map utf8)) []

theorem wrote_nil (c : RecordComparator) : Wrote { comparator := c } c [] :=
  ⟨rfl, Csv.Writer.wrote_nil⟩

theorem Wrote.bytes (h : s.Wrote c rows) : s.output.bytes = Csv.writtenTexts rows := by
  have hbytes := h.writer.bytes
  rwa [Csv.closing, List.getLast?_nil, Option.any_none, if_neg Bool.false_ne_true, List.flatten_nil,
    List.append_nil, Csv.writtenValues, List.map_nil, List.intercalate_nil, List.append_nil]
    at hbytes

theorem Wrote.run_putRow (h : s.Wrote c rows) (row : List String)
    (hwidth : ∀ first ∈ rows.head?, row.length = first.length) :
    ∃ s', (putRow row).run s = (.ok (), s') ∧ s'.Wrote c (rows ++ [row]) := by
  have hbytes : ∀ first ∈ (rows.map (·.map utf8)).head?, (row.map utf8).length = first.length := by
    intro first hfirst
    rw [List.head?_map] at hfirst
    obtain ⟨texts, htexts, rfl⟩ := Option.map_eq_some_iff.mp hfirst
    rw [List.length_map, List.length_map, hwidth texts htexts]
  obtain ⟨w, hrun, hwrote⟩ := h.writer.run_putRow hbytes
  refine ⟨{ s with toWriter := w }, ?_, h.comparator, ?_⟩
  · rw [putRow, onWriter, Action.run_onPart, hrun]
  · rw [List.map_append]
    exact hwrote

theorem run_sink_accept (a b : Record) (score : Float) (s : CsvSink) :
    (sink (.accept a b score)).run s = match row s.comparator a b score with
      | .ok values => (putRow values >>= fun _ =>
          modify fun s => { s with rows := s.rows + 1 }).run s
      | .error e => (.error e, s) := by
  change ((liftM (row s.comparator a b score) : Action CsvSink (List String)) >>= fun values =>
    putRow values >>= fun _ => modify fun s => { s with rows := s.rows + 1 }).run s = _
  cases row s.comparator a b score <;> rfl

/-- The notice of a match. -/
def accepted (m : Record × Record × Float) : Notice Float :=
  .accept m.1 m.2.1 m.2.2

/-- A match whose values are found has its row written, which is as wide as the header. -/
theorem Wrote.run_accept (h : s.Wrote c (header c.fieldNames :: rows))
    {m : Record × Record × Float} {values : List String} (hrow : rowOf c m = .ok values) : ∃ s',
      (sink (accepted m)).run s = (.ok (), s') ∧
        s'.Wrote c (header c.fieldNames :: (rows ++ [values])) := by
  have hwidth : ∀ first ∈ (header c.fieldNames :: rows).head?, values.length = first.length := by
    intro first hfirst
    obtain rfl := Option.some.inj hfirst
    rw [length_of_rowOf hrow, length_header]
  obtain ⟨s', hrun, hwrote⟩ := h.run_putRow values hwidth
  refine ⟨{ s' with rows := s'.rows + 1 }, ?_, hwrote.comparator, hwrote.writer⟩
  rw [accepted, run_sink_accept, h.comparator, ← rowOf, hrow]
  dsimp only
  rw [Action.run_bind_of_ok hrun]
  rfl

theorem Wrote.run_accepts (h : s.Wrote c (header c.fieldNames :: rows))
    (found : List (Record × Record × Float)) :
    (∀ values, found.mapM (rowOf c) = .ok values → ∃ s',
      ((found.map accepted).forM sink).run s = (.ok (), s') ∧
        s'.Wrote c (header c.fieldNames :: (rows ++ values))) ∧
    ∀ e, found.mapM (rowOf c) = .error e → ∃ s',
      ((found.map accepted).forM sink).run s = (.error e, s') := by
  induction found generalizing s rows with
  | nil =>
      constructor
      · intro values hvalues
        obtain rfl := Except.ok.inj hvalues
        exact ⟨s, rfl, (List.append_nil rows).symm ▸ h⟩
      · intro e he
        cases he
  | cons m found ih =>
      rw [List.map_cons, List.forM, Action.run_bind]
      cases hrow : rowOf c m with
      | error e =>
          rw [accepted, run_sink_accept, h.comparator, ← rowOf, hrow, Traversal.mapM_cons_error hrow]
          constructor
          · intro values hvalues
            cases hvalues
          · intro e' he
            obtain rfl := Except.error.inj he
            exact ⟨s, rfl⟩
      | ok values =>
          obtain ⟨s₁, hrun, hwrote⟩ := h.run_accept hrow
          obtain ⟨hok, herror⟩ := ih hwrote
          rw [hrun]
          constructor
          · intro all hall
            cases Traversal.mapM_eq_ok_iff.mp hall with
            | cons hfirst hrest =>
                obtain rfl := Except.ok.inj (hrow.symm.trans hfirst)
                obtain ⟨s', hrun', hwrote'⟩ := hok _ (Traversal.mapM_eq_ok_iff.mpr hrest)
                rw [← List.append_cons] at hwrote'
                exact ⟨s', hrun', hwrote'⟩
          · intro e he
            exact herror e ((Traversal.mapM_cons_eq_error_iff hrow).mp he)

/-- What a sink is told of some matches of a comparator. -/
def told (c : RecordComparator) (found : List (Record × Record × Float)) : List (Notice Float) :=
  .start c.fieldNames :: found.map accepted ++ [.finish]

/-- All that a sink writes is on its device in the end: a row for the header, and one for every
match. -/
theorem run_told (c : RecordComparator) (found : List (Record × Record × Float)) :
    (∀ values, found.mapM (rowOf c) = .ok values → ∃ s,
      ((told c found).forM sink).run { comparator := c } = (.ok (), s) ∧
        s.output.pending = #[] ∧
        s.output.bytes = Csv.writtenTexts (header c.fieldNames :: values)) ∧
    ∀ e, found.mapM (rowOf c) = .error e → ∃ s,
      ((told c found).forM sink).run { comparator := c } = (.error e, s) := by
  obtain ⟨s₁, hheader, hwrote₁⟩ := (wrote_nil c).run_putRow (header c.fieldNames) nofun
  have hstart : (sink (.start c.fieldNames : Notice Float)).run { comparator := c } = (.ok (), s₁) :=
    hheader
  have happend : (found.map accepted ++ [Notice.finish]).forM sink =
      (found.map accepted).forM sink >>= fun _ => [Notice.finish].forM sink := List.forM_append
  obtain ⟨hok, herror⟩ := hwrote₁.run_accepts found
  rw [told, List.cons_append, List.forM, Action.run_bind_of_ok hstart, happend]
  constructor
  · intro values hvalues
    obtain ⟨s₂, hrun, hwrote₂⟩ := hok values hvalues
    obtain ⟨o, hflush, hpending, hbytes⟩ := Output.run_flush hwrote₂.writer.refusal .io
    refine ⟨{ s₂ with output := o }, ?_, hpending, hbytes.trans hwrote₂.bytes⟩
    have hfinish : (sink (.finish : Notice Float)).run s₂ = (.ok (), { s₂ with output := o }) := by
      change (onWriter (.onPart Csv.Writer.output _ (Output.flush .io))).run s₂ = _
      rw [onWriter, Action.run_onPart, Action.run_onPart, hflush]
    rw [Action.run_bind_of_ok hrun, List.forM, Action.run_bind_of_ok hfinish]
    rfl
  · intro e he
    obtain ⟨s₂, hrun⟩ := herror e he
    exact ⟨s₂, Action.run_bind_of_error hrun _⟩

end CsvSink

end Linkage
