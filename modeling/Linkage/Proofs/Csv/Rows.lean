import Linkage.Csv.Sink

/-
# Rows that are read back

A value is written in quotes if one of its bytes would be taken for something else, and in quotes
only a quote is, which is doubled.  So wherever a value begins, reading what is written of it leaves
just its bytes, and the reader stands at a place where a comma ends the value and a line feed ends the
row.  It does not matter there whether the value is empty or was quoted.

A row of one empty value would be no bytes, and is two quotes instead.  At the beginning of a row
more bytes have a meaning: an empty line is no row, and a comment is none either.  Neither is mistaken
for a row whose first value is not empty and does not begin with the comment byte, because this value
is quoted if it has the end of a line in it.
-/

namespace Linkage.Csv

/-- The bytes of a value as it is written. -/
def writtenValue (v : Value) : List UInt8 :=
  (opened v ++ closing [v]).flatten

def writtenValues (row : List Value) : List UInt8 :=
  [comma].intercalate (row.map writtenValue)

def writtenRow (row : List Value) : List UInt8 :=
  writtenValues row ++ (marking row).flatten ++ [lineFeed]

theorem writtenValue_of_needsQuotes {v : Value} (h : needsQuotes v = true) :
    writtenValue v = quote :: (v.flatMap inQuotes ++ [quote]) := by
  have hclosing : closing [v] = [[quote]] := if_pos h
  rw [writtenValue, opened, if_pos h, hclosing, List.cons_append, List.flatten_cons,
    List.flatten_append, ← List.flatMap_def]
  rfl

theorem writtenValue_of_plain {v : Value} (h : needsQuotes v = false) : writtenValue v = v := by
  have hclosing : closing [v] = [] := if_neg (Bool.not_eq_true _ ▸ h)
  rw [writtenValue, opened, h, if_neg Bool.false_ne_true, hclosing, List.append_nil,
    ← List.flatMap_def, List.flatMap_singleton']

theorem writtenValues_singleton (v : Value) : writtenValues [v] = writtenValue v :=
  List.intercalate_singleton

theorem writtenValues_cons_cons (v w : Value) (vs : List Value) :
    writtenValues (v :: w :: vs) = writtenValue v ++ comma :: writtenValues (w :: vs) := by
  rw [writtenValues, List.map_cons, List.map_cons, List.intercalate_cons_cons, List.append_assoc]
  rfl

/-- Two quotes are all that is written of a row of one empty value. -/
theorem writtenRow_empty : writtenRow [[]] = [quote, quote, lineFeed] := rfl

theorem writtenRow_of_ne {v : Value} {vs : List Value} (h : v :: vs ≠ [[]]) :
    writtenRow (v :: vs) = writtenValues (v :: vs) ++ [lineFeed] := by
  have hmarking : marking (v :: vs) = [] := if_neg (not_or_intro (List.cons_ne_nil v vs) h)
  rw [writtenRow, hmarking, List.flatten_nil, List.append_nil]

/-- What is written of a row begins with what is written of its first value. -/
theorem exists_writtenRow_eq (v : Value) (vs : List Value) :
    ∃ rest, writtenRow (v :: vs) = writtenValue v ++ rest := by
  cases vs with
  | nil => exact ⟨_, by rw [writtenRow, writtenValues_singleton, List.append_assoc]⟩
  | cons w vs =>
      exact ⟨_, by rw [writtenRow, writtenValues_cons_cons, List.append_assoc, List.append_assoc]⟩

theorem needsQuotes_cons (b : UInt8) (v : Value) : needsQuotes (b :: v) = false ↔
    (b ≠ comma ∧ b ≠ quote ∧ Reader.endsLine b = false) ∧ needsQuotes v = false := by
  simp [needsQuotes, and_assoc]

namespace Reader

variable {d : Dialect} {row : List Value} {rows : List (List Value)}

/-! ## Reading a value -/

theorem foldl_plain (hd : d.delimiter = comma) {v : Value} (hv : needsQuotes v = false)
    {place : Place} (hplace : place = .startOfValue ∨ place = .inValue) (value : List UInt8) :
    v.foldl (step d) ⟨place, value, row, rows⟩ =
      ⟨if v = [] then place else .inValue, v.reverse ++ value, row, rows⟩ := by
  induction v generalizing place value with
  | nil => rfl
  | cons b v ih =>
      obtain ⟨⟨hcomma, hquote, hline⟩, hv⟩ := (needsQuotes_cons b v).mp hv
      have hplain : stepPlain d ⟨place, value, row, rows⟩ b = ⟨.inValue, b :: value, row, rows⟩ := by
        rw [stepPlain, if_neg (hd ▸ hcomma), if_neg (Bool.not_eq_true _ ▸ hline)]
        rfl
      have hstep : step d ⟨place, value, row, rows⟩ b = ⟨.inValue, b :: value, row, rows⟩ := by
        rcases hplace with rfl | rfl
        · exact (if_neg hquote).trans hplain
        · exact hplain
      rw [List.foldl_cons, hstep, ih hv (.inr rfl), ite_self, List.reverse_cons, List.append_assoc]
      rfl

/-- In quotes all bytes are kept, and of a doubled quote one. -/
theorem foldl_inQuotes (v value : List UInt8) :
    (v.flatMap inQuotes).foldl (step d) ⟨.inQuotes, value, row, rows⟩ =
      ⟨.inQuotes, v.reverse ++ value, row, rows⟩ := by
  induction v generalizing value with
  | nil => rfl
  | cons b v ih =>
      have hbyte : (inQuotes b).foldl (step d) ⟨.inQuotes, value, row, rows⟩ =
          ⟨.inQuotes, b :: value, row, rows⟩ := by
        by_cases hb : b = quote
        · subst hb
          rfl
        · rw [inQuotes, if_neg hb]
          exact if_neg hb
      rw [List.flatMap_cons, List.foldl_append, hbyte, ih, List.reverse_cons, List.append_assoc]
      rfl

/-- A place behind a value. -/
inductive Behind : Place → Prop
  | startOfValue : Behind .startOfValue
  | inValue : Behind .inValue
  | afterQuote : Behind .afterQuote

theorem foldl_writtenValue (hd : d.delimiter = comma) (v : Value) (row : List Value)
    (rows : List (List Value)) : ∃ place, Behind place ∧
    (writtenValue v).foldl (step d) ⟨.startOfValue, [], row, rows⟩ =
      ⟨place, v.reverse, row, rows⟩ := by
  cases hv : needsQuotes v with
  | false =>
      rw [writtenValue_of_plain hv, foldl_plain hd hv (.inl rfl), List.append_nil]
      refine ⟨_, ?_, rfl⟩
      split
      · exact .startOfValue
      · exact .inValue
  | true =>
      have hopen : step d ⟨.startOfValue, [], row, rows⟩ quote = ⟨.inQuotes, [], row, rows⟩ := rfl
      rw [writtenValue_of_needsQuotes hv, List.foldl_cons, hopen, List.foldl_append, foldl_inQuotes,
        List.append_nil]
      exact ⟨_, .afterQuote, rfl⟩

theorem step_comma (hd : d.delimiter = comma) {place : Place} (h : Behind place) (v : Value) :
    step d ⟨place, v.reverse, row, rows⟩ comma = ⟨.startOfValue, [], v :: row, rows⟩ := by
  have hplain : ∀ r, stepPlain d r comma = r.endValue := fun _ => if_pos hd.symm
  have hend : endValue ⟨place, v.reverse, row, rows⟩ = ⟨.startOfValue, [], v :: row, rows⟩ := by
    rw [endValue, List.reverse_reverse]
  cases h <;> exact (hplain _).trans hend

theorem step_lineFeed (hd : d.delimiter = comma) {place : Place} (h : Behind place) (v : Value) :
    step d ⟨place, v.reverse, row, rows⟩ lineFeed =
      ⟨.startOfRow, [], [], (v :: row).reverse :: rows⟩ := by
  have hplain : ∀ r, stepPlain d r lineFeed = r.endRow := by
    intro r
    have hne : lineFeed ≠ d.delimiter := hd ▸ by decide
    rw [stepPlain, if_neg hne]
    rfl
  have hend : endRow ⟨place, v.reverse, row, rows⟩ =
      ⟨.startOfRow, [], [], (v :: row).reverse :: rows⟩ := by
    rw [endRow, List.reverse_reverse]
  cases h <;> exact (hplain _).trans hend

/-! ## Reading a row -/

/-- The reader takes values from what is written of them, and stands behind the last.  The values in
`row` were read before. -/
theorem foldl_writtenValues (hd : d.delimiter = comma) (v : Value) (vs row : List Value)
    (rows : List (List Value)) : ∃ place last before, Behind place ∧
    (last :: before).reverse = row.reverse ++ v :: vs ∧
    (writtenValues (v :: vs)).foldl (step d) ⟨.startOfValue, [], row, rows⟩ =
      ⟨place, last.reverse, before, rows⟩ := by
  induction vs generalizing v row with
  | nil =>
      obtain ⟨place, hplace, hvalue⟩ := foldl_writtenValue hd v row rows
      exact ⟨place, v, row, hplace, List.reverse_cons, writtenValues_singleton v ▸ hvalue⟩
  | cons w vs ih =>
      obtain ⟨place, hplace, hvalue⟩ := foldl_writtenValue hd v row rows
      obtain ⟨place', last, before, hplace', hread, hvalues⟩ := ih w (v :: row)
      refine ⟨place', last, before, hplace', ?_, ?_⟩
      · rw [hread, List.reverse_cons, List.append_assoc]
        rfl
      · rw [writtenValues_cons_cons, List.foldl_append, hvalue, List.foldl_cons,
          step_comma hd hplace, hvalues]

/-- Where the first value of a row is expected, the reader takes the row from what is written of
it. -/
theorem foldl_writtenRow (hd : d.delimiter = comma) (v : Value) (vs : List Value)
    (rows : List (List Value)) :
    (writtenRow (v :: vs)).foldl (step d) ⟨.startOfValue, [], [], rows⟩ =
      ⟨.startOfRow, [], [], (v :: vs) :: rows⟩ := by
  by_cases hempty : v :: vs = [[]]
  · -- The two quotes are read as a value, which is empty.
    obtain ⟨rfl, rfl⟩ := List.cons.inj hempty
    have hquotes : [quote, quote].foldl (step d) ⟨.startOfValue, [], [], rows⟩ =
        ⟨.afterQuote, [], [], rows⟩ := rfl
    have hsplit : writtenRow [[]] = [quote, quote] ++ [lineFeed] := writtenRow_empty
    rw [hsplit, List.foldl_append, hquotes]
    exact step_lineFeed hd .afterQuote []
  · obtain ⟨place, last, before, hplace, hread, hvalues⟩ := foldl_writtenValues hd v vs [] rows
    rw [writtenRow_of_ne hempty, List.foldl_append, hvalues, List.foldl_cons,
      step_lineFeed hd hplace, hread]
    rfl

/-- A row that is seen from its first byte: it is no empty line and no comment. -/
def Shows (d : Dialect) (row : List Value) : Prop :=
  ∃ v vs, row = v :: vs ∧ ∃ b bytes, writtenRow row = b :: bytes ∧ endsLine b = false ∧
    d.comment ≠ some b

theorem shows_of_first {b : UInt8} {v : Value} {vs : List Value} (hquote : d.comment ≠ some quote)
    (hb : d.comment ≠ some b) : Shows d ((b :: v) :: vs) := by
  obtain ⟨rest, hrest⟩ := exists_writtenRow_eq (b :: v) vs
  refine ⟨b :: v, vs, rfl, ?_⟩
  cases hv : needsQuotes (b :: v) with
  | true =>
      rw [hrest, writtenValue_of_needsQuotes hv]
      exact ⟨quote, _, rfl, rfl, hquote⟩
  | false =>
      rw [hrest, writtenValue_of_plain hv]
      exact ⟨b, _, rfl, ((needsQuotes_cons b v).mp hv).1.2.2, hb⟩

theorem foldl_of_shows (hd : d.delimiter = comma) {written : List Value} (h : Shows d written) :
    (writtenRow written).foldl (step d) ⟨.startOfRow, [], [], rows⟩ =
      ⟨.startOfRow, [], [], written :: rows⟩ := by
  obtain ⟨v, vs, rfl, b, bytes, hbytes, hline, hcomment⟩ := h
  -- Such a byte is read as if the row had begun before.
  have hstep : step d ⟨.startOfRow, [], [], rows⟩ b = step d ⟨.startOfValue, [], [], rows⟩ b := by
    have hrow : stepRow d ⟨.startOfRow, [], [], rows⟩ b =
        stepValue d ⟨.startOfRow, [], [], rows⟩ b := by
      rw [stepRow, if_neg (Bool.not_eq_true _ ▸ hline), if_neg hcomment]
    exact hrow.trans rfl
  have hread := foldl_writtenRow hd v vs rows
  rw [hbytes, List.foldl_cons] at hread ⊢
  exact (congrArg (bytes.foldl (step d)) hstep).trans hread

end Reader

/-! ## Reading a text -/

theorem dropMark_of_first {b : UInt8} {bytes : List UInt8} (hb : b ≠ 0xEF) :
    dropMark (b :: bytes) = b :: bytes := by
  have hmark : byteOrderMark.isPrefixOf (b :: bytes) = false := by
    rw [byteOrderMark, List.isPrefixOf, beq_eq_false_iff_ne.mpr hb.symm, Bool.false_and]
  rw [dropMark, hmark, if_neg Bool.false_ne_true]

/-- Rows that are seen from their first bytes are read back as they are written. -/
theorem rows_written {d : Dialect} {written : List (List Value)} (hd : d.delimiter = comma)
    (hwritten : ∀ row ∈ written, Reader.Shows d row)
    (hmark : dropMark (written.flatMap writtenRow) = written.flatMap writtenRow) :
    rows d (written.flatMap writtenRow) = written := by
  have hread : ∀ before, (written.flatMap writtenRow).foldl (Reader.step d)
      ⟨.startOfRow, [], [], before⟩ = ⟨.startOfRow, [], [], written.reverse ++ before⟩ := by
    clear hmark
    induction written with
    | nil => exact fun _ => rfl
    | cons row written ih =>
        intro before
        rw [List.flatMap_cons, List.foldl_append,
          Reader.foldl_of_shows hd (hwritten row List.mem_cons_self),
          ih fun other hother => hwritten other (List.mem_cons_of_mem _ hother),
          List.reverse_cons, List.append_assoc]
        rfl
  rw [rows, hmark, hread [], List.append_nil]
  exact List.reverse_reverse written

end Linkage.Csv
