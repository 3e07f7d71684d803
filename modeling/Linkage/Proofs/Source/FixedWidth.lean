import Linkage.Proofs.Columns
import Linkage.Proofs.Text.Utf8
import Mathlib.Data.List.TakeWhile

/-
# What is cut out of a line

The lines of a text are the parts between its line feeds, also where the file is read byte by byte:
no other character has the byte of a line feed.  What counts of a line is what is left before the
carriage returns at its end; a line of which nothing is left is passed over, but its number is not
given to another.

A column is a part of a line by its characters, and it is cut out by bytes.  The places of the
characters among the bytes are listed beforehand, with the end of the line as one place more.  So the
guarded cuts below look up two places of this list and take the bytes between them; they have no
result if there is no such place, if the second one is before the first or behind the line, or if
either is within a character.  A line that is long enough has both places of every column, and then
the guards let the cut through: it gives the bytes of just these characters.
-/

namespace Linkage

open Text (encode utf8 isBoundary)

namespace Text

/-- The bytes of a text are split at a line feed where its characters are. -/
theorem splitOn_encode (cs : List Char) :
    (encode cs).splitOn 10 = (cs.splitOn '\n').map encode := by
  -- Bytes that are no line feeds stay together.
  have hjoin : ∀ bs rest : List UInt8, (∀ b ∈ bs, b ≠ 10) →
      (bs ++ rest).splitOn 10 = (rest.splitOn 10).modifyHead (bs ++ ·) := by
    intro bs rest hbs
    induction bs with
    | nil =>
        rw [List.nil_append]
        cases rest.splitOn 10 <;> rfl
    | cons b bs ih =>
        rw [List.cons_append, List.splitOn_cons_eq_if_modifyHead,
          if_neg (by simpa using hbs b List.mem_cons_self),
          ih fun x hx => hbs x (List.mem_cons_of_mem _ hx), List.modifyHead_modifyHead]
        rfl
  induction cs with
  | nil => rfl
  | cons c cs ih =>
      rw [List.splitOn_cons_eq_if_modifyHead, encode_cons]
      by_cases hc : c = '\n'
      · subst hc
        have hfeed : String.utf8EncodeChar '\n' = [10] := by decide
        rw [hfeed, List.singleton_append, List.splitOn_cons_eq_if_modifyHead, ih]
        rfl
      · have hbytes : ∀ b ∈ String.utf8EncodeChar c, b ≠ 10 := by
          rintro b hb rfl
          exact hc (eq_of_mem_utf8EncodeChar (d := '\n') (by decide) hb)
        rw [hjoin _ _ hbytes, ih, if_neg (by simpa using hc)]
        cases cs.splitOn '\n' <;> rfl

end Text

namespace FixedWidth

/-! ## Lines -/

/-- Between its line feeds, a text has its lines and what is behind them, which is empty. -/
theorem exists_splitOn_eq_lines_append (bytes : List UInt8) :
    ∃ rest, bytes.splitOn 10 = lines bytes ++ rest ∧ ∀ line ∈ rest, line = [] := by
  induction bytes with
  | nil => exact ⟨[[]], rfl, by simp⟩
  | cons b bytes ih =>
      obtain ⟨rest, hsplit, hrest⟩ := ih
      have hlines : lines (b :: bytes) = addByte b (lines bytes) := rfl
      rw [List.splitOn_cons_eq_if_modifyHead, hsplit, hlines]
      unfold addByte
      by_cases hb : b = 10
      · rw [if_pos (beq_iff_eq.mpr hb), if_pos hb]
        exact ⟨rest, rfl, hrest⟩
      · rw [if_neg (by simpa using hb), if_neg hb]
        cases hlines : lines bytes with
        | cons line more => exact ⟨rest, rfl, hrest⟩
        | nil =>
            rw [hlines, List.nil_append] at hsplit
            cases rest with
            | nil => exact absurd hsplit (List.splitOn_ne_nil _ _)
            | cons line rest =>
                obtain rfl := hrest line List.mem_cons_self
                exact ⟨rest, rfl, fun line hline => hrest line (List.mem_cons_of_mem _ hline)⟩

theorem exists_eq_stripReturns_append (line : List Char) :
    ∃ n, line = stripReturns line ++ List.replicate n '\r' ∧
      (stripReturns line).getLast? ≠ some '\r' := by
  refine ⟨(line.reverse.takeWhile (· = '\r')).length, ?_, ?_⟩
  · have hreturns : line.reverse.takeWhile (· = '\r') =
        List.replicate (line.reverse.takeWhile (· = '\r')).length '\r' :=
      List.eq_replicate_length.mpr fun ch hch => by simpa using List.mem_takeWhile_imp hch
    have hreverse := congrArg List.reverse
      (List.takeWhile_append_dropWhile (p := (· = '\r')) (l := line.reverse))
    rw [List.reverse_reverse, List.reverse_append] at hreverse
    rw [stripReturns, ← List.reverse_replicate, ← hreturns, hreverse]
  · rw [stripReturns, List.getLast?_reverse]
    intro hhead
    have hnot := List.head?_dropWhile_not (· = '\r') line.reverse
    rw [hhead] at hnot
    simp at hnot

/-- What is left of the lines of a text, with the numbers of the lines. -/
def held (text : String) : List (List Char × Nat) :=
  (((text.toList.splitOn '\n').map stripReturns).zipIdx 1).filter fun line => !line.1.isEmpty

/-- The record of what is left of a line. -/
def heldRecord (s : Schema) (spans : List Span) (line : List Char × Nat) : Intake Record := do
  s.record (← (values spans line.2 line.1 : Except Error (List String)))

theorem lineText_encode (line : List Char) : lineText (encode line) =
    .ok (if (stripReturns line).isEmpty then none else some (stripReturns line)) := by
  rw [lineText, Text.ofUtf8?_encode]
  dsimp only
  rw [String.toList_ofList]

theorem lineRecords_encode (s : Schema) (spans : List Span) (line : List Char × Nat) :
    lineRecords s spans (encode line.1, line.2) =
      if (stripReturns line.1).isEmpty then pure []
      else return [← heldRecord s spans (stripReturns line.1, line.2)] := by
  rw [lineRecords, lineText_encode, heldRecord]
  cases (stripReturns line.1).isEmpty with
  | true => rfl
  | false =>
      rw [if_neg Bool.false_ne_true, bind_assoc]
      rfl

theorem mapM_lineRecords (s : Schema) (spans : List Span) (numbered : List (List Char × Nat)) :
    (do return (← (numbered.map fun line => (encode line.1, line.2)).mapM
      (lineRecords s spans)).flatten : Intake (List Record)) =
    ((numbered.map fun line => (stripReturns line.1, line.2)).filter
      fun line => !line.1.isEmpty).mapM (heldRecord s spans) := by
  induction numbered with
  | nil => rfl
  | cons line numbered ih =>
      rw [List.map_cons, List.map_cons, List.mapM_cons, lineRecords_encode, List.filter_cons]
      cases (stripReturns line.1).isEmpty with
      | true => simpa using ih
      | false =>
          have hkept : (!false) = true := rfl
          rw [if_neg Bool.false_ne_true, if_pos hkept, List.mapM_cons, ← ih]
          simp

/-- What is left of the lines of a text is left of its parts between line feeds, and nothing is left
of what is behind the last one. -/
theorem exists_lines_utf8_eq (text : String) : ∃ ended : List (List Char),
    lines (utf8 text) = ended.map encode ∧
      held text = ((ended.zipIdx 1).map fun line => (stripReturns line.1, line.2)).filter
        fun line => !line.1.isEmpty := by
  obtain ⟨rest, hsplit, hrest⟩ := exists_splitOn_eq_lines_append (utf8 text)
  rw [Text.utf8_eq_encode, Text.splitOn_encode, List.map_eq_append_iff] at hsplit
  obtain ⟨ended, others, hsplit, hended, hothers⟩ := hsplit
  refine ⟨ended, ?_, ?_⟩
  · rw [hended, Text.utf8_eq_encode]
  · have hnothing : ((others.map stripReturns).zipIdx (1 + (ended.map stripReturns).length)).filter
        (fun line => !line.1.isEmpty) = [] := by
      refine List.filter_eq_nil_iff.mpr ?_
      intro line hline
      obtain ⟨other, hother, hstrip⟩ := List.mem_map.mp (List.fst_mem_of_mem_zipIdx hline)
      obtain rfl : other = [] :=
        Text.encode_eq_nil_iff.mp (hrest _ (hothers ▸ List.mem_map_of_mem hother))
      simp [← hstrip, stripReturns]
    rw [held, hsplit, List.map_append, List.zipIdx_append, List.filter_append, hnothing,
      List.append_nil, List.zipIdx_map]
    rfl

/-- A text has a record for each of its lines of which something is left. -/
theorem records_utf8 (s : Schema) (spans : List Span) (text : String) :
    records s spans (utf8 text) = (held text).mapM (heldRecord s spans) := by
  obtain ⟨ended, hlines, hheld⟩ := exists_lines_utf8_eq text
  rw [records, hlines, hheld, List.zipIdx_map]
  exact mapM_lineRecords s spans (ended.zipIdx 1)

end FixedWidth

/-! ## Columns -/

/-- A value has the characters of a line that stand in a span. -/
def Span.Covers (span : Span) (line : List Char) (value : String) : Prop :=
  ∃ before after, line = before ++ value.toList ++ after ∧ before.length = span.start ∧
    (before ++ value.toList).length = span.stop

theorem Span.covers_cut {span : Span} {line : List Char} (hspan : span.start ≤ span.stop)
    (hstop : span.stop ≤ line.length) : span.Covers line (span.cut line) := by
  refine ⟨line.take span.start, line.drop span.stop, ?_, ?_, ?_⟩
  · have hrest : line.drop span.stop = (line.drop span.start).drop (span.stop - span.start) := by
      rw [List.drop_drop, Nat.add_sub_of_le hspan]
    rw [cut, String.toList_ofList, List.append_assoc, hrest, List.take_append_drop,
      List.take_append_drop]
  · exact List.length_take_of_le (Nat.le_trans hspan hstop)
  · rw [cut, String.toList_ofList, List.length_append, List.length_take, List.length_take,
      List.length_drop]
    omega

namespace FixedWidth

variable {s : Schema} {spans : List Span}

/-- The width is what every span needs, and no more. -/
theorem width_le_iff {n : Nat} : width spans ≤ n ↔ ∀ span ∈ spans, span.stop ≤ n := by
  constructor
  · intro h span hspan
    exact Nat.le_trans (stop_le_width hspan) h
  · intro h
    have hfold : ∀ (others : List Span) (width : Nat), width ≤ n →
        (∀ span ∈ others, span.stop ≤ n) →
        others.foldl (fun width span => max width span.stop) width ≤ n := by
      intro others
      induction others with
      | nil => exact fun _ hwidth _ => hwidth
      | cons span others ih =>
          intro width hwidth hothers
          exact ih _ (Nat.max_le.mpr ⟨hwidth, hothers span List.mem_cons_self⟩)
            fun other hother => hothers other (List.mem_cons_of_mem _ hother)
    exact hfold spans 0 (Nat.zero_le n) h

def rowOf (spans : List Span) (line : List Char × Nat) : List String :=
  spans.map fun span => span.cut line.1

theorem covers_rowOf (hspans : ∀ span ∈ spans, span.start ≤ span.stop) {line : List Char × Nat}
    (hwide : width spans ≤ line.1.length) :
    List.Forall₂ (fun span value => span.Covers line.1 value) spans (rowOf spans line) := by
  rw [rowOf, List.forall₂_map_right_iff, List.forall₂_same]
  exact fun span hspan => Span.covers_cut (hspans span hspan) (width_le_iff.mp hwide span hspan)

theorem heldRecord_of_wide {line : List Char × Nat} (hwide : width spans ≤ line.1.length) :
    heldRecord s spans line = s.record (rowOf spans line) := by
  rw [heldRecord, values, if_neg (Nat.not_lt.mpr hwide)]
  rfl

theorem mapM_heldRecord_of_wide {held : List (List Char × Nat)}
    (hwide : ∀ line ∈ held, width spans ≤ line.1.length) :
    held.mapM (heldRecord s spans) = s.records (held.map (rowOf spans)) := by
  rw [Schema.records]
  induction held with
  | nil => rfl
  | cons line held ih =>
      rw [List.map_cons, List.mapM_cons, List.mapM_cons,
        heldRecord_of_wide (hwide line List.mem_cons_self),
        ih fun other hother => hwide other (List.mem_cons_of_mem _ hother)]

theorem run_heldRecord_of_short {line : List Char × Nat} (hshort : line.1.length < width spans)
    (next : Nat) : (heldRecord s spans line).run next =
      (.error (.shortLine line.2 line.1.length (width spans)), next) := by
  rw [heldRecord, values, if_pos hshort]
  rfl

theorem run_mapM_heldRecord {held : List (List Char × Nat)} (hs : s.names ⊆ s.columns)
    (hspans : spans.length = s.columns.length)
    (hwide : ∀ line ∈ held, width spans ≤ line.1.length) (next : Nat) :
    ∃ records, (held.mapM (heldRecord s spans)).run next =
        (.ok records, if s.sequence = none then next + held.length else next) ∧
      List.Forall₂ (fun (row : List String × Nat) r => r.TakenFrom s row.1 row.2)
        ((held.map (rowOf spans)).zipIdx next) records := by
  have hrows : ∀ row ∈ held.map (rowOf spans), row.length = s.columns.length := by
    intro row hrow
    obtain ⟨line, -, rfl⟩ := List.mem_map.mp hrow
    rw [rowOf, List.length_map, hspans]
  obtain ⟨records, hrun, htaken⟩ := Schema.run_records hs hrows next
  rw [List.length_map] at hrun
  exact ⟨records, (mapM_heldRecord_of_wide hwide).symm ▸ hrun, htaken⟩

theorem run_mapM_heldRecord_of_short {before after : List (List Char × Nat)}
    {line : List Char × Nat} (hs : s.names ⊆ s.columns) (hspans : spans.length = s.columns.length)
    (hwide : ∀ line ∈ before, width spans ≤ line.1.length) (hshort : line.1.length < width spans)
    (next : Nat) : ((before ++ line :: after).mapM (heldRecord s spans)).run next =
      (.error (.shortLine line.2 line.1.length (width spans)),
        if s.sequence = none then next + before.length else next) := by
  obtain ⟨records, hrun, -⟩ := run_mapM_heldRecord hs hspans hwide next
  rw [List.mapM_append, List.mapM_cons, Action.run_bind, hrun]
  dsimp only
  rw [Action.run_bind, Action.run_bind, run_heldRecord_of_short hshort]

/-! ## Places in the bytes of a line -/

namespace Guarded

/-- What a cut comes up against. -/
inductive Fault where
  /-- A character that has no place in the list. -/
  | place
  /-- A part that ends before it starts. -/
  | reversed
  /-- A part that ends behind the line. -/
  | outside
  /-- A part that starts or ends within a character. -/
  | inside
  deriving DecidableEq, Repr

/-- The places of the characters in the bytes of a line, from `i` on, and the end of the line. -/
def placesFrom : Nat → List Char → List Nat
  | i, [] => [i]
  | i, c :: cs => i :: placesFrom (i + c.utf8Size) cs

/-- The place of the character with a number. -/
def placeOf (places : List Nat) (k : Nat) : Except Fault Nat :=
  match places[k]? with
  | some i => .ok i
  | none => .error .place

def between (bytes : List UInt8) (start stop : Nat) : Except Fault (List UInt8) :=
  if stop < start then .error .reversed
  else if bytes.length < stop then .error .outside
  else if isBoundary bytes start && isBoundary bytes stop then
    .ok ((bytes.drop start).take (stop - start))
  else .error .inside

/-- How many characters a list has the places of. -/
def count : List Nat → Except Fault Nat
  | [] => .error .place
  | _ :: places => .ok places.length

def cut (bytes : List UInt8) (places : List Nat) (span : Span) : Except Fault (List UInt8) := do
  between bytes (← placeOf places span.start) (← placeOf places span.stop)

def values (spans : List Span) (number : Nat) (line : List Char) :
    Except Fault (Except Error (List (List UInt8))) := do
  let places := placesFrom 0 line
  let given ← count places
  if given < width spans then return .error (.shortLine number given (width spans))
  return .ok (← spans.mapM (cut (encode line) places))

theorem count_placesFrom (i : Nat) (cs : List Char) : count (placesFrom i cs) = .ok cs.length := by
  have hlength : ∀ i, (placesFrom i cs).length = cs.length + 1 := by
    induction cs with
    | nil => exact fun _ => rfl
    | cons c cs ih => exact fun i => congrArg (· + 1) (ih _)
  cases cs with
  | nil => rfl
  | cons c cs => exact congrArg Except.ok (Nat.succ.inj (hlength i))

theorem placeOf_placesFrom {cs : List Char} {k : Nat} (hk : k ≤ cs.length) (i : Nat) :
    placeOf (placesFrom i cs) k = .ok (i + (encode (cs.take k)).length) := by
  induction cs generalizing i k with
  | nil =>
      obtain rfl := Nat.le_zero.mp hk
      rfl
  | cons c cs ih =>
      cases k with
      | zero => rfl
      | succ k =>
          rw [List.take_succ_cons, Text.encode_cons, List.length_append,
            String.length_utf8EncodeChar, ← Nat.add_assoc]
          exact ih (Nat.le_of_succ_le_succ hk) _

/-- Between the places of two characters there are the bytes of the characters between them. -/
theorem between_encode (before part after : List Char) :
    between (encode (before ++ part ++ after)) (encode before).length
      (encode (before ++ part)).length = .ok (encode part) := by
  have hstart : isBoundary (encode (before ++ part ++ after)) (encode before).length = true := by
    refine Text.isBoundary_encode_iff.mpr ⟨before.length, ?_, ?_⟩
    · simp
    · rw [List.append_assoc, List.take_left]
  have hstop :
      isBoundary (encode (before ++ part ++ after)) (encode (before ++ part)).length = true := by
    refine Text.isBoundary_encode_iff.mpr ⟨(before ++ part).length, ?_, ?_⟩
    · simp
    · rw [List.take_left]
  have hbytes : encode (before ++ part ++ after) = encode before ++ encode part ++ encode after := by
    rw [Text.encode_append, Text.encode_append]
  have hlength : (encode (before ++ part)).length = (encode before).length + (encode part).length := by
    rw [Text.encode_append, List.length_append]
  rw [between, hstart, hstop, hbytes, hlength, if_neg (by simp), if_neg (by simp),
    Nat.add_sub_cancel_left, List.append_assoc, List.drop_left, List.take_left]
  rfl

theorem cut_encode {span : Span} {line : List Char} (hspan : span.start ≤ span.stop)
    (hstop : span.stop ≤ line.length) :
    cut (encode line) (placesFrom 0 line) span = .ok (utf8 (span.cut line)) := by
  obtain ⟨before, after, hline, hbefore, hpart⟩ := Span.covers_cut hspan hstop
  have hstart : line.take span.start = before := by
    rw [hline, List.append_assoc, ← hbefore, List.take_left]
  have hend : line.take span.stop = before ++ (span.cut line).toList := by
    conv_lhs => rw [hline, ← hpart, List.take_left]
  rw [cut, placeOf_placesFrom (Nat.le_trans hspan hstop), placeOf_placesFrom hstop, hstart, hend,
    Nat.zero_add, Nat.zero_add, Text.utf8_eq_encode]
  exact (congrArg (fun cs => between (encode cs) _ _) hline).trans (between_encode ..)

theorem values_eq (hspans : ∀ span ∈ spans, span.start ≤ span.stop) (number : Nat)
    (line : List Char) :
    values spans number line = .ok ((FixedWidth.values spans number line).map (·.map utf8)) := by
  rw [values, count_placesFrom, FixedWidth.values]
  by_cases hshort : line.length < width spans
  · rw [if_pos hshort]
    exact if_pos hshort
  · have hcut : spans.mapM (cut (encode line) (placesFrom 0 line)) =
        .ok (spans.map fun span => utf8 (span.cut line)) := by
      refine Traversal.mapM_eq_ok_map fun span hspan => cut_encode (hspans span hspan) ?_
      exact width_le_iff.mp (Nat.not_lt.mp hshort) span hspan
    rw [if_neg hshort, hcut]
    refine (if_neg hshort).trans ?_
    rw [Except.map, List.map_map]
    rfl

end Guarded

/-! ## Texts -/

theorem run_load_utf8 (path : String) (s : Schema) (spans : List Span) (text : String) (next : Nat) :
    ((⟨path, s, .fixedWidth spans⟩ : Source).load (.ok (utf8 text))).run next =
      ((((held text).mapM (heldRecord s spans)).run next).1.mapError (.recordLoading path),
        (((held text).mapM (heldRecord s spans)).run next).2) := by
  rw [Source.run_load, Layout.records, records_utf8]

/-- The records of a text are found just if every line of which something is left has a character
for the end of each span.  Then each such line has one record, in order: its row has in a column just
the characters of the line from the start to the stop of the span of this column.  Otherwise the
failure names the first line that is too short by its number among all lines.  And no guard ever
stops the cuts of a line. -/
theorem cuts_exactly {serial : Nat} {columns blocking : List String} {sequence id : Option String}
    {path : String} {source : Source} (hs : Schema.make serial columns blocking sequence id = .ok s)
    (hsource : Source.make path s (.fixedWidth spans) = .ok source) :
    (∀ n, width spans ≤ n ↔ ∀ span ∈ spans, span.stop ≤ n) ∧
    (∀ line, ∃ n, line = stripReturns line ++ List.replicate n '\r' ∧
      (stripReturns line).getLast? ≠ some '\r') ∧
    (∀ text next,
      ((∃ records, ((source.load (.ok (utf8 text))).run next).1 = .ok records) ↔
        ∀ line ∈ held text, width spans ≤ line.1.length) ∧
      ((∀ line ∈ held text, width spans ≤ line.1.length) → ∃ rows records,
        (source.load (.ok (utf8 text))).run next =
          (.ok records, if sequence = none then next + rows.length else next) ∧
        List.Forall₂ (fun line row =>
          List.Forall₂ (fun span value => span.Covers line.1 value) spans row) (held text) rows ∧
        List.Forall₂ (fun (row : List String × Nat) r => r.TakenFrom s row.1 row.2)
          (rows.zipIdx next) records) ∧
      ∀ before line after, held text = before ++ line :: after →
        (∀ line ∈ before, width spans ≤ line.1.length) → line.1.length < width spans →
          (source.load (.ok (utf8 text))).run next =
            (.error (.recordLoading path (.shortLine line.2 line.1.length (width spans))),
              if sequence = none then next + before.length else next)) ∧
    ∀ number line, Guarded.values spans number line =
      .ok ((values spans number line).map (·.map utf8)) := by
  obtain ⟨rfl, hnames⟩ := Schema.make_eq_ok hs
  obtain ⟨rfl, hsound⟩ := Source.sound_of_make hnames hsource
  have hspans : ∀ span ∈ spans, span.start ≤ span.stop := fun span hspan =>
    (hsound.spans spans rfl span hspan).1
  have hlength := hsound.length_spans spans rfl
  refine ⟨fun n => width_le_iff, exists_eq_stripReturns_append, fun text next => ?_,
    Guarded.values_eq hspans⟩
  rw [run_load_utf8]
  have hwide := fun h : ∀ line ∈ held text, width spans ≤ line.1.length =>
    run_mapM_heldRecord hnames hlength h next
  have hshort := fun before line after (hsplit : held text = before ++ line :: after)
      (hbefore : ∀ line ∈ before, width spans ≤ line.1.length)
      (hline : line.1.length < width spans) =>
    hsplit ▸ run_mapM_heldRecord_of_short hnames hlength hbefore hline next
  refine ⟨⟨?_, ?_⟩, ?_, ?_⟩
  · rintro ⟨records, hrecords⟩
    cases hfind : (held text).find? fun line => decide (line.1.length < width spans) with
    | none =>
        intro line hline
        simpa using List.find?_eq_none.mp hfind line hline
    | some line =>
        obtain ⟨hline, before, after, hsplit, hbefore⟩ := List.find?_eq_some_iff_append.mp hfind
        have hrun := hshort before line after hsplit (fun other hother => by
          simpa using hbefore other hother) (of_decide_eq_true hline)
        rw [hrun] at hrecords
        cases hrecords
  · intro h
    obtain ⟨records, hrun, -⟩ := hwide h
    exact ⟨records, by rw [hrun]; rfl⟩
  · intro h
    obtain ⟨records, hrun, htaken⟩ := hwide h
    refine ⟨(held text).map (rowOf spans), records, ?_, ?_, htaken⟩
    · rw [hrun, List.length_map]
      rfl
    · rw [List.forall₂_map_right_iff, List.forall₂_same]
      exact fun line hline => covers_rowOf hspans (h line hline)
  · intro before line after hsplit hbefore hline
    rw [hshort before line after hsplit hbefore hline]
    rfl

/-! ### A register -/

/-- A register with a code in the first two characters, names behind it, and initials. -/
def register : Source :=
  ⟨"register.txt", ⟨0, ["initial", "code", "name"], ["code"], none, none⟩,
    .fixedWidth [⟨2, 3⟩, ⟨0, 2⟩, ⟨2, 5⟩]⟩

theorem cuts_exactly_register :
    (∃ records, (register.load (.ok (utf8 "\n12éva\r\r\n\r\n34zoë."))).run 7 = (.ok records, 9) ∧
      records.map (fun r => (r.key, r.fields.toList.map Field.text)) =
        [("12", ["é", "éva"]), ("34", ["z", "zoë"])]) ∧
    (register.load (.ok (utf8 "\n12éva\n34ë€\n"))).run 7 =
      (.error (.recordLoading "register.txt" (.shortLine 3 4 5)), 8) := by
  have hs : Schema.make 0 ["initial", "code", "name"] ["code"] none none = .ok register.schema := rfl
  have hsource : Source.make "register.txt" register.schema
    (.fixedWidth [⟨2, 3⟩, ⟨0, 2⟩, ⟨2, 5⟩]) = .ok register := rfl
  obtain ⟨-, -, htexts, -⟩ := cuts_exactly hs hsource
  constructor
  · obtain ⟨-, hwide, -⟩ := htexts "\n12éva\r\r\n\r\n34zoë." 7
    obtain ⟨rows, records, hrun, hrows, -⟩ := hwide (by decide)
    have hcount : rows.length = 2 := hrows.length_eq.symm
    rw [if_pos rfl, hcount] at hrun
    have hrecords := hrun
    rw [register, run_load_utf8] at hrecords
    obtain rfl := Except.ok.inj (congrArg Prod.fst hrecords)
    exact ⟨_, hrun, rfl⟩
  · obtain ⟨-, -, hshort⟩ := htexts "\n12éva\n34ë€\n" 7
    exact hshort [(['1', '2', 'é', 'v', 'a'], 2)] (['3', '4', 'ë', '€'], 3) [] (by decide) (by decide)
      (by decide)

end FixedWidth
end Linkage
