import Linkage.Proofs.Columns
import Linkage.Proofs.Csv.Sink
import Linkage.Proofs.Text.Utf8

/-
# Matches that are read back

A file of matches can be the source of another job, if the schema has a column for the score and one
for every compared value.  Its rows are then read as they were written.  Each begins with the text of
a double, which is not empty and is no comment, and the header begins with a letter; so no row is
passed over but the header, and the text has no mark before it.  What else is in the values, quotes
keep it in its place.

The values of both sides stand by turns, so that those of the binding with the number `k` are the
fields with the numbers `2 * k + 1` and `2 * k + 2`.
-/

namespace Linkage

open Text (utf8)

/-! ## The row of a match -/

namespace Csv

theorem getElem?_interleave {β : Type} {as bs : List β} (h : as.length = bs.length) (k : Nat) :
    (interleave as bs)[2 * k]? = as[k]? ∧ (interleave as bs)[2 * k + 1]? = bs[k]? := by
  induction as generalizing bs k with
  | nil =>
      obtain rfl := List.eq_nil_of_length_eq_zero h.symm
      exact ⟨rfl, rfl⟩
  | cons a as ih =>
      cases bs with
      | nil => cases h
      | cons b bs =>
          cases k with
          | zero => exact ⟨rfl, rfl⟩
          | succ k => exact ih (Nat.succ.inj h) k

end Csv

theorem text_field_eq_ok_iff {r : Record} {i : Nat} {value : String} :
    (do return (← r.field i).text) = (.ok value : Except Error String) ↔
      r.fields[i]? = some ⟨value⟩ := by
  rw [Record.field]
  cases r.fields[i]? with
  | none => exact iff_of_false nofun nofun
  | some field =>
      obtain ⟨text⟩ := field
      exact ⟨fun h => congrArg _ (congrArg _ (Except.ok.inj h)),
        fun h => congrArg _ (congrArg Field.text (Option.some.inj h))⟩

theorem mapM_field_eq_ok_iff {index : Binding → Nat} {r : Record} {bindings : List Binding}
    {values : List String} :
    (bindings.mapM fun binding => do return (← r.field (index binding)).text) =
        (.ok values : Except Error (List String)) ↔
      List.Forall₂ (fun binding value => r.fields[index binding]? = some ⟨value⟩)
        bindings values := by
  rw [Traversal.mapM_eq_ok_iff]
  exact ⟨.imp fun _ _ => text_field_eq_ok_iff.mp, .imp fun _ _ => text_field_eq_ok_iff.mpr⟩

theorem exists_mapM_field_iff {index : Binding → Nat} {r : Record} {bindings : List Binding} :
    (∃ values, (bindings.mapM fun binding => do return (← r.field (index binding)).text) =
        (.ok values : Except Error (List String))) ↔
      ∀ binding ∈ bindings, index binding < r.fields.size := by
  constructor
  · rintro ⟨values, hvalues⟩ binding hbinding
    obtain ⟨value, hvalue⟩ := Traversal.exists_of_mapM_eq_ok hvalues hbinding
    exact (Array.getElem?_eq_some_iff.mp (text_field_eq_ok_iff.mp hvalue)).1
  · intro h
    refine Traversal.exists_mapM_eq_ok fun binding hbinding => ?_
    exact ⟨_, text_field_eq_ok_iff.mpr (Array.getElem?_eq_getElem (h binding hbinding))⟩

theorem CsvSink.exists_rowOf_iff {c : RecordComparator} {m : Record × Record × Float} :
    (∃ row, rowOf c m = .ok row) ↔ ∀ binding ∈ c.bindings,
      binding.indexA < m.1.fields.size ∧ binding.indexB < m.2.1.fields.size := by
  rw [forall₂_and, ← exists_mapM_field_iff, ← exists_mapM_field_iff]
  constructor
  · rintro ⟨row, hrow⟩
    obtain ⟨as, bs, has, hbs, -⟩ := rowOf_eq_ok_iff.mp hrow
    exact ⟨⟨as, has⟩, bs, hbs⟩
  · rintro ⟨⟨as, has⟩, bs, hbs⟩
    exact ⟨_, rowOf_eq_ok_iff.mpr ⟨as, bs, has, hbs, rfl⟩⟩

/-- A record has the text of a score, and then the values of two records that a comparator compares,
by turns. -/
structure Record.HoldsMatch (r : Record) (c : RecordComparator) (m : Record × Record × Float) :
    Prop where
  size : r.fields.size = 2 * c.bindings.length + 1
  score : r.fields[0]? = some ⟨Decimal.plain m.2.2⟩
  sideA : ∀ (k : Nat) binding, c.bindings[k]? = some binding →
    r.fields[2 * k + 1]? = m.1.fields[binding.indexA]?
  sideB : ∀ (k : Nat) binding, c.bindings[k]? = some binding →
    r.fields[2 * k + 2]? = m.2.1.fields[binding.indexB]?

theorem Record.holdsMatch_of_rowOf {r : Record} {c : RecordComparator}
    {m : Record × Record × Float} {row : List String} (hrow : CsvSink.rowOf c m = .ok row)
    (hr : r.fields.toList.map Field.text = row) : r.HoldsMatch c m := by
  obtain ⟨as, bs, has, hbs, rfl⟩ := CsvSink.rowOf_eq_ok_iff.mp hrow
  have has := mapM_field_eq_ok_iff.mp has
  have hbs := mapM_field_eq_ok_iff.mp hbs
  have hlength : as.length = bs.length := has.length_eq.symm.trans hbs.length_eq
  have hfield : ∀ {i : Nat} {value : String},
      (Decimal.plain m.2.2 :: Csv.interleave as bs)[i]? = some value →
        r.fields[i]? = some ⟨value⟩ := by
    intro i value hvalue
    rw [← hr, List.getElem?_map, Option.map_eq_some_iff] at hvalue
    obtain ⟨field, hfield, rfl⟩ := hvalue
    rw [← Array.getElem?_toList, hfield]
  exact {
    size := by
      rw [← CsvSink.length_of_rowOf hrow, ← hr, List.length_map, Array.length_toList]
    score := hfield rfl
    sideA := fun k binding hbinding => by
      obtain ⟨value, hvalue, hfound⟩ := exists_getElem?_of_forall₂ has hbinding
      rw [hfound]
      refine hfield ?_
      rw [List.getElem?_cons_succ, (Csv.getElem?_interleave hlength k).1, hvalue]
    sideB := fun k binding hbinding => by
      obtain ⟨value, hvalue, hfound⟩ := exists_getElem?_of_forall₂ hbs hbinding
      rw [hfound]
      refine hfield ?_
      rw [List.getElem?_cons_succ, (Csv.getElem?_interleave hlength k).2, hvalue] }

/-! ## The text of a score -/

namespace Decimal

theorem exists_positional_eq (s : Scaled) :
    ∃ c cs, s.positional.toList = c :: cs ∧ c.isDigit = true := by
  have hdigits : ∀ c ∈ Nat.toDigits 10 s.coefficient, c.isDigit = true :=
    fun c hc => Nat.isDigit_of_mem_toDigits (by decide) (by decide) hc
  have hfirst : ∀ (ds : List Char) (rest : String), ds ≠ [] → (∀ c ∈ ds, c.isDigit = true) →
      ∃ c cs, (String.ofList ds ++ rest).toList = c :: cs ∧ c.isDigit = true := by
    intro ds rest hne hds
    obtain ⟨c, cs, rfl⟩ := List.exists_cons_of_ne_nil hne
    refine ⟨c, cs ++ rest.toList, ?_, hds c List.mem_cons_self⟩
    rw [String.toList_append, String.toList_ofList, List.cons_append]
  rw [Scaled.positional]
  dsimp only
  split
  case isTrue => exact hfirst _ _ Nat.toDigits_ne_nil hdigits
  case isFalse =>
    rw [String.append_assoc]
    refine hfirst _ _ ?_ ?_
    · -- There are more digits than places behind the point.
      intro h
      have hlength := congrArg List.length h
      rw [List.length_take, List.length_append, List.length_replicate, List.length_nil] at hlength
      omega
    · intro c hc
      rcases List.mem_append.mp (List.mem_of_mem_take hc) with hc | hc
      · obtain ⟨-, rfl⟩ := List.mem_replicate.mp hc
        rfl
      · exact hdigits c hc

theorem exists_plain_eq (x : Float) : ∃ c cs, (plain x).toList = c :: cs ∧ c ≠ '#' := by
  rw [plain, layout]
  cases valueOf x with
  | nan => exact ⟨'N', _, rfl, by decide⟩
  | infinite negative =>
      cases negative with
      | true => exact ⟨'-', _, rfl, by decide⟩
      | false => exact ⟨'i', _, rfl, by decide⟩
  | finite n =>
      dsimp only
      cases n.negative with
      | true =>
          rw [if_pos rfl, String.toList_append]
          exact ⟨'-', _, rfl, by decide⟩
      | false =>
          rw [if_neg Bool.false_ne_true, String.empty_append]
          split
          case isTrue => exact ⟨'0', _, rfl, by decide⟩
          case isFalse =>
            obtain ⟨c, cs, htext, hdigit⟩ :=
              exists_positional_eq (shortest .upper n.mantissa n.exponent)
            refine ⟨c, cs, htext, ?_⟩
            rintro rfl
            cases hdigit

end Decimal

/-! ## Reading them back -/

namespace DelimitedOptions

variable {o : DelimitedOptions} {s : Schema}

/-- The bytes with a meaning, if the delimiter and the comment character are the usual ones. -/
def usual : Csv.Dialect := ⟨Csv.comma, some 35⟩

theorem record_utf8 (hblank : o.blankIndicator = none) (row : List String) :
    o.record s (row.map utf8) = s.record row := by
  have htexts : (row.map utf8).mapM valueText = .ok row := by
    rw [Traversal.mapM_eq_ok_iff, List.forall₂_map_left_iff, List.forall₂_same]
    intro text _
    rw [valueText, Text.ofUtf8?_utf8]
  have hvalues : row.map o.unblanked = row := by
    have hid : o.unblanked = id := by
      funext value
      rw [unblanked, hblank]
      rfl
    rw [hid, List.map_id]
  rw [record, htexts]
  change s.record (row.map o.unblanked) = _
  rw [hvalues]

/-- A row with a first text that does not begin with a number sign is no comment. -/
theorem shows_texts {text : String} {ch : Char} {cs : List Char} (htext : text.toList = ch :: cs)
    (hch : ch ≠ '#') (row : List String) : Csv.Reader.Shows usual ((text :: row).map utf8) := by
  obtain ⟨b, bs, hbytes, -⟩ := Text.exists_utf8EncodeChar_eq ch
  have hb : b ≠ 35 := by
    rintro rfl
    refine hch (Text.eq_of_mem_utf8EncodeChar (d := '#') (by decide) ?_)
    rw [hbytes]
    exact List.mem_cons_self
  rw [List.map_cons, Text.utf8_eq_encode, htext, Text.encode_cons, hbytes]
  refine Csv.Reader.shows_of_first (by decide) ?_
  intro h
  exact hb (Option.some.inj h).symm

theorem records_writtenTexts (hdialect : o.dialect = .ok usual) (hheader : o.hasHeader = true)
    (hblank : o.blankIndicator = none) {header : List String} {rows : List (List String)}
    (hrows : ∀ row ∈ header :: rows, Csv.Reader.Shows usual (row.map utf8))
    (hmark : Csv.dropMark (Csv.writtenTexts (header :: rows)) = Csv.writtenTexts (header :: rows)) :
    o.records s (Csv.writtenTexts (header :: rows)) = s.records rows := by
  have hread : Csv.rows usual (Csv.writtenTexts (header :: rows)) =
      (header :: rows).map (·.map utf8) :=
    Csv.rows_written rfl (List.forall_mem_map.mpr hrows) hmark
  rw [records, hdialect]
  change (o.dataRows (Csv.rows usual _)).mapM (o.record s) = _
  rw [hread, dataRows, hheader, if_pos rfl, List.map_cons, List.drop_succ_cons, List.drop_zero,
    List.mapM_map, Schema.records]
  congr 1
  funext row
  exact record_utf8 hblank row

end DelimitedOptions

namespace CsvSink

/-- The rows that a sink writes are seen from their first bytes. -/
theorem shows_rows {c : RecordComparator} {fieldNames : List (String × String)}
    {found : List (Record × Record × Float)} {rows : List (List String)}
    (hrows : found.mapM (rowOf c) = .ok rows) :
    ∀ row ∈ header fieldNames :: rows,
      Csv.Reader.Shows DelimitedOptions.usual (row.map utf8) := by
  intro row hrow
  rcases List.mem_cons.mp hrow with rfl | hrow
  · have hscore : "score".toList = ['s', 'c', 'o', 'r', 'e'] := rfl
    exact DelimitedOptions.shows_texts hscore (by decide) _
  · obtain ⟨m, -, hm⟩ := (Traversal.mem_mapM_iff hrows row).mp hrow
    obtain ⟨as, bs, -, -, rfl⟩ := rowOf_eq_ok_iff.mp hm
    obtain ⟨ch, cs, htext, hch⟩ := Decimal.exists_plain_eq m.2.2
    exact DelimitedOptions.shows_texts htext hch _

theorem dropMark_writtenTexts (fieldNames : List (String × String)) (rows : List (List String)) :
    Csv.dropMark (Csv.writtenTexts (header fieldNames :: rows)) =
      Csv.writtenTexts (header fieldNames :: rows) := by
  have hscore : utf8 "score" = [115, 99, 111, 114, 101] := by decide
  have hheader : (header fieldNames).map utf8 = utf8 "score" :: (header fieldNames).tail.map utf8 :=
    rfl
  obtain ⟨rest, hrest⟩ := Csv.exists_writtenRow_eq (utf8 "score") ((header fieldNames).tail.map utf8)
  have hplain : Csv.needsQuotes (utf8 "score") = false := by decide
  rw [Csv.writtenValue_of_plain hplain] at hrest
  rw [Csv.writtenTexts, List.map_cons, List.flatMap_cons, hheader, hrest, hscore]
  exact Csv.dropMark_of_first (by decide)

theorem forall₂_holdsMatch {c : RecordComparator} {serial next : Nat} {columns : List String}
    {found : List (Record × Record × Float)} {rows : List (List String)} {records : List Record}
    (hcolumns : columns.Nodup) (hlength : columns.length = 2 * c.bindings.length + 1)
    (hrows : List.Forall₂ (fun m row => rowOf c m = .ok row) found rows)
    (htaken : List.Forall₂ (fun (row : List String × Nat) r =>
      r.TakenFrom ⟨serial, columns, [], none, none⟩ row.1 row.2) (rows.zipIdx next) records) :
    List.Forall₂ (fun m (r : Record) => r.HoldsMatch c m) found records := by
  induction hrows generalizing next records with
  | nil =>
      cases htaken
      exact .nil
  | cons hrow _ ih =>
      cases htaken with
      | cons htaken hrest =>
          refine .cons (Record.holdsMatch_of_rowOf hrow ?_) (ih hrest)
          exact htaken.text_fields hcolumns ((length_of_rowOf hrow).trans hlength.symm)

/-- What a sink writes of some matches is read back with one record for each, in order: the text of
its score, and then the compared values of both records by turns.  The texts may be any, also empty
ones and ones with commas, quotes, number signs and ends of lines in them, and so may the scores.
The sink only fails on a match whose records lack a compared field. -/
theorem matches_read_back (c : RecordComparator) (found : List (Record × Record × Float))
    {serial : Nat} {columns : List String} {path : String} {s : Schema} {source : Source}
    (hs : Schema.make serial columns [] none none = .ok s) (hcolumns : columns.Nodup)
    (hlength : columns.length = 2 * c.bindings.length + 1)
    (hsource : Source.make path s (.delimited
      { delimiter := ',', hasHeader := true, comment := some '#', blankIndicator := none }) =
        .ok source) (next : Nat) :
    ((∃ sent, ((told c found).forM sink).run { comparator := c } = (.ok (), sent)) ↔
      ∀ m ∈ found, ∀ binding ∈ c.bindings,
        binding.indexA < m.1.fields.size ∧ binding.indexB < m.2.1.fields.size) ∧
    ∀ sent, ((told c found).forM sink).run { comparator := c } = (.ok (), sent) →
      sent.output.pending = #[] ∧
      ∃ records,
        (source.load (.ok sent.output.bytes)).run next = (.ok records, next + found.length) ∧
        List.Forall₂ (fun m (r : Record) => r.HoldsMatch c m) found records := by
  obtain ⟨rfl, hnames⟩ := Schema.make_eq_ok hs
  obtain ⟨rfl, -⟩ := Source.sound_of_make hnames hsource
  obtain ⟨hok, herror⟩ := run_told c found
  have hfound : (∃ rows, found.mapM (rowOf c) = .ok rows) ↔ ∀ m ∈ found, ∀ binding ∈ c.bindings,
      binding.indexA < m.1.fields.size ∧ binding.indexB < m.2.1.fields.size := by
    constructor
    · rintro ⟨rows, hrows⟩ m hm
      exact exists_rowOf_iff.mp (Traversal.exists_of_mapM_eq_ok hrows hm)
    · exact fun h => Traversal.exists_mapM_eq_ok fun m hm => exists_rowOf_iff.mpr (h m hm)
  rw [← hfound]
  cases hrows : found.mapM (rowOf c) with
  | error e =>
      obtain ⟨stopped, hrun⟩ := herror e hrows
      rw [hrun]
      exact ⟨iff_of_false nofun nofun, nofun⟩
  | ok rows =>
      obtain ⟨sent, hrun, hpending, hbytes⟩ := hok rows hrows
      refine ⟨iff_of_true ⟨sent, hrun⟩ ⟨rows, rfl⟩, ?_⟩
      intro sent' hrun'
      obtain rfl : sent = sent' := congrArg Prod.snd (hrun.symm.trans hrun')
      refine ⟨hpending, ?_⟩
      have hvalues := Traversal.mapM_eq_ok_iff.mp hrows
      have hwidth : ∀ row ∈ rows, row.length = columns.length := by
        intro row hrow
        obtain ⟨m, -, hm⟩ := (Traversal.mem_mapM_iff hrows row).mp hrow
        rw [length_of_rowOf hm, hlength]
      obtain ⟨records, hrecords, htaken⟩ := Schema.run_records hnames hwidth next
      refine ⟨records, ?_, ?_⟩
      · rw [Source.run_load, Layout.records, hbytes, DelimitedOptions.records_writtenTexts rfl rfl rfl
          (shows_rows hrows) (dropMark_writtenTexts c.fieldNames rows), hrecords, hvalues.length_eq]
        rfl
      · exact forall₂_holdsMatch hcolumns hlength hvalues htaken

/-! ### Names -/

def byName : RecordComparator :=
  ⟨0, [⟨"last", "last", 1, 1, .exact⟩, ⟨"first", "first", 0, 0, .exact⟩], true, 9⟩

/-- A person, whose names have bytes with a meaning in them. -/
def person (first last number : String) : Record :=
  Schema.recordOf ⟨0, ["first", "last"], [], none, none⟩ [first, last] number

def matchFile : Source :=
  ⟨"matches.csv", ⟨1, ["score", "last", "other last", "first", "other first"], [], none, none⟩,
    .delimited { delimiter := ',', hasHeader := true, blankIndicator := none }⟩

theorem matches_read_back_byName : ∃ sent r,
    ((told byName [(person "#zoë" "lee" "0", person "" "\r\nlee, \"jr\"" "1", 2.5)]).forM sink).run
      { comparator := byName } = (.ok (), sent) ∧
    sent.output.pending = #[] ∧
    (matchFile.load (.ok sent.output.bytes)).run 3 = (.ok [r], 4) ∧
    r.fields.size = 5 ∧ r.fields[0]? = some ⟨Decimal.plain 2.5⟩ ∧ r.fields[1]? = some ⟨"lee"⟩ ∧
    r.fields[2]? = some ⟨"\r\nlee, \"jr\""⟩ ∧ r.fields[3]? = some ⟨"#zoë"⟩ ∧
    r.fields[4]? = some ⟨""⟩ := by
  have hs : Schema.make 1 matchFile.schema.columns [] none none = .ok matchFile.schema := rfl
  have hsource : Source.make "matches.csv" matchFile.schema matchFile.layout = .ok matchFile := rfl
  obtain ⟨hsent, hread⟩ := matches_read_back byName
    [(person "#zoë" "lee" "0", person "" "\r\nlee, \"jr\"" "1", 2.5)] hs (by decide) rfl hsource 3
  obtain ⟨sent, hrun⟩ := hsent.mpr (by decide)
  obtain ⟨hpending, records, hrecords, hmatches⟩ := hread sent hrun
  cases hmatches with
  | cons hmatch hrest =>
      cases hrest
      exact ⟨sent, _, hrun, hpending, hrecords, hmatch.size, hmatch.score, hmatch.sideA 0 _ rfl,
        hmatch.sideB 0 _ rfl, hmatch.sideA 1 _ rfl, hmatch.sideB 1 _ rfl⟩

end CsvSink

end Linkage
