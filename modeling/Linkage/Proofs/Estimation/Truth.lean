import Linkage.Proofs.Estimation.Learner
import Linkage.Proofs.Join.BlockIndex
import Linkage.Proofs.Join.Tally
import Linkage.Proofs.Mixture.Scoring

/-
# Scores of the pairs that a model was learned from

A model of two labeled tallies scores the pairs that were counted.  Whatever a class gives a level,
the logarithm lies below the upper end, and so does the sum over a pattern.  A class that counted
the pattern gives weight to each of its levels, and then the sum lies above the lower end as well.
Now a match counts in the first class: there both sides of the difference lie above the lower end,
and the score does.  A pair that is none counts in the second class, and its score lies below the
upper end.  Either way the score is not undefined.
-/

namespace Linkage

open Extended (number top bottom)
open PatternSpace

/-! ## Weights of counted patterns -/

namespace Tally

variable {c : RecordComparator} {t : Tally}

theorem cell_shares_pos (h : t.Filled c) {e : Entry} (he : e ∈ t.entries) {k : Nat}
    (hk : k < c.levels.length) : 0 < cell t.shares k (levelAt e.pattern k) := by
  have hfits := masses_fits h
  have hmem : (⟨e.pattern, e.count⟩ : Mass ℝ) ∈ t.masses := List.mem_map_of_mem he
  have hcount : (0 : ℝ) < e.count := Nat.cast_pos.mpr (h.sound e he).2
  have hcell := Mass.amount_le_cell (fun m hm => (hfits m hm).1) (fun m hm => (hfits m hm).2) hmem hk
  rw [shares_eq h, Mass.cell_normalize, total_masses]
  exact div_pos (hcount.trans_le hcell) (Nat.cast_pos.mpr (total_pos h))

end Tally

/-! ## Logarithms of a pattern -/

theorem exists_cell_of_bind {levels : List Nat} {rows : List (List ℝ)} {p : Pattern}
    (hp : Fits levels p) {k level : Nat} {x : Extended} (hk : p[k]? = some level)
    (hx : ((extendRows rows)[k]?).bind (·[level]?) = some x) :
    k < levels.length ∧ x = number (cell rows k (levelAt p k)) ∧
      ∃ row ∈ rows, cell rows k (levelAt p k) ∈ row := by
  obtain ⟨hlt, rfl⟩ := List.getElem?_eq_some_iff.mp hk
  obtain ⟨hrow, -, hmem, rfl⟩ := entry_extendRows hx
  rw [List.getD_eq_getElem _ _ hrow] at hmem
  rw [levelAt, List.getD_eq_getElem _ _ hlt]
  exact ⟨hp.length_eq ▸ hlt, rfl, rows[k], List.getElem_mem hrow, hmem⟩

/-- The logarithms that a pattern selects sum to no upper end, and to no lower end if each of its
levels has weight. -/
theorem cells_logRows {levels : List Nat} {rows : List (List ℝ)} {p : Pattern}
    (weights : Weights Extended) (hrows : RowsFit levels rows)
    (hnonneg : ∀ row ∈ rows, ∀ w ∈ row, 0 ≤ w) (hp : Fits levels p) :
    ∃ xs, cells (weights.logRows (extendRows rows)) p = .ok xs ∧ Arithmetic.sum xs < top ∧
      ((∀ k < levels.length, 0 < cell rows k (levelAt p k)) → bottom < Arithmetic.sum xs) := by
  obtain ⟨xs, hxs, hmem⟩ :=
    cells_eq_ok (Weights.rowsFit_logRows weights (rowsFit_extendRows hrows)) hp
  have hentry : ∀ x ∈ xs, ∃ k < levels.length, ∃ silent : Bool,
      (∃ row ∈ rows, cell rows k (levelAt p k) ∈ row) ∧
      x = if silent then 0 else Arithmetic.log (number (cell rows k (levelAt p k))) := by
    intro x hx
    obtain ⟨k, level, hk, hlog⟩ := (hmem x).mp hx
    rw [Weights.entry_logRows] at hlog
    obtain ⟨w, hw, rfl⟩ := Option.map_eq_some_iff.mp hlog
    obtain ⟨hlt, rfl, hrow⟩ := exists_cell_of_bind hp hk hw
    exact ⟨k, hlt, _, hrow, rfl⟩
  refine ⟨xs, hxs, Extended.sum_lt_top ?_, fun hpos => Extended.bottom_lt_sum ?_⟩
  · intro x hx
    obtain ⟨k, -, silent, ⟨row, hrow, hw⟩, rfl⟩ := hentry x hx
    cases silent with
    | true => exact trivial
    | false => exact Extended.log_lt_top (hnonneg row hrow _ hw)
  · intro x hx
    obtain ⟨k, hk, silent, -, rfl⟩ := hentry x hx
    cases silent with
    | true => exact trivial
    | false => exact Extended.bottom_lt_log (hpos k hk)

/-! ## Scores of counted patterns -/

section Scores

variable {c : RecordComparator} {matched unmatched : Tally} {p : Pattern}

theorem Tally.Filled.cells_shares {t : Tally} (h : t.Filled c) (weights : Weights Extended)
    (hp : Fits c.levels p) :
    ∃ xs, cells (weights.logRows t.shares) p = .ok xs ∧ Arithmetic.sum xs < top ∧
      ((∃ e ∈ t.entries, e.pattern = p) → bottom < Arithmetic.sum xs) := by
  obtain ⟨xs, hxs, htop, hbottom⟩ := cells_logRows weights (rowsFit_shares h) (shares_nonneg h) hp
  rw [← shares_extend h] at hxs
  refine ⟨xs, hxs, htop, ?_⟩
  rintro ⟨e, he, rfl⟩
  exact hbottom fun k hk => cell_shares_pos h he hk

/-- A pattern that was counted among the matches scores above the lower end, and one that was
counted among the others below the upper end. -/
theorem Model.scorePattern_ofShares (hmatched : matched.Filled c) (hunmatched : unmatched.Filled c)
    (hp : Fits c.levels p) :
    ∃ x, (ofShares c 1 [matched, unmatched]).scorePattern p = .ok x ∧
      ((∃ e ∈ matched.entries, e.pattern = p) → bottom < x) ∧
      ((∃ e ∈ unmatched.entries, e.pattern = p) → x < top) := by
  set weights : Weights Extended := [matched.shares, unmatched.shares] with hweights
  obtain ⟨xs, hxs, hxtop, hxbottom⟩ := hmatched.cells_shares weights hp
  obtain ⟨ys, hys, hytop, hybottom⟩ := hunmatched.cells_shares weights hp
  have hscore : (ofShares c 1 [matched, unmatched]).scorePattern p =
      .ok (Arithmetic.sum [Arithmetic.sum xs, -Arithmetic.sum ys]) := by
    have hlogs : (ofShares c 1 [matched, unmatched]).logWeights =
      [weights.logRows matched.shares, weights.logRows unmatched.shares] := rfl
    rw [scorePattern, hlogs]
    simp only [List.zipIdx_cons, List.zipIdx_nil, List.mapM_cons, List.mapM_nil, classScore, hxs, hys]
    rfl
  -- The second sum is subtracted, so each bound needs the opposite one of it.
  refine ⟨_, hscore, ?_, ?_⟩
  · intro hcounted
    refine Extended.bottom_lt_sum ?_
    simp [hxbottom hcounted, Extended.bottom_lt_neg hytop]
  · intro hcounted
    refine Extended.sum_lt_top ?_
    simp [hxtop, Extended.neg_lt_top (hybottom hcounted)]

/-- A model that was learned from the two tallies of labeled pairs is that of their shares. -/
theorem learnSupervised_of_tallyTruth (hc : c.Numbered) {left right : List Record}
    (htruth : tallyTruth c left right = .ok (matched, unmatched)) {m : Model Extended}
    (hm : learnSupervised 1 [matched, unmatched] = .ok m) :
    m = .ofShares c 1 [matched, unmatched] ∧ matched.Filled c ∧ unmatched.Filled c ∧
      m.Shaped c := by
  obtain ⟨hmatched, hunmatched⟩ := sound_tallyTruth hc htruth
  have hconsistent : Tally.Consistent [matched, unmatched] := by
    constructor <;> simp [hmatched, hunmatched]
  obtain ⟨c', hfilled, hmake⟩ := make_of_learnSupervised hconsistent hm
  obtain rfl : c' = c := (hfilled matched List.mem_cons_self).comparator.symm.trans hmatched.1
  exact ⟨(Model.make_eq_ok_iff.mp hmake).2.2, hfilled matched (by simp), hfilled unmatched (by simp),
    Model.shaped_of_make hmake⟩

end Scores

/-- A model that was learned from labeled pairs scores each of them, and contradicts none.  No score
is undefined, a match is not excluded with certainty, and a pair that is none is not taken for
certain. -/
theorem learnSupervised_respects_truth {serial : Nat} {bindings : List Binding} {handleBlanks : Bool}
    {c : RecordComparator} (hmake : RecordComparator.make serial bindings handleBlanks = .ok c)
    {left right : List Record} {matched unmatched : Tally}
    (htruth : tallyTruth c left right = .ok (matched, unmatched)) {m : Model Extended}
    (hm : learnSupervised 1 [matched, unmatched] = .ok m) {l r : Record} (hl : l ∈ left)
    (hr : r ∈ right) (hkey : l.key = r.key) :
    ∃ x, m.score l r = .ok x ∧ x ≠ .undefined ∧ (l.id = r.id → bottom < x) ∧
      (l.id ≠ r.id → x < top) := by
  have hc := RecordComparator.numbered_of_make hmake
  have hpair : (l, r) ∈ (BlockIndex.ofRecords left).pairs right :=
    BlockIndex.mem_pairs_ofRecords.mpr ⟨hl, hr, hkey⟩
  obtain ⟨i, hi, hmatch, hother⟩ := exists_entry_of_tallyTruth hc htruth hpair
  obtain ⟨rfl, hmatched, hunmatched, hshaped⟩ := learnSupervised_of_tallyTruth hc htruth hm
  have hlt := hc.indexOf_lt hi
  obtain ⟨x, hx, hbottom, htop⟩ :=
    Model.scorePattern_ofShares hmatched hunmatched (fits_decode (hc ▸ hlt))
  have hscore : (Model.ofShares c 1 [matched, unmatched]).score l r = .ok x := by
    have hindex : c.compareIndex l r = .ok i := hi
    have hpattern : c.patternAt i = .ok (decode c.levels i) := RecordComparator.patternAt_of_lt hlt
    rw [hshaped.score_eq hc, hindex]
    show (Model.ofShares c 1 [matched, unmatched]).scoreIndex i = .ok x
    exact Traversal.bind_eq_ok_iff.mpr ⟨_, hpattern, hx⟩
  refine ⟨x, hscore, ?_, fun hid => hbottom (hmatch hid), fun hid => htop (hother hid)⟩
  by_cases hid : l.id = r.id
  · exact Extended.ne_undefined_of_bottom_lt (hbottom (hmatch hid))
  · exact Extended.ne_undefined_of_lt_top (htop (hother hid))

/-! ### Misleading first names -/

namespace FirstNames

def members : Schema := ⟨0, ["id", "first"], [], none, some "id"⟩

/-- A person with an id and a first name. -/
def member (id first number : String) : Record :=
  members.recordOf [id, first] number

/-- The members last year. -/
def lastYear : List Record :=
  [member "1" "ann" "0", member "2" "bob" "1"]

/-- The one who stayed, and took the name of the other. -/
def thisYear : List Record :=
  [member "1" "bob" "2"]

/-- Pairs of the same person, whose names differ. -/
def renamed : Tally :=
  ⟨comparator, [⟨0, [0], 1⟩]⟩

/-- Pairs of different persons of one name. -/
def namesakes : Tally :=
  ⟨comparator, [⟨1, [1], 1⟩]⟩

theorem tallyTruth_thisYear :
    tallyTruth comparator lastYear thisYear = .ok (renamed, namesakes) := rfl

theorem filled_thisYear : ∀ t ∈ [renamed, namesakes], t.Filled comparator := by
  have hc : comparator.Numbered := rfl
  obtain ⟨⟨-, hrenamed⟩, -, hnamesakes⟩ := sound_tallyTruth hc tallyTruth_thisYear
  intro t ht
  rcases List.mem_pair.mp ht with rfl | rfl
  · exact ⟨rfl, hrenamed, List.cons_ne_nil _ _⟩
  · exact ⟨rfl, hnamesakes, List.cons_ne_nil _ _⟩

end FirstNames

/-- Where the names mislead throughout, the scores follow the ids. -/
theorem learnSupervised_respects_firstNames :
    RecordComparator.make 0 FirstNames.comparator.bindings false = .ok FirstNames.comparator ∧
      tallyTruth FirstNames.comparator FirstNames.lastYear FirstNames.thisYear =
        .ok (FirstNames.renamed, FirstNames.namesakes) ∧
      ∃ m : Model Extended,
        learnSupervised 1 [FirstNames.renamed, FirstNames.namesakes] = .ok m ∧
        (∃ x, m.score (FirstNames.member "1" "ann" "0") (FirstNames.member "1" "bob" "2") = .ok x ∧
          x ≠ .undefined ∧ bottom < x) ∧
        ∃ x, m.score (FirstNames.member "2" "bob" "1") (FirstNames.member "1" "bob" "2") = .ok x ∧
          x ≠ .undefined ∧ x < top := by
  have hmake : RecordComparator.make 0 FirstNames.comparator.bindings false =
      .ok FirstNames.comparator := rfl
  have htruth := FirstNames.tallyTruth_thisYear
  obtain ⟨hm, -⟩ := learnSupervised_eq_ok FirstNames.filled_thisYear (rfl : checkClasses 2 1 = .ok ())
  have hmatch : FirstNames.member "1" "ann" "0" ∈ FirstNames.lastYear := by simp [FirstNames.lastYear]
  have hother : FirstNames.member "2" "bob" "1" ∈ FirstNames.lastYear := by simp [FirstNames.lastYear]
  have hright : FirstNames.member "1" "bob" "2" ∈ FirstNames.thisYear := by simp [FirstNames.thisYear]
  obtain ⟨x, hx, hdefined, hbottom, -⟩ :=
    learnSupervised_respects_truth hmake htruth hm hmatch hright rfl
  obtain ⟨y, hy, hdefined', -, htop⟩ :=
    learnSupervised_respects_truth hmake htruth hm hother hright rfl
  exact ⟨hmake, htruth, _, hm, ⟨x, hx, hdefined, hbottom rfl⟩,
    y, hy, hdefined', htop (by decide)⟩

end Linkage
