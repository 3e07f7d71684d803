import Linkage.Proofs.Similarity.Score

/-
# The similarity on arrays

Texts and marks can be arrays that are read and written at positions, the ends of a window can be
numbers with a sign, and what is left of a count is a difference.  None of this is possible for all
positions and numbers.  Here every such step is guarded: it has no result where a position is not in
the array, the end of a window is no position of the text, more is taken away than there is, or the
divisor is 0.  The guards never stop the computation, and its result is the similarity, whatever the
arithmetic.

The reasons are different ones.  A window is cut off at both ends of the second text, so that what it
holds are positions.  No more characters can be out of order than are in common, and no more are in
common than either text has.  A shared beginning is read no further than the shorter text reaches; the
length is rewarded only where two more characters are in common than the beginning has.
-/

namespace Linkage.Similarity.Guarded

/-- What a step comes up against. -/
inductive Fault where
  /-- A position that is not in the array. -/
  | position
  /-- The end of a window that is negative or beyond the text. -/
  | window
  /-- A difference below 0. -/
  | difference
  /-- A quotient by 0. -/
  | divisor
  deriving DecidableEq, Repr

/-! ## Guarded steps -/

section Steps

variable {β : Type}

def readAt (xs : Array β) (i : Nat) : Except Fault β :=
  match xs[i]? with
  | some x => .ok x
  | none => .error .position

def writeAt (xs : Array β) (i : Nat) (x : β) : Except Fault (Array β) :=
  if i < xs.size then .ok (xs.setIfInBounds i x) else .error .position

/-- The end of a window as a position in a text of length `n`, or as the position after it. -/
def windowEnd (n : Nat) (x : Int) : Except Fault Nat :=
  if 0 ≤ x ∧ x ≤ n then .ok x.toNat else .error .window

/-- What `n` leaves of `m`. -/
def difference (m n : Nat) : Except Fault Nat :=
  if n ≤ m then .ok (m - n) else .error .difference

def share {α : Type} [Arithmetic α] (x : α) (n : Nat) : Except Fault α :=
  if 0 < n then .ok (x / (n : α)) else .error .divisor

theorem readAt_toArray {xs : List β} {i : Nat} {x : β} (h : xs[i]? = some x) :
    readAt xs.toArray i = .ok x := by
  rw [readAt, List.getElem?_toArray, h]

theorem writeAt_toArray {xs : List β} {i : Nat} (h : i < xs.length) (x : β) :
    writeAt xs.toArray i x = .ok (xs.set i x).toArray := by
  rw [writeAt, List.size_toArray, if_pos h, List.setIfInBounds_toArray]

theorem windowEnd_eq {n : Nat} {x : Int} (hlow : 0 ≤ x) (hhigh : x ≤ n) :
    windowEnd n x = .ok x.toNat :=
  if_pos ⟨hlow, hhigh⟩

theorem difference_eq {m n : Nat} (h : n ≤ m) : difference m n = .ok (m - n) :=
  if_pos h

theorem share_eq {α : Type} [Arithmetic α] (x : α) {n : Nat} (h : 0 < n) :
    share x n = .ok (x / (n : α)) :=
  if_pos h

end Steps

/-! ## The search for partners -/

/-- Whether `c` finds a free partner at a position. -/
def isPartner (c : Char) (s2 : Array Char) (taken : Array Bool) (j : Nat) : Except Fault Bool := do
  if ← readAt taken j then return false
  return (← readAt s2 j) == c

/-- The first free partner of `c` at one of `count` positions from `j` on. -/
def search (c : Char) (s2 : Array Char) (taken : Array Bool) :
    (count j : Nat) → Except Fault (Option Nat)
  | 0, _ => .ok none
  | count + 1, j => do
    if ← isPartner c s2 taken j then return some j
    search c s2 taken count (j + 1)

/-- The marks of both texts, and how many pairs of partners were found. -/
structure Found where
  first : Array Bool
  second : Array Bool
  common : Nat

def matchOne (r : Int) (s2 : Array Char) (i : Nat) (c : Char) (f : Found) : Except Fault Found := do
  let start : Int := if r < i then i - r else 0
  let stop : Int := min (i + r) s2.size
  if stop ≤ start then return f
  let start ← windowEnd s2.size start
  let stop ← windowEnd s2.size stop
  match ← search c s2 f.second (stop - start) start with
  | some j => return ⟨← writeAt f.first i true, ← writeAt f.second j true, f.common + 1⟩
  | none => return f

def matchFrom (r : Int) (s2 : Array Char) : (i : Nat) → List Char → Found → Except Fault Found
  | _, [], f => .ok f
  | i, c :: cs, f => do matchFrom r s2 (i + 1) cs (← matchOne r s2 i c f)

def matchAll (s1 s2 : Array Char) : Except Fault Found :=
  matchFrom (radius s1.size s2.size) s2 0 s1.toList
    ⟨Array.replicate s1.size false, Array.replicate s2.size false, 0⟩

/-- What was found, in numbers. -/
def Found.counts (f : Found) (s1 s2 : Array Char) : Counts :=
  let m : Marks := ⟨f.first.toList, f.second.toList⟩
  { length1 := s1.size
    length2 := s2.size
    common := f.common
    transposed := m.transposed s1.toList s2.toList
    similar := m.similar s1.toList s2.toList }

section

variable {c : Char} {start stop : Nat} {s2 : List Char} {taken : List Bool}

theorem isPartner_eq {j : Nat} {d : Char} {t : Bool} (hd : s2[j]? = some d)
    (ht : taken[j]? = some t) :
    isPartner c s2.toArray taken.toArray j = .ok (!t && d == c) := by
  rw [isPartner, readAt_toArray ht, readAt_toArray hd]
  cases t <;> rfl

theorem partner?_of_stop_le {k : Nat} (h : stop ≤ k) (xs : List Char) (taken : List Bool) :
    partner? c start stop k xs taken = none := by
  unfold partner?
  split
  · exact if_pos h
  · rfl

theorem partner?_drop {k : Nat} (hk : k ≤ start) (hwindow : start < stop) :
    partner? c start stop 0 s2 taken = partner? c start stop k (s2.drop k) (taken.drop k) := by
  induction k with
  | zero => rfl
  | succ k ih =>
      rw [ih (Nat.le_of_succ_le hk), ← List.drop_drop, ← List.drop_drop]
      cases s2.drop k with
      | nil => simp [partner?]
      | cons d s2 =>
          cases taken.drop k with
          | nil => simp [partner?]
          | cons t taken =>
              have hstop : ¬ stop ≤ k := by omega
              have hstart : ¬ start ≤ k := by omega
              simp [partner?, hstop, hstart]

theorem search_eq (hlength : taken.length = s2.length) (hstop : stop ≤ s2.length) {count j : Nat}
    (hj : start ≤ j) (hcount : j + count = stop) :
    search c s2.toArray taken.toArray count j =
      .ok (partner? c start stop j (s2.drop j) (taken.drop j)) := by
  induction count generalizing j with
  | zero => rw [search, partner?_of_stop_le (by omega)]
  | succ count ih =>
      have hlt : j < s2.length := by omega
      have hlt' : j < taken.length := by omega
      have hrest := ih (j := j + 1) (by omega) (by omega)
      have hbefore : ¬ stop ≤ j := by omega
      rw [search, isPartner_eq (List.getElem?_eq_getElem hlt) (List.getElem?_eq_getElem hlt'), hrest,
        List.drop_eq_getElem_cons hlt, List.drop_eq_getElem_cons hlt', partner?, if_neg hbefore]
      simp only [hj, decide_true, Bool.true_and]
      cases !taken[j] && s2[j] == c <;> rfl

theorem partner?_of_stop_le_start (h : stop ≤ start) :
    partner? c start stop 0 s2 taken = none := by
  rw [Option.eq_none_iff_forall_ne_some]
  intro j hj
  have hfree := freeAt_of_partner? hj
  have hlow := hfree.start_le
  have hhigh := hfree.lt_stop
  omega

/-- The search in a window is that in the whole text. -/
theorem search_window (hlength : taken.length = s2.length) (hstop : stop ≤ s2.length)
    (hwindow : start < stop) :
    search c s2.toArray taken.toArray (stop - start) start =
      .ok (partner? c start stop 0 s2 taken) := by
  rw [partner?_drop (Nat.le_refl start) hwindow]
  exact search_eq hlength hstop (Nat.le_refl start) (by omega)

/-- The ends of the window as numbers with a sign. -/
theorem windowStart_eq (r : Int) (i : Nat) :
    (if r < i then (i : Int) - r else 0) = windowStart r i := by
  rw [windowStart]
  split <;> omega

theorem windowStop_eq {r : Int} {i n : Nat} (h : 0 ≤ min ((i : Int) + r) n) :
    min ((i : Int) + r) n = windowStop r i n := by
  rw [windowStop, Int.toNat_of_nonneg h]

theorem windowStop_le (r : Int) (i n : Nat) : windowStop r i n ≤ n := by
  rw [windowStop]
  omega

theorem matchOne_eq {r : Int} {i : Nat} {first : List Bool} {common : Nat}
    (hlength : taken.length = s2.length) (hi : i < first.length) :
    matchOne r s2.toArray i c ⟨first.toArray, taken.toArray, common⟩ =
      .ok (match partner? c (windowStart r i) (windowStop r i s2.length) 0 s2 taken with
        | some j => ⟨(first.set i true).toArray, (taken.set j true).toArray, common + 1⟩
        | none => ⟨first.toArray, taken.toArray, common⟩) := by
  simp only [matchOne, windowStart_eq, List.size_toArray]
  split
  case isTrue hempty =>
    have hnone : windowStop r i s2.length ≤ windowStart r i := by
      rw [windowStop]
      omega
    rw [partner?_of_stop_le_start hnone]
    rfl
  case isFalse hwindow =>
    have hstop := windowStop_eq (r := r) (i := i) (n := s2.length) (by omega)
    have hle := windowStop_le r i s2.length
    rw [hstop] at hwindow ⊢
    have hlt : windowStart r i < windowStop r i s2.length := by omega
    rw [windowEnd_eq (by omega) (by omega), windowEnd_eq (by omega) (by omega)]
    simp only [Int.toNat_natCast, search_window hlength hle hlt, bind, Except.bind]
    cases hpartner : partner? c (windowStart r i) (windowStop r i s2.length) 0 s2 taken with
    | none => rfl
    | some j =>
        obtain ⟨hj, -⟩ := List.getElem?_eq_some_iff.mp (freeAt_of_partner? hpartner).free
        rw [Nat.sub_zero] at hj
        simp only [writeAt_toArray hi, writeAt_toArray hj]
        rfl

theorem matchFrom_eq {r : Int} {i : Nat} {cs : List Char} {before : List Bool} {common : Nat}
    (hlength : taken.length = s2.length) (hbefore : before.length = i) :
    matchFrom r s2.toArray i cs
        ⟨(before ++ List.replicate cs.length false).toArray, taken.toArray, common⟩ =
      let m := marksFrom r s2 i cs taken
      .ok ⟨(before ++ m.first).toArray, m.second.toArray, common + m.common⟩ := by
  induction cs generalizing i before taken common with
  | nil => simp [matchFrom, marksFrom, Marks.common]
  | cons c cs ih =>
      have hi : i < (before ++ List.replicate (c :: cs).length false).length := by
        simp only [List.length_append, List.length_replicate, List.length_cons]
        omega
      rw [matchFrom, matchOne_eq hlength hi, marksFrom]
      simp only [bind, Except.bind]
      cases partner? c (windowStart r i) (windowStop r i s2.length) 0 s2 taken with
      | none =>
          have hrest := @ih taken (i + 1) (before ++ [false]) common hlength (by simp [hbefore])
          simpa [List.replicate_succ, Marks.common] using hrest
      | some j =>
          have hrest := @ih (taken.set j true) (i + 1) (before ++ [true]) (common + 1)
            (by simp [hlength]) (by simp [hbefore])
          have hset : (before ++ List.replicate (c :: cs).length false).set i true =
              before ++ [true] ++ List.replicate cs.length false := by
            subst hbefore
            simp [List.replicate_succ]
          simp only [hset, hrest]
          simp [Marks.common, Nat.add_assoc, Nat.add_comm 1]

/-- The search for partners meets no fault, and what it finds are the marks of both texts. -/
theorem matchAll_eq (s1 s2 : List Char) :
    matchAll s1.toArray s2.toArray =
      let m := marks s1 s2
      .ok ⟨m.first.toArray, m.second.toArray, m.common⟩ := by
  have hsearch := @matchFrom_eq s2 (List.replicate s2.length false) (radius s1.length s2.length) 0 s1
    [] 0 List.length_replicate rfl
  simpa [matchAll, marks] using hsearch

end

/-! ## What becomes of the counts -/

section

variable {α : Type} [Arithmetic α]

def base (a : Adjustments) (n : Counts) : Except Fault α := do
  let matched : α := n.matched a
  let share1 ← share matched n.length1
  let share2 ← share matched n.length2
  let ordered ← difference n.common n.transposed
  let share3 ← share (ordered : α) n.common
  return (share1 + share2 + share3) / 3.0

/-- How far the texts agree in alphabetic characters, at `count` positions from `i` on. -/
def beginning (s1 s2 : Array Char) : (count i : Nat) → Except Fault Nat
  | 0, i => .ok i
  | count + 1, i => do
    let c ← readAt s1 i
    let d ← readAt s2 i
    if c == d && Text.isAlphabetic d then beginning s1 s2 count (i + 1) else return i

/-- How far the texts agree, if this is rewarded. -/
def rewarded (a : Adjustments) (n : Counts) (s1 s2 : Array Char) : Except Fault Nat :=
  if a.sharedBeginning then beginning s1 s2 (min n.minLength maxBeginning) 0 else .ok 0

/-- Whether length is rewarded.  The first character is read only if everything else is given. -/
def isLong (a : Adjustments) (n : Counts) (s1 : Array Char) (shared : Nat) : Except Fault Bool := do
  if a.longTexts && maxBeginning < n.minLength && shared + 1 < n.common &&
      n.minLength + shared < 2 * n.common then
    return Text.isAlphabetic (← readAt s1 0)
  return false

def raiseByLength (n : Counts) (shared : Nat) (weight : α) : Except Fault α := do
  let more ← difference (← difference n.common shared) 1
  let rest ← difference (n.length1 + n.length2) (2 * shared)
  return weight + (← share ((1 - weight) * (more : α)) (rest + 2))

def weigh (a : Adjustments) (n : Counts) (s1 s2 : Array Char) : Except Fault α := do
  let weight : α ← base a n
  if 0.7 < weight then
    let shared ← rewarded a n s1 s2
    let weight := if a.sharedBeginning then raiseByBeginning shared weight else weight
    if ← isLong a n s1 shared then raiseByLength n shared weight else return weight
  else return weight

def ofArrays (a : Adjustments) (s1 s2 : Array Char) : Except Fault α := do
  if min s1.size s2.size = 0 then return 0
  let found ← matchAll s1 s2
  if found.common = 0 then return 0
  weigh a (found.counts s1 s2) s1 s2

def similarity (a : Adjustments) (s1 s2 : String) : Except Fault α :=
  ofArrays a (normalize s1).toArray (normalize s2).toArray

variable {n : Counts}

theorem base_eq (h : n.Sound) (hcommon : 0 < n.common) (a : Adjustments) :
    (base a n : Except Fault α) = .ok (n.base a) := by
  obtain ⟨h1, h2⟩ := h.length_pos hcommon
  have htransposed : n.transposed ≤ n.common := by
    have htwo := h.two_mul_transposed_le
    omega
  rw [base, share_eq _ h1, share_eq _ h2, difference_eq htransposed]
  simp only [bind, Except.bind, share_eq _ hcommon]
  rfl

theorem beginning_eq {s1 s2 : List Char} {count i : Nat} (h1 : i + count ≤ s1.length)
    (h2 : i + count ≤ s2.length) :
    beginning s1.toArray s2.toArray count i =
      .ok (i + Similarity.beginning count (s1.drop i) (s2.drop i)) := by
  induction count generalizing i with
  | zero => simp [beginning, Similarity.beginning]
  | succ count ih =>
      have hlt1 : i < s1.length := by omega
      have hlt2 : i < s2.length := by omega
      have hrest := ih (i := i + 1) (by omega) (by omega)
      rw [beginning, readAt_toArray (List.getElem?_eq_getElem hlt1),
        readAt_toArray (List.getElem?_eq_getElem hlt2), List.drop_eq_getElem_cons hlt1,
        List.drop_eq_getElem_cons hlt2, Similarity.beginning, hrest]
      simp only [bind, Except.bind]
      split
      · rw [Nat.add_assoc, Nat.add_comm 1]
      · rfl

theorem beginning_min (limit : Nat) (s1 s2 : List Char) :
    Similarity.beginning (min (min s1.length s2.length) limit) s1 s2 =
      Similarity.beginning limit s1 s2 := by
  induction limit generalizing s1 s2 with
  | zero => rw [Nat.min_zero]
  | succ limit ih =>
      cases s1 with
      | nil => simp [Similarity.beginning]
      | cons c s1 =>
          cases s2 with
          | nil => simp [Similarity.beginning]
          | cons d s2 =>
              rw [List.length_cons, List.length_cons, Nat.succ_min_succ, Nat.succ_min_succ,
                Similarity.beginning, Similarity.beginning, ih]

theorem rewarded_eq {s1 s2 : List Char} (h1 : n.length1 = s1.length) (h2 : n.length2 = s2.length)
    (a : Adjustments) :
    rewarded a n s1.toArray s2.toArray =
      .ok (if a.sharedBeginning then Similarity.beginning maxBeginning s1 s2 else 0) := by
  rw [rewarded, Counts.minLength, h1, h2, beginning_eq (by omega) (by omega), List.drop_zero,
    List.drop_zero, beginning_min, Nat.zero_add]
  split <;> rfl

theorem isLong_eq {s1 : List Char} (h1 : n.length1 = s1.length) (a : Adjustments) (shared : Nat) :
    isLong a n s1.toArray shared =
      .ok (a.longTexts && n.isLong shared (beginsAlphabetic s1)) := by
  have hassoc : ∀ long least agree more first : Bool,
      (long && (least && agree && more && first)) = (long && least && agree && more && first) := by
    decide
  rw [isLong, Counts.isLong, hassoc]
  split
  case isTrue hlong =>
    cases s1 with
    | nil =>
        simp only [Bool.and_eq_true, decide_eq_true_eq, Counts.minLength, h1] at hlong
        exact absurd hlong.1.1.2 (by simp)
    | cons c s1 =>
        rw [hlong, Bool.true_and, readAt_toArray (List.getElem?_cons_zero ..)]
        rfl
  case isFalse hshort =>
    rw [Bool.eq_false_of_not_eq_true hshort, Bool.false_and]
    rfl

theorem raiseByLength_eq (h : n.Sound) {shared : Nat} {alphabetic : Bool}
    (hlong : n.isLong shared alphabetic = true) (weight : α) :
    raiseByLength n shared weight = .ok (n.raiseByLength shared weight) := by
  obtain ⟨-, hshared, -, -⟩ := Counts.isLong_iff.mp hlong
  have hfirst := h.common_add_similar_le
  have hsecond := h.common_le
  rw [raiseByLength, difference_eq (by omega : shared ≤ n.common),
    difference_eq (by omega : 2 * shared ≤ n.length1 + n.length2)]
  simp only [bind, Except.bind, difference_eq (by omega : 1 ≤ n.common - shared),
    share_eq _ (Nat.succ_pos _)]
  rfl

theorem weigh_eq {s1 s2 : List Char} (h : n.Sound) (hcommon : 0 < n.common)
    (h1 : n.length1 = s1.length) (h2 : n.length2 = s2.length) (a : Adjustments) :
    (weigh a n s1.toArray s2.toArray : Except Fault α) =
      .ok (n.weigh a (Similarity.beginning maxBeginning s1 s2) (beginsAlphabetic s1)) := by
  have hraise : ∀ (shared : Nat) (weight : α),
      (if a.longTexts && n.isLong shared (beginsAlphabetic s1) then raiseByLength n shared weight
        else return weight) =
      .ok (if a.longTexts && n.isLong shared (beginsAlphabetic s1) then n.raiseByLength shared weight
        else weight) := by
    intro shared weight
    split
    case isTrue hlong => exact raiseByLength_eq h (Bool.and_eq_true_iff.mp hlong).2 weight
    case isFalse => rfl
  simp only [weigh, base_eq h hcommon, rewarded_eq h1 h2, isLong_eq h1, Counts.weigh, bind,
    Except.bind]
  split
  case isTrue => exact hraise _ _
  case isFalse => rfl

theorem ofArrays_eq (a : Adjustments) (s1 s2 : List Char) :
    (ofArrays a s1.toArray s2.toArray : Except Fault α) = .ok (ofChars a s1 s2) := by
  have hsound := sound_ofTexts s1 s2
  have hcommon : (Counts.ofTexts s1 s2).common = (marks s1 s2).common := rfl
  simp only [ofArrays, ofChars, matchAll_eq, List.size_toArray, bind, Except.bind]
  split
  case isTrue hempty =>
    have hnone : (Counts.ofTexts s1 s2).common = 0 := by
      obtain ⟨hfirst, hsecond⟩ : (Counts.ofTexts s1 s2).common ≤ s1.length ∧
          (Counts.ofTexts s1 s2).common ≤ s2.length :=
        ⟨Nat.le_of_add_right_le hsound.common_add_similar_le, hsound.common_le⟩
      omega
    rw [if_pos hnone]
    rfl
  case isFalse =>
    rw [hcommon]
    split
    case isTrue => rfl
    case isFalse hsome => exact weigh_eq hsound (Nat.pos_of_ne_zero hsome) rfl rfl a

/-- No guard ever stops the similarity of two texts, and with all of them it is the same, whatever is
adjusted and whatever the arithmetic. -/
theorem similarity_faultless (a : Adjustments) (s1 s2 : String) :
    (similarity a s1 s2 : Except Fault α) = .ok (Linkage.similarity a s1 s2) :=
  ofArrays_eq a (normalize s1) (normalize s2)

end

end Linkage.Similarity.Guarded
