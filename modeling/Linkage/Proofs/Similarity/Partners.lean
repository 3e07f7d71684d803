import Linkage.Similarity.Partners
import Mathlib.Data.Bool.Count

/-
# Who is whose partner

The search for partners goes along the first text and gives each character the first free partner in
its window.  What comes out does not depend on the side from which it is seen: of two characters that
may be partners and are not, one has a partner that stands earlier.  Only one matching has this
property, whatever characters may be partners.
-/

namespace Linkage.Similarity

/-! ## Settled matchings -/

/-- A matching of positions in which only those are partners that may be, nobody has two partners,
and of two that may be partners one has a partner that is no later. -/
structure Settled (may partners : Nat → Nat → Prop) : Prop where
  may_of_partners {i j : Nat} : partners i j → may i j
  second_unique {i j k : Nat} : partners i j → partners i k → j = k
  first_unique {i j k : Nat} : partners i j → partners k j → i = k
  earlier {i j : Nat} : may i j → (∃ k ≤ j, partners i k) ∨ ∃ k ≤ i, partners k j

namespace Settled

variable {may may' partners partners' : Nat → Nat → Prop} {i j : Nat}

theorem swap (h : Settled may partners) :
    Settled (fun i j => may j i) (fun i j => partners j i) where
  may_of_partners := h.may_of_partners
  second_unique := h.first_unique
  first_unique := h.second_unique
  earlier hmay := (h.earlier hmay).symm

/-- A matching stays settled when partners that it does not use are forbidden. -/
theorem forbid (h : Settled may partners) (hless : ∀ {i j}, may' i j → may i j)
    (hused : ∀ {i j}, partners i j → may' i j) : Settled may' partners where
  may_of_partners := hused
  second_unique := h.second_unique
  first_unique := h.first_unique
  earlier hmay := h.earlier (hless hmay)

theorem congr (h : Settled may partners) (heq : ∀ i j, may' i j ↔ may i j) :
    Settled may' partners :=
  h.forbid (heq _ _).mp fun hpartners => (heq _ _).mpr (h.may_of_partners hpartners)

/-- Partners of one settled matching are partners in another one that agrees with it on whatever
stands earlier. -/
theorem partners_of_agree (h : Settled may partners) (h' : Settled may partners')
    (hagree : ∀ k l, k + l < i + j → partners' k l → partners k l) (hij : partners i j) :
    partners' i j := by
  -- The other matching gives one of the two a partner that is no later.  An earlier one would be a
  -- partner in the first matching, too, where both have one already.
  rcases h'.earlier (h.may_of_partners hij) with ⟨k, hk, hik⟩ | ⟨k, hk, hkj⟩
  · rcases Nat.lt_or_eq_of_le hk with hlt | rfl
    · exact absurd (h.second_unique hij (hagree i k (by omega) hik)) (Nat.ne_of_gt hlt)
    · exact hik
  · rcases Nat.lt_or_eq_of_le hk with hlt | rfl
    · exact absurd (h.first_unique hij (hagree k j (by omega) hkj)) (Nat.ne_of_gt hlt)
    · exact hkj

theorem unique (h : Settled may partners) (h' : Settled may partners') (i j : Nat) :
    partners i j ↔ partners' i j := by
  induction hn : i + j using Nat.strongRecOn generalizing i j with
  | ind n ih =>
      subst hn
      exact ⟨h.partners_of_agree h' fun k l hlt => (ih _ hlt k l rfl).mpr,
        h'.partners_of_agree h fun k l hlt => (ih _ hlt k l rfl).mp⟩

/-- The first position gets its first possible partner, the other ones are matched without both. -/
theorem cons {first second : Nat} (hfirst : ∀ {i j}, may i j → first ≤ i)
    (hmay : may first second) (hsecond : ∀ {j}, may first j → second ≤ j)
    (h : Settled (fun i j => may i j ∧ i ≠ first ∧ j ≠ second) partners) :
    Settled may (fun i j => i = first ∧ j = second ∨ partners i j) where
  may_of_partners := by
    rintro i j (⟨rfl, rfl⟩ | hpartners)
    · exact hmay
    · exact (h.may_of_partners hpartners).1
  second_unique := by
    rintro i j k (⟨rfl, rfl⟩ | hj) (⟨hi, rfl⟩ | hk)
    · rfl
    · exact absurd rfl (h.may_of_partners hk).2.1
    · exact absurd hi (h.may_of_partners hj).2.1
    · exact h.second_unique hj hk
  first_unique := by
    rintro i j k (⟨rfl, rfl⟩ | hi) (⟨rfl, hj⟩ | hk)
    · rfl
    · exact absurd rfl (h.may_of_partners hk).2.2
    · exact absurd hj (h.may_of_partners hi).2.2
    · exact h.first_unique hi hk
  earlier := by
    intro i j hij
    by_cases hi : i = first
    · subst hi
      exact .inl ⟨second, hsecond hij, .inl ⟨rfl, rfl⟩⟩
    · by_cases hj : j = second
      · subst hj
        exact .inr ⟨first, hfirst hij, .inl ⟨rfl, rfl⟩⟩
      · rcases h.earlier ⟨hij, hi, hj⟩ with ⟨k, hk, hik⟩ | ⟨k, hk, hkj⟩
        · exact .inl ⟨k, hk, .inr hik⟩
        · exact .inr ⟨k, hk, .inr hkj⟩

end Settled

/-! ## The window -/

/-- Whether a position of the second text lies in the window of one of the first. -/
def InWindow (r : Int) (i j : Nat) : Prop :=
  (i : Int) - r ≤ j ∧ (j : Int) < i + r

theorem inWindow_iff {r : Int} {i j n : Nat} (hj : j < n) :
    windowStart r i ≤ j ∧ j < windowStop r i n ↔ InWindow r i j := by
  rw [windowStart, windowStop, InWindow]
  omega

/-! ## The first free partner -/

/-- Whether `c` finds a free partner at a position in a window, where the lists begin with
position `k`. -/
structure FreeAt (c : Char) (start stop k : Nat) (xs : List Char) (taken : List Bool) (j : Nat) :
    Prop where
  start_le : start ≤ j
  lt_stop : j < stop
  le : k ≤ j
  free : taken[j - k]? = some false
  same : xs[j - k]? = some c

variable {c : Char} {start stop k : Nat} {xs : List Char} {taken : List Bool}

theorem freeAt_cons {x : Char} {t : Bool} {j : Nat} :
    FreeAt c start stop k (x :: xs) (t :: taken) j ↔
      (j = k ∧ start ≤ k ∧ k < stop ∧ t = false ∧ x = c) ∨
        FreeAt c start stop (k + 1) xs taken j := by
  constructor
  · intro h
    rcases Nat.lt_or_eq_of_le h.le with hlt | rfl
    · have hshift : j - k = j - (k + 1) + 1 := by omega
      have hfree := h.free
      have hsame := h.same
      rw [hshift, List.getElem?_cons_succ] at hfree hsame
      exact .inr ⟨h.start_le, h.lt_stop, hlt, hfree, hsame⟩
    · have hfree := h.free
      have hsame := h.same
      rw [Nat.sub_self, List.getElem?_cons_zero, Option.some_inj] at hfree hsame
      exact .inl ⟨rfl, h.start_le, h.lt_stop, hfree, hsame⟩
  · rintro (⟨rfl, hstart, hstop, rfl, rfl⟩ | h)
    · exact ⟨hstart, hstop, Nat.le_refl _, by simp, by simp⟩
    · have hle := h.le
      have hshift : j - k = j - (k + 1) + 1 := by omega
      refine ⟨h.start_le, h.lt_stop, by omega, ?_, ?_⟩
      · rw [hshift, List.getElem?_cons_succ]
        exact h.free
      · rw [hshift, List.getElem?_cons_succ]
        exact h.same

theorem freeAt_of_partner? {j : Nat} (h : partner? c start stop k xs taken = some j) :
    FreeAt c start stop k xs taken j := by
  fun_induction partner? c start stop k xs taken with
  | case1 => cases h
  | case2 k x xs t taken hstop hfound =>
      cases h
      simp only [Bool.and_eq_true, decide_eq_true_eq, Bool.not_eq_true', beq_iff_eq] at hfound
      exact freeAt_cons.mpr (.inl ⟨rfl, hfound.1.1, by omega, hfound.1.2, hfound.2⟩)
  | case3 k x xs t taken hstop hfound ih => exact freeAt_cons.mpr (.inr (ih h))
  | case4 => cases h

theorem exists_partner?_le {j : Nat} (h : FreeAt c start stop k xs taken j) :
    ∃ i ≤ j, partner? c start stop k xs taken = some i := by
  fun_induction partner? c start stop k xs taken with
  | case1 k x xs t taken hstop =>
      have hle := h.le
      have hlt := h.lt_stop
      omega
  | case2 k x xs t taken hstop hfound => exact ⟨k, h.le, rfl⟩
  | case3 k x xs t taken hstop hfound ih =>
      rcases freeAt_cons.mp h with ⟨rfl, hstart, -, rfl, rfl⟩ | h
      · exact absurd (by simp [hstart]) hfound
      · exact ih h
  | case4 xs k taken hnil =>
      cases xs with
      | nil => cases h.same
      | cons x xs =>
          cases taken with
          | nil => cases h.free
          | cons t taken => exact absurd rfl (hnil x xs t taken rfl)

/-! ## The pairs of partners -/

/-- The partners that the characters from position `i` on find. -/
def partnersFrom (r : Int) (s2 : List Char) :
    (i : Nat) → List Char → (taken : List Bool) → List (Nat × Nat)
  | _, [], _ => []
  | i, c :: cs, taken =>
    match partner? c (windowStart r i) (windowStop r i s2.length) 0 s2 taken with
    | some j => (i, j) :: partnersFrom r s2 (i + 1) cs (taken.set j true)
    | none => partnersFrom r s2 (i + 1) cs taken

def partners (s1 s2 : List Char) : List (Nat × Nat) :=
  partnersFrom (radius s1.length s2.length) s2 0 s1 (List.replicate s2.length false)

/-- Whether two positions may be partners: the one lies in the window of the other, and they hold the
same character. -/
def MayBePartners (r : Int) (s1 s2 : List Char) (i j : Nat) : Prop :=
  InWindow r i j ∧ ∃ c, s1[i]? = some c ∧ s2[j]? = some c

/-- Whether two positions may be partners when the first text begins with position `start` and some
positions of the second are taken. -/
def MayStillBePartners (r : Int) (s2 : List Char) (start : Nat) (cs : List Char)
    (taken : List Bool) (i j : Nat) : Prop :=
  start ≤ i ∧ taken[j]? = some false ∧ InWindow r i j ∧
    ∃ c, cs[i - start]? = some c ∧ s2[j]? = some c

section

variable {r : Int} {s2 : List Char} {start : Nat} {cs : List Char} {i j : Nat}

theorem mayStillBePartners_start :
    MayStillBePartners r s2 start (c :: cs) taken start j ↔
      FreeAt c (windowStart r start) (windowStop r start s2.length) 0 s2 taken j := by
  constructor
  · rintro ⟨-, hfree, hwindow, d, hd, hsame⟩
    rw [Nat.sub_self, List.getElem?_cons_zero, Option.some_inj] at hd
    obtain ⟨hlength, -⟩ := List.getElem?_eq_some_iff.mp hsame
    obtain ⟨hstart, hstop⟩ := (inWindow_iff hlength).mpr hwindow
    exact ⟨hstart, hstop, Nat.zero_le j, hfree, hd ▸ hsame⟩
  · intro h
    obtain ⟨hlength, -⟩ := List.getElem?_eq_some_iff.mp h.same
    exact ⟨Nat.le_refl start, h.free, (inWindow_iff hlength).mp ⟨h.start_le, h.lt_stop⟩, c,
      by simp, h.same⟩

theorem mayStillBePartners_later (hne : i ≠ start) :
    MayStillBePartners r s2 start (c :: cs) taken i j ↔
      MayStillBePartners r s2 (start + 1) cs taken i j := by
  by_cases hle : start + 1 ≤ i
  · have hshift : i - start = i - (start + 1) + 1 := by omega
    rw [MayStillBePartners, MayStillBePartners, hshift, List.getElem?_cons_succ]
    simp [hle, Nat.le_of_succ_le hle]
  · constructor
    · rintro ⟨hstart, -⟩
      omega
    · rintro ⟨hstart, -⟩
      exact absurd hstart hle

theorem mayStillBePartners_set {k : Nat} :
    MayStillBePartners r s2 start cs (taken.set k true) i j ↔
      MayStillBePartners r s2 start cs taken i j ∧ j ≠ k := by
  rw [MayStillBePartners, MayStillBePartners, List.getElem?_set]
  by_cases h : k = j
  · subst h
    simp
  · simp [h, Ne.symm h]

/-- The search gives the first position its first possible partner and goes on without both. -/
theorem settled_partnersFrom (r : Int) (s2 : List Char) (start : Nat) (cs : List Char)
    (taken : List Bool) :
    Settled (MayStillBePartners r s2 start cs taken)
      (fun i j => (i, j) ∈ partnersFrom r s2 start cs taken) := by
  fun_induction partnersFrom r s2 start cs taken with
  | case1 start taken =>
      refine ⟨nofun, nofun, nofun, ?_⟩
      rintro i j ⟨-, -, -, c, hc, -⟩
      cases hc
  | case2 start c cs taken k hk ih =>
      have hfree := freeAt_of_partner? hk
      have hcons : Settled (MayStillBePartners r s2 start (c :: cs) taken) fun i j =>
          i = start ∧ j = k ∨ (i, j) ∈ partnersFrom r s2 (start + 1) cs (taken.set k true) := by
        refine .cons (fun h => h.1) (mayStillBePartners_start.mpr hfree) ?_ (ih.congr ?_)
        · intro j hj
          obtain ⟨i, hi, hsome⟩ := exists_partner?_le (mayStillBePartners_start.mp hj)
          rw [hk, Option.some_inj] at hsome
          omega
        · intro i j
          rw [mayStillBePartners_set]
          constructor
          · rintro ⟨hmay, hne, hj⟩
            exact ⟨(mayStillBePartners_later hne).mp hmay, hj⟩
          · rintro ⟨hmay, hj⟩
            have hne : i ≠ start := by
              have hstart := hmay.1
              omega
            exact ⟨(mayStillBePartners_later hne).mpr hmay, hne, hj⟩
      simpa using hcons
  | case3 start c cs taken hnone ih =>
      -- The first position has no partner left, so that leaving it out forbids nothing.
      refine ih.congr fun i j => ?_
      by_cases hi : i = start
      · subst hi
        constructor
        · intro h
          obtain ⟨k, -, hk⟩ := exists_partner?_le (mayStillBePartners_start.mp h)
          rw [hnone] at hk
          cases hk
        · rintro ⟨hstart, -⟩
          omega
      · exact mayStillBePartners_later hi

end

/-- The search for partners settles the matching. -/
theorem settled_partners (s1 s2 : List Char) :
    Settled (MayBePartners (radius s1.length s2.length) s1 s2)
      (fun i j => (i, j) ∈ partners s1 s2) := by
  refine (settled_partnersFrom _ s2 0 s1 _).congr fun i j => ?_
  constructor
  · rintro ⟨hwindow, c, hi, hj⟩
    obtain ⟨hlength, -⟩ := List.getElem?_eq_some_iff.mp hj
    exact ⟨Nat.zero_le i, by simp [hlength], hwindow, c, hi, hj⟩
  · rintro ⟨-, -, hwindow, hc⟩
    exact ⟨hwindow, hc⟩

/-! ## The marks of partners -/

theorem length_first_marksFrom (r : Int) (s2 : List Char) (start : Nat) (cs : List Char)
    (taken : List Bool) : (marksFrom r s2 start cs taken).first.length = cs.length := by
  fun_induction marksFrom r s2 start cs taken with
  | case1 => rfl
  | case2 start c cs taken k hk rest ih => exact congrArg (· + 1) ih
  | case3 start c cs taken hnone rest ih => exact congrArg (· + 1) ih

theorem length_second_marksFrom (r : Int) (s2 : List Char) (start : Nat) (cs : List Char)
    (taken : List Bool) : (marksFrom r s2 start cs taken).second.length = taken.length := by
  fun_induction marksFrom r s2 start cs taken with
  | case1 => rfl
  | case2 start c cs taken k hk rest ih => exact ih.trans List.length_set
  | case3 start c cs taken hnone rest ih => exact ih

theorem first_marksFrom {r : Int} {s2 : List Char} {start : Nat} {cs : List Char}
    {taken : List Bool} {k : Nat} :
    (marksFrom r s2 start cs taken).first[k]? = some true ↔
      ∃ j, (start + k, j) ∈ partnersFrom r s2 start cs taken := by
  induction cs generalizing start taken k with
  | nil => simp [marksFrom, partnersFrom]
  | cons c cs ih =>
      have hlater : ∀ taken j, (start, j) ∉ partnersFrom r s2 (start + 1) cs taken := by
        intro taken j hmem
        have hstart := ((settled_partnersFrom r s2 (start + 1) cs taken).may_of_partners hmem).1
        omega
      rw [marksFrom, partnersFrom]
      cases partner? c (windowStart r start) (windowStop r start s2.length) 0 s2 taken
      all_goals
        cases k with
        | zero => simp [hlater]
        | succ k => simp [ih, Nat.add_assoc, Nat.add_comm 1 k]

theorem second_marksFrom {r : Int} {s2 : List Char} {start : Nat} {cs : List Char}
    {taken : List Bool} {j : Nat} :
    (marksFrom r s2 start cs taken).second[j]? = some true ↔
      taken[j]? = some true ∨ ∃ i, (i, j) ∈ partnersFrom r s2 start cs taken := by
  induction cs generalizing start taken with
  | nil => simp [marksFrom, partnersFrom]
  | cons c cs ih =>
      rw [marksFrom, partnersFrom]
      cases hpartner : partner? c (windowStart r start) (windowStop r start s2.length) 0 s2 taken with
      | none => exact ih
      | some k =>
          obtain ⟨hk, -⟩ := List.getElem?_eq_some_iff.mp (freeAt_of_partner? hpartner).free
          rw [Nat.sub_zero] at hk
          by_cases hj : k = j
          · subst hj
            simp [ih, hk]
          · simp [ih, hj, Ne.symm hj]

theorem count_first_marksFrom (r : Int) (s2 : List Char) (start : Nat) (cs : List Char)
    (taken : List Bool) :
    (marksFrom r s2 start cs taken).first.count true =
      (partnersFrom r s2 start cs taken).length := by
  induction cs generalizing start taken with
  | nil => rfl
  | cons c cs ih =>
      rw [marksFrom, partnersFrom]
      cases partner? c (windowStart r start) (windowStop r start s2.length) 0 s2 taken with
      | none => simp [ih]
      | some k => simp [ih]

theorem count_second_marksFrom (r : Int) (s2 : List Char) (start : Nat) (cs : List Char)
    (taken : List Bool) :
    (marksFrom r s2 start cs taken).second.count true =
      taken.count true + (partnersFrom r s2 start cs taken).length := by
  induction cs generalizing start taken with
  | nil => rfl
  | cons c cs ih =>
      rw [marksFrom, partnersFrom]
      cases hpartner : partner? c (windowStart r start) (windowStop r start s2.length) 0 s2 taken with
      | none => exact ih (start + 1) taken
      | some k =>
          obtain ⟨hk, hfree⟩ := List.getElem?_eq_some_iff.mp (freeAt_of_partner? hpartner).free
          have hset : (taken.set k true).count true = taken.count true + 1 := by
            simp only [Nat.sub_zero] at hk hfree
            simp [List.count_set hk, hfree]
          rw [ih, hset, List.length_cons, Nat.add_right_comm, Nat.add_assoc]

/-! ## The marks of two texts -/

section

variable {s1 s2 : List Char} {i j : Nat}

theorem length_first_marks (s1 s2 : List Char) : (marks s1 s2).first.length = s1.length :=
  length_first_marksFrom _ s2 0 s1 _

theorem length_second_marks (s1 s2 : List Char) : (marks s1 s2).second.length = s2.length :=
  (length_second_marksFrom _ s2 0 s1 _).trans List.length_replicate

theorem first_marks : (marks s1 s2).first[i]? = some true ↔ ∃ j, (i, j) ∈ partners s1 s2 := by
  rw [marks, first_marksFrom, Nat.zero_add, partners]

theorem second_marks : (marks s1 s2).second[j]? = some true ↔ ∃ i, (i, j) ∈ partners s1 s2 := by
  rw [marks, second_marksFrom, partners]
  simp [List.getElem?_replicate]

theorem count_second_marks (s1 s2 : List Char) :
    (marks s1 s2).second.count true = (marks s1 s2).common := by
  rw [Marks.common, marks, count_first_marksFrom, count_second_marksFrom]
  simp [List.count_replicate]

theorem common_eq (s1 s2 : List Char) : (marks s1 s2).common = (partners s1 s2).length :=
  count_first_marksFrom _ s2 0 s1 _

theorem common_pos (h : MayBePartners (radius s1.length s2.length) s1 s2 i j) :
    0 < (marks s1 s2).common := by
  rw [common_eq]
  rcases (settled_partners s1 s2).earlier h with ⟨k, -, hk⟩ | ⟨k, -, hk⟩
  all_goals exact List.length_pos_of_mem hk

theorem eq_of_marked {marks marks' : List Bool} (hlength : marks.length = marks'.length)
    (h : ∀ k : Nat, marks[k]? = some true ↔ marks'[k]? = some true) : marks = marks' := by
  refine List.ext_getElem hlength fun k hk hk' => ?_
  have hmarked := h k
  rw [List.getElem?_eq_getElem hk, List.getElem?_eq_getElem hk', Option.some_inj,
    Option.some_inj] at hmarked
  exact Bool.eq_iff_iff.mpr hmarked

end

/-- The marks as they are seen from the other text. -/
def Marks.swap (m : Marks) : Marks :=
  ⟨m.second, m.first⟩

/-- Both directions give the same marks when they find the same partners. -/
theorem marks_swap {s1 s2 : List Char}
    (h : ∀ i j, (i, j) ∈ partners s1 s2 ↔ (j, i) ∈ partners s2 s1) :
    (marks s1 s2).swap = marks s2 s1 := by
  have hfirst : (marks s1 s2).second = (marks s2 s1).first := by
    refine eq_of_marked ?_ fun k => ?_
    · rw [length_second_marks, length_first_marks]
    · rw [second_marks, first_marks]
      exact exists_congr fun i => h i k
  have hsecond : (marks s1 s2).first = (marks s2 s1).second := by
    refine eq_of_marked ?_ fun k => ?_
    · rw [length_second_marks, length_first_marks]
    · rw [second_marks, first_marks]
      exact exists_congr fun j => h k j
  rw [Marks.swap, hfirst, hsecond]

/-! ## Marked and unmarked characters -/

theorem length_select {s : List Char} {marks : List Bool} (h : s.length = marks.length)
    (mark : Bool) : (select mark s marks).length = marks.count mark := by
  induction s generalizing marks with
  | nil =>
      cases marks with
      | nil => rfl
      | cons => cases h
  | cons c s ih =>
      cases marks with
      | nil => cases h
      | cons t marks =>
          have htail := ih (Nat.succ.inj h)
          simp only [select, List.length_map] at htail
          by_cases ht : t = mark <;> simp [select, ht, htail]

/-- No character is unmarked when as many are marked as there are. -/
theorem select_false_eq_nil {s : List Char} {marks : List Bool} (h : s.length = marks.length)
    (hall : marks.count true = s.length) : select false s marks = [] := by
  have hlength := length_select h false
  have hcount := List.count_false_add_count_true marks
  exact List.eq_nil_of_length_eq_zero (by omega)

end Linkage.Similarity
