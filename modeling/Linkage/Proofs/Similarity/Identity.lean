import Linkage.Proofs.Similarity.Score

/-
# Equal texts

In a text of at least four characters every character lies in its own window, and as the search goes
along the text it finds every character still free: equal texts are matched position by position.
Shorter texts have empty windows and nothing in common.

The converse asks for more than counts.  Without adjustments the similarity is 1 when all characters
of both texts have partners and the number of places in which these disagree is halved to 0, so that
there may be one such place.  But partners hold the same character, so that the texts have the same
characters, and two texts of which this is true do not differ in one place alone.
-/

namespace Linkage.Similarity

open scoped List

/-! ## A text and itself -/

section

variable {s : List Char} (h : 4 ≤ s.length)
include h

theorem radius_pos : 0 < radius s.length s.length := by
  rw [radius]
  omega

/-- To match every position with itself leaves no earlier partner to be found. -/
theorem settled_self : Settled (MayBePartners (radius s.length s.length) s s)
    (fun i j => i = j ∧ i < s.length) where
  may_of_partners := by
    rintro i j ⟨rfl, hi⟩
    have hradius := radius_pos h
    exact ⟨⟨by omega, by omega⟩, s[i], List.getElem?_eq_getElem hi, List.getElem?_eq_getElem hi⟩
  second_unique := by
    rintro i j k ⟨rfl, -⟩ ⟨rfl, -⟩
    rfl
  first_unique := by
    rintro i j k ⟨rfl, -⟩ ⟨rfl, -⟩
    rfl
  earlier := by
    rintro i j ⟨-, c, hi, hj⟩
    obtain ⟨hi, -⟩ := List.getElem?_eq_some_iff.mp hi
    obtain ⟨hj, -⟩ := List.getElem?_eq_some_iff.mp hj
    rcases Nat.le_total i j with hle | hle
    · exact .inl ⟨i, hle, rfl, hi⟩
    · exact .inr ⟨j, hle, rfl, hj⟩

theorem common_self : (marks s s).common = s.length := by
  have hall : ∀ mark ∈ (marks s s).first, true = mark := by
    intro mark hmark
    obtain ⟨i, hi, rfl⟩ := List.mem_iff_getElem.mp hmark
    have hself : (i, i) ∈ partners s s :=
      ((settled_partners s s).unique (settled_self h) i i).mpr
        ⟨rfl, length_first_marks s s ▸ hi⟩
    have hmarked := first_marks.mpr ⟨i, hself⟩
    rw [List.getElem?_eq_getElem hi, Option.some_inj] at hmarked
    exact hmarked.symm
  rw [Marks.common, List.count_eq_length.mpr hall, length_first_marks]

end

/-- Texts of less than four characters have nothing in common. -/
theorem common_of_short {s1 s2 : List Char} (h1 : s1.length < 4) (h2 : s2.length < 4) :
    (marks s1 s2).common = 0 := by
  rw [common_eq, List.length_eq_zero_iff, List.eq_nil_iff_forall_not_mem]
  rintro ⟨i, j⟩ hij
  obtain ⟨⟨hstart, hstop⟩, -⟩ := (settled_partners s1 s2).may_of_partners hij
  rw [radius] at hstart hstop
  omega

/-! ## Partners hold the same character -/

theorem select_cons (mark t : Bool) (c : Char) (s : List Char) (marks : List Bool) :
    select mark (c :: s) (t :: marks) =
      if t = mark then c :: select mark s marks else select mark s marks := by
  by_cases ht : t = mark <;> simp [select, ht]

/-- Marking one more character selects it. -/
theorem select_set_perm {s : List Char} {taken : List Bool} {k : Nat} {c : Char}
    (hsame : s[k]? = some c) (hfree : taken[k]? = some false) :
    select true s (taken.set k true) ~ c :: select true s taken := by
  induction s generalizing taken k with
  | nil => cases hsame
  | cons d s ih =>
      cases taken with
      | nil => cases hfree
      | cons t taken =>
          cases k with
          | zero =>
              obtain rfl := Option.some.inj hsame
              obtain rfl := Option.some.inj hfree
              simp [select_cons]
          | succ k =>
              have hrest := ih hsame hfree
              rw [List.set_cons_succ, select_cons, select_cons]
              split
              · exact (hrest.cons d).trans (.swap c d _)
              · exact hrest

/-- The characters that the search marks in both texts are the same, besides those that were taken
before. -/
theorem select_marksFrom_perm (r : Int) (s2 : List Char) (start : Nat) (cs : List Char)
    (taken : List Bool) :
    select true s2 (marksFrom r s2 start cs taken).second ~
      select true cs (marksFrom r s2 start cs taken).first ++ select true s2 taken := by
  fun_induction marksFrom r s2 start cs taken with
  | case1 start taken => exact .refl _
  | case2 start c cs taken k hk rest ih =>
      have hfree := freeAt_of_partner? hk
      have hset := select_set_perm hfree.same hfree.free
      rw [Nat.sub_zero] at hset
      rw [select_cons, if_pos rfl, List.cons_append]
      calc select true s2 rest.second
          ~ select true cs rest.first ++ select true s2 (taken.set k true) := ih
        _ ~ select true cs rest.first ++ c :: select true s2 taken := hset.append_left _
        _ ~ c :: (select true cs rest.first ++ select true s2 taken) := List.perm_middle
  | case3 start c cs taken hnone rest ih => simpa [select_cons] using ih

theorem select_replicate_false (s : List Char) :
    select true s (List.replicate s.length false) = [] := by
  induction s with
  | nil => rfl
  | cons c s ih => rw [List.length_cons, List.replicate_succ, select_cons, if_neg nofun, ih]

/-- The marked characters of the one text are those of the other, in another order. -/
theorem select_marks_perm (s1 s2 : List Char) :
    select true s2 (marks s1 s2).second ~ select true s1 (marks s1 s2).first := by
  have hmarks := select_marksFrom_perm (radius s1.length s2.length) s2 0 s1
    (List.replicate s2.length false)
  rwa [select_replicate_false, List.append_nil] at hmarks

/-! ## Texts of which all characters have partners -/

theorem select_true_eq_self {s : List Char} {marks : List Bool} (h : s.length = marks.length)
    (hall : marks.count true = s.length) : select true s marks = s := by
  have hlength := (length_select h true).trans hall
  have hsub : select true s marks <+ s := by
    have hzip : (((s.zip marks).filter fun p => p.2 == true).map Prod.fst) <+
        (s.zip marks).map Prod.fst := List.filter_sublist.map _
    rwa [List.map_fst_zip h.le] at hzip
  exact hsub.eq_of_length hlength

section

variable {s1 s2 : List Char} (h1 : (marks s1 s2).common = s1.length)
  (h2 : (marks s1 s2).common = s2.length)
include h1 h2

theorem transposed_of_all :
    (marks s1 s2).transposed s1 s2 = (s1.zip s2).countP (fun p => p.1 != p.2) / 2 := by
  have hsecond := (count_second_marks s1 s2).trans h2
  rw [Marks.transposed, select_true_eq_self (length_first_marks s1 s2).symm h1,
    select_true_eq_self (length_second_marks s1 s2).symm hsecond]

theorem perm_of_all : s1 ~ s2 := by
  have hsecond := (count_second_marks s1 s2).trans h2
  have hmarked := select_marks_perm s1 s2
  rw [select_true_eq_self (length_first_marks s1 s2).symm h1,
    select_true_eq_self (length_second_marks s1 s2).symm hsecond] at hmarked
  exact hmarked.symm

end

theorem countP_zip_ne_self (s : List Char) : (s.zip s).countP (fun p => p.1 != p.2) = 0 := by
  induction s with
  | nil => rfl
  | cons c s ih => simp [ih]

theorem eq_of_countP_zip_ne_eq_zero {s1 s2 : List Char} (hlength : s1.length = s2.length)
    (h : (s1.zip s2).countP (fun p => p.1 != p.2) = 0) : s1 = s2 := by
  induction s1 generalizing s2 with
  | nil => exact (List.eq_nil_of_length_eq_zero hlength.symm).symm
  | cons c s1 ih =>
      cases s2 with
      | nil => cases hlength
      | cons d s2 =>
          rw [List.zip_cons_cons, List.countP_cons] at h
          have hsame : c = d := by
            by_contra hne
            simp [hne] at h
          rw [hsame, ih (Nat.succ.inj hlength) (by omega)]

/-- Texts with the same characters do not differ in one place alone. -/
theorem eq_of_perm_of_countP_zip_ne_le_one {s1 s2 : List Char} (hperm : s1 ~ s2)
    (h : (s1.zip s2).countP (fun p => p.1 != p.2) ≤ 1) : s1 = s2 := by
  induction s1 generalizing s2 with
  | nil => exact hperm.nil_eq
  | cons c s1 ih =>
      cases s2 with
      | nil => cases hperm.length_eq
      | cons d s2 =>
          rw [List.zip_cons_cons, List.countP_cons] at h
          by_cases hsame : c = d
          · subst hsame
            rw [ih hperm.cons_inv (Nat.le_of_add_right_le h)]
          · -- The rest agrees then, and the first characters must be the same ones, too.
            rw [if_pos (by simpa using hsame)] at h
            have hrest := eq_of_countP_zip_ne_eq_zero (Nat.succ.inj hperm.length_eq)
              (Nat.le_zero.mp (Nat.le_of_succ_le_succ h))
            subst hrest
            have hcount := hperm.count_eq c
            simp [Ne.symm hsame] at hcount

/-! ## When the similarity is 1 -/

namespace Counts

variable {n : Counts}

/-- When one of the texts has no other characters, only the common ones count. -/
theorem Sound.credited_of_all (h : n.Sound) (hall : n.minLength ≤ n.common) (a : Adjustments) :
    (n.credited a : ℝ) = n.common := by
  simp [credited_eq, h.similar_eq_zero hall]

/-- Without lookalikes every share is at most 1, so that all of them are 1 when their mean is. -/
theorem Sound.mean_common_eq_one_iff (h : n.Sound) (hcommon : 0 < n.common) :
    n.mean (n.common : ℝ) = 1 ↔
      n.common = n.length1 ∧ n.common = n.length2 ∧ n.transposed = 0 := by
  obtain ⟨hfirst, hsecond⟩ := h.length_pos hcommon
  have hle1 : n.common ≤ n.length1 := Nat.le_of_add_right_le h.common_add_similar_le
  have hle : n.transposed ≤ n.common := by
    have htwo := h.two_mul_transposed_le
    omega
  have hc : (0 : ℝ) < n.common := Nat.cast_pos.mpr hcommon
  have h1 : (0 : ℝ) < n.length1 := Nat.cast_pos.mpr hfirst
  have h2 : (0 : ℝ) < n.length2 := Nat.cast_pos.mpr hsecond
  have hshare1 : (n.common : ℝ) / n.length1 ≤ 1 := (div_le_one h1).mpr (Nat.cast_le.mpr hle1)
  have hshare2 : (n.common : ℝ) / n.length2 ≤ 1 := (div_le_one h2).mpr (Nat.cast_le.mpr h.common_le)
  have horder : ((n.common - n.transposed : ℕ) : ℝ) / n.common ≤ 1 :=
    (div_le_one hc).mpr (Nat.cast_le.mpr (Nat.sub_le _ _))
  rw [mean_eq]
  constructor
  · intro hmean
    have hall1 : (n.common : ℝ) / n.length1 = 1 := by linarith
    have hall2 : (n.common : ℝ) / n.length2 = 1 := by linarith
    have hall : ((n.common - n.transposed : ℕ) : ℝ) / n.common = 1 := by linarith
    rw [div_eq_one_iff_eq h1.ne', Nat.cast_inj] at hall1
    rw [div_eq_one_iff_eq h2.ne', Nat.cast_inj] at hall2
    rw [div_eq_one_iff_eq hc.ne', Nat.cast_inj] at hall
    exact ⟨hall1, hall2, by omega⟩
  · rintro ⟨hall1, hall2, htransposed⟩
    rw [← hall1, ← hall2, htransposed, Nat.sub_zero, div_self hc.ne']
    norm_num

end Counts

/-- A similarity is 1 just if its base is. -/
theorem ofCredited_eq_one_iff (a : Adjustments) (s1 s2 : List Char) :
    (ofCredited a s1 s2 : ℝ) = 1 ↔
      let n := Counts.ofTexts s1 s2
      0 < n.common ∧ n.mean (n.credited a : ℝ) = 1 := by
  rw [ofCredited]
  split
  case isTrue hcommon => simp [hcommon]
  case isFalse hcommon =>
    have hraised := (raise_ofTexts_strictMono a s1 s2).injective.eq_iff
      (a := (Counts.ofTexts s1 s2).mean ((Counts.ofTexts s1 s2).credited a : ℝ)) (b := 1)
    rw [Counts.raise_one] at hraised
    simp [Nat.pos_of_ne_zero hcommon, hraised]

theorem ofCredited_self {s : List Char} (h : 4 ≤ s.length) (a : Adjustments) :
    (ofCredited a s s : ℝ) = 1 := by
  have hsound := sound_ofTexts s s
  have hcommon : (Counts.ofTexts s s).common = s.length := common_self h
  have hpos : 0 < (Counts.ofTexts s s).common := by omega
  have htransposed : (Counts.ofTexts s s).transposed = 0 := by
    have hall : (Counts.ofTexts s s).transposed = _ := transposed_of_all hcommon hcommon
    rw [hall, countP_zip_ne_self]
  rw [ofCredited_eq_one_iff]
  refine ⟨hpos, ?_⟩
  rw [hsound.credited_of_all ((Nat.min_le_left _ _).trans hcommon.ge)]
  exact (hsound.mean_common_eq_one_iff hpos).mpr ⟨hcommon, hcommon, htransposed⟩

theorem eq_of_ofCredited_eq_one {s1 s2 : List Char} (h : (ofCredited .none s1 s2 : ℝ) = 1) :
    s1 = s2 := by
  have hsound := sound_ofTexts s1 s2
  obtain ⟨hpos, hmean⟩ := (ofCredited_eq_one_iff _ _ _).mp h
  have hcredited : ((Counts.ofTexts s1 s2).credited .none : ℝ) = (Counts.ofTexts s1 s2).common := rfl
  rw [hcredited, hsound.mean_common_eq_one_iff hpos] at hmean
  obtain ⟨hall1, hall2, htransposed⟩ := hmean
  have hhalf : (s1.zip s2).countP (fun p => p.1 != p.2) / 2 = 0 :=
    (transposed_of_all hall1 hall2).symm.trans htransposed
  exact eq_of_perm_of_countP_zip_ne_le_one (perm_of_all hall1 hall2) (by omega)

/-- Equal texts of at least four characters have similarity 1 and two shorter ones have similarity 0,
whatever is adjusted.  Without adjustments no other texts have similarity 1. -/
theorem similarity_eq_one_iff (s1 s2 : String) :
    (normalize s1 = normalize s2 → 4 ≤ (normalize s1).length →
        ∀ a, (similarity a s1 s2 : ℝ) = 1) ∧
      ((normalize s1).length < 4 → (normalize s2).length < 4 →
        ∀ a, (similarity a s1 s2 : ℝ) = 0) ∧
      ((similarity .none s1 s2 : ℝ) = 1 ↔
        normalize s1 = normalize s2 ∧ 4 ≤ (normalize s1).length) := by
  have hequal : normalize s1 = normalize s2 → 4 ≤ (normalize s1).length →
      ∀ a, (similarity a s1 s2 : ℝ) = 1 := by
    intro hsame hlength a
    rw [similarity_eq_ofCredited, ← hsame]
    exact ofCredited_self hlength a
  have hshort : (normalize s1).length < 4 → (normalize s2).length < 4 →
      ∀ a, (similarity a s1 s2 : ℝ) = 0 := by
    intro h1 h2 a
    rw [similarity_eq_ofCredited]
    exact if_pos (common_of_short h1 h2)
  refine ⟨hequal, hshort, ?_, fun h => hequal h.1 h.2 .none⟩
  intro hone
  have hsame : normalize s1 = normalize s2 :=
    eq_of_ofCredited_eq_one ((similarity_eq_ofCredited _ _ _).symm.trans hone)
  refine ⟨hsame, ?_⟩
  by_contra hless
  rw [hshort (by omega) (hsame ▸ by omega)] at hone
  exact zero_ne_one hone

/-- Letters that occur more than once are partners of themselves too. -/
theorem similarity_eq_one_annaHanna :
    normalize "Anna Hanna" = normalize " anna hanna " ∧ 4 ≤ (normalize "Anna Hanna").length ∧
      (similarity {} "Anna Hanna" " anna hanna " : ℝ) = 1 := by
  have hsame : normalize "Anna Hanna" = normalize " anna hanna " := by decide
  have hlength : 4 ≤ (normalize "Anna Hanna").length := by decide
  exact ⟨hsame, hlength, (similarity_eq_one_iff _ _).1 hsame hlength {}⟩

end Linkage.Similarity
