import Linkage.Proofs.Similarity.Guarded
import Linkage.Proofs.Similarity.Identity

/-
# The common characters are a maximal matching

The marks say who has a partner and not who it is.  But partners are settled: nobody has two, so that
going from a marked position to its partner is a bijection onto the marked positions of the other
text.  And of two positions that may be partners one has a partner, so that no pair of unmarked
positions could be added.

The search counts its pairs while it writes the marks.  What it has counted in the end are the marks of
either text.
-/

namespace Linkage.Similarity

open scoped List

/-! ## Partners are paired -/

theorem Settled.exists_equiv {may partners : Nat → Nat → Prop} (h : Settled may partners)
    {first second : Nat → Prop} (hfirst : ∀ i, first i ↔ ∃ j, partners i j)
    (hsecond : ∀ j, second j ↔ ∃ i, partners i j) :
    ∃ pair : {i // first i} ≃ {j // second j}, ∀ i, partners i.1 (pair i).1 := by
  choose partner hpartner using fun i : {i // first i} => (hfirst i.1).mp i.2
  have hmarked : ∀ i, second (partner i) := fun i => (hsecond _).mpr ⟨i.1, hpartner i⟩
  refine ⟨Equiv.ofBijective (fun i => ⟨partner i, hmarked i⟩) ⟨?_, ?_⟩, hpartner⟩
  · intro i k hik
    have hsame : partner i = partner k := congrArg Subtype.val hik
    exact Subtype.ext (h.first_unique (hpartner i) (hsame ▸ hpartner k))
  · rintro ⟨j, hj⟩
    obtain ⟨i, hij⟩ := (hsecond j).mp hj
    have hi : first i := (hfirst i).mpr ⟨j, hij⟩
    exact ⟨⟨i, hi⟩, Subtype.ext (h.second_unique (hpartner ⟨i, hi⟩) hij)⟩

/-! ## Maximal matchings -/

/-- Whether position `j` of the second text lies in the window of position `i` of the first, from
its first position up to the one before its stop. -/
def Reaches (s1 s2 : List Char) (i j : Nat) : Prop :=
  let r := radius s1.length s2.length
  max ((i : Int) - r) 0 ≤ j ∧ (j : Int) < min ((i : Int) + r) s2.length

theorem mayBePartners_iff {s1 s2 : List Char} {i j : Nat} :
    MayBePartners (radius s1.length s2.length) s1 s2 i j ↔
      Reaches s1 s2 i j ∧ s1[i]? = s2[j]? := by
  constructor
  · rintro ⟨⟨hstart, hstop⟩, c, hi, hj⟩
    obtain ⟨hlength, -⟩ := List.getElem?_eq_some_iff.mp hj
    refine ⟨?_, hi.trans hj.symm⟩
    simp only [Reaches]
    omega
  · rintro ⟨hreach, hsame⟩
    simp only [Reaches] at hreach
    have hlength : j < s2.length := by omega
    have hj := List.getElem?_eq_getElem hlength
    exact ⟨⟨by omega, by omega⟩, s2[j], hsame.trans hj, hj⟩

/-- Marks and a count as a maximal matching leaves them: the marked positions of both texts are
paired, equal characters within reach of each other, there are as many pairs as are counted, and no
two unmarked positions could be a pair, too. -/
structure MaximallyMatched (s1 s2 : List Char) (m : Marks) (count : Nat) : Prop where
  length_first : m.first.length = s1.length
  length_second : m.second.length = s2.length
  count_first : m.first.count true = count
  count_second : m.second.count true = count
  paired : ∃ pair : {i // m.first[i]? = some true} ≃ {j // m.second[j]? = some true},
    ∀ i, Reaches s1 s2 i.1 (pair i).1 ∧ s1[i.1]? = s2[(pair i).1]?
  maximal : ∀ i j, m.first[i]? = some false → m.second[j]? = some false → Reaches s1 s2 i j →
    s1[i]? ≠ s2[j]?

theorem MaximallyMatched.count_le {s1 s2 : List Char} {m : Marks} {count : Nat}
    (h : MaximallyMatched s1 s2 m count) : count ≤ min s1.length s2.length := by
  refine Nat.le_min.mpr ⟨?_, ?_⟩
  · rw [← h.count_first, ← h.length_first]
    exact List.count_le_length
  · rw [← h.count_second, ← h.length_second]
    exact List.count_le_length

theorem maximallyMatched_marks (s1 s2 : List Char) :
    MaximallyMatched s1 s2 (marks s1 s2) (marks s1 s2).common where
  length_first := length_first_marks s1 s2
  length_second := length_second_marks s1 s2
  count_first := rfl
  count_second := count_second_marks s1 s2
  paired := by
    have hsettled := settled_partners s1 s2
    obtain ⟨pair, hpair⟩ :=
      hsettled.exists_equiv (fun _ => first_marks) (fun _ => second_marks)
    exact ⟨pair, fun i => mayBePartners_iff.mp (hsettled.may_of_partners (hpair i))⟩
  maximal := by
    intro i j hfirst hsecond hreach hsame
    rcases (settled_partners s1 s2).earlier (mayBePartners_iff.mpr ⟨hreach, hsame⟩) with
      ⟨k, -, hik⟩ | ⟨k, -, hkj⟩
    · cases hfirst.symm.trans (first_marks.mpr ⟨k, hik⟩)
    · cases hsecond.symm.trans (second_marks.mpr ⟨k, hkj⟩)

/-- The search for common characters ends with marks and a count that are a maximal matching.  So
no more characters are common than the shorter text has, the common characters of the one text are
those of the other in another order, and at most half of them are counted as out of order. -/
theorem matchAll_maximal (s1 s2 : List Char) :
    ∃ (m : Marks) (count : Nat),
      Guarded.matchAll s1.toArray s2.toArray =
        .ok ⟨m.first.toArray, m.second.toArray, count⟩ ∧
      m = marks s1 s2 ∧ count = m.common ∧
      MaximallyMatched s1 s2 m count ∧
      count ≤ min s1.length s2.length ∧
      select true s1 m.first ~ select true s2 m.second ∧
      (select true s1 m.first).length = count ∧ (select true s2 m.second).length = count ∧
      2 * m.transposed s1 s2 ≤ count := by
  have hmatched := maximallyMatched_marks s1 s2
  refine ⟨marks s1 s2, (marks s1 s2).common, Guarded.matchAll_eq s1 s2, rfl, rfl, hmatched,
    hmatched.count_le, (select_marks_perm s1 s2).symm, ?_, ?_,
    (sound_ofTexts s1 s2).two_mul_transposed_le⟩
  · exact (length_select hmatched.length_first.symm true).trans hmatched.count_first
  · exact (length_select hmatched.length_second.symm true).trans hmatched.count_second

/-- The `O` of the second text is in the window of no position that holds one: the window of
position 1 ends before it. -/
example : marks "JOHN".toList "JHON".toList =
    ⟨[true, false, true, true], [true, true, false, true]⟩ := by decide

end Linkage.Similarity
