import Linkage.Proofs.Similarity.Score

/-
# The similarity seen from the other text

The similarity treats its two texts differently in three places: a window holds the position a radius
before its own and not the one a radius after it, lookalikes are counted in the first text, and the
length is rewarded when the first text begins alphabetically.  Each of them can make the similarity
depend on the order of the texts, and nothing else does.

The search itself has no side.  When neither direction finds partners that stand a whole radius
apart, both have settled the matching of the characters that stand less apart, and there is only
one such matching.
-/

namespace Linkage.Similarity

/-! ## Partners from either side -/

/-- Whether no character has a partner that stands a whole radius before it. -/
def OffEdge (s1 s2 : List Char) : Prop :=
  ∀ p ∈ partners s1 s2, (p.1 : Int) - p.2 ≠ radius s1.length s2.length

instance (s1 s2 : List Char) : Decidable (OffEdge s1 s2) :=
  inferInstanceAs (Decidable (∀ p ∈ partners s1 s2, _))

theorem radius_comm (m n : Nat) : radius m n = radius n m := by
  rw [radius, radius, Nat.max_comm]

variable {s1 s2 : List Char}

/-- Partners that do not stand a whole radius apart may also be partners from the other side. -/
theorem OffEdge.mayBePartners (h : OffEdge s1 s2) {i j : Nat} (hij : (i, j) ∈ partners s1 s2) :
    MayBePartners (radius s2.length s1.length) s2 s1 j i := by
  obtain ⟨⟨hstart, hstop⟩, c, hi, hj⟩ := (settled_partners s1 s2).may_of_partners hij
  have hedge : (i : Int) - j ≠ radius s1.length s2.length := h (i, j) hij
  rw [radius_comm s2.length]
  exact ⟨⟨by omega, by omega⟩, c, hj, hi⟩

/-- Whether two positions may be partners from either side. -/
def MayBePartnersBothWays (s1 s2 : List Char) (i j : Nat) : Prop :=
  MayBePartners (radius s1.length s2.length) s1 s2 i j ∧
    MayBePartners (radius s2.length s1.length) s2 s1 j i

theorem partners_swap (h : OffEdge s1 s2) (h' : OffEdge s2 s1) (i j : Nat) :
    (i, j) ∈ partners s1 s2 ↔ (j, i) ∈ partners s2 s1 := by
  -- What only one direction allows is not used by it, so that both settle what both allow.
  have hfirst := settled_partners s1 s2
  have hsecond := settled_partners s2 s1
  have hboth : Settled (MayBePartnersBothWays s1 s2) fun i j => (i, j) ∈ partners s1 s2 :=
    hfirst.forbid And.left fun hij => ⟨hfirst.may_of_partners hij, h.mayBePartners hij⟩
  have hboth' : Settled (MayBePartnersBothWays s1 s2) fun i j => (j, i) ∈ partners s2 s1 :=
    hsecond.swap.forbid And.right fun hij =>
      ⟨h'.mayBePartners hij, hsecond.may_of_partners hij⟩
  exact hboth.unique hboth' i j

/-! ## Counts from either side -/

theorem Marks.swap_transposed (m : Marks) (s1 s2 : List Char) :
    m.swap.transposed s2 s1 = m.transposed s1 s2 := by
  have hne : (fun p : Char × Char => p.1 != p.2) ∘ Prod.swap = fun p => p.1 != p.2 :=
    funext fun p => bne_comm
  rw [transposed, transposed, swap, ← List.zip_swap, List.countP_map, hne]

def Counts.swap (n : Counts) (similar : Nat) : Counts :=
  { n with length1 := n.length2, length2 := n.length1, similar := similar }

theorem ofTexts_swap (h : (marks s1 s2).swap = marks s2 s1) :
    Counts.ofTexts s2 s1 = (Counts.ofTexts s1 s2).swap (Counts.ofTexts s2 s1).similar := by
  have hcommon : (marks s2 s1).common = (marks s1 s2).common := by
    rw [← count_second_marks s1 s2, ← h]
    rfl
  have htransposed : (marks s2 s1).transposed s2 s1 = (marks s1 s2).transposed s1 s2 := by
    rw [← h, Marks.swap_transposed]
  simp only [Counts.ofTexts, Counts.swap, hcommon, htransposed]

theorem beginning_comm (limit : Nat) (s1 s2 : List Char) :
    beginning limit s1 s2 = beginning limit s2 s1 := by
  induction limit generalizing s1 s2 with
  | zero => simp [beginning]
  | succ limit ih =>
      cases s1 with
      | nil => cases s2 <;> rfl
      | cons c s1 =>
          cases s2 with
          | nil => rfl
          | cons d s2 =>
              rw [beginning, beginning, ih]
              by_cases hcd : c = d
              · rw [hcd]
              · simp [hcd, Ne.symm hcd]

namespace Counts

variable {n : Counts}

theorem minLength_swap (n : Counts) (similar : Nat) : (n.swap similar).minLength = n.minLength :=
  Nat.min_comm _ _

theorem mean_swap (n : Counts) (similar : Nat) (x : ℝ) : (n.swap similar).mean x = n.mean x := by
  rw [mean_eq, mean_eq, swap, add_comm (x / n.length2)]

theorem credited_swap {a : Adjustments} {similar : Nat}
    (h : a.similarCharacters = true → n.similar = similar) :
    ((n.swap similar).credited a : ℝ) = n.credited a := by
  rw [credited_eq, credited_eq]
  cases ha : a.similarCharacters with
  | false => rfl
  | true => rw [← h ha]; rfl

theorem isLong_swap (n : Counts) (similar shared : Nat) (alphabetic : Bool) :
    (n.swap similar).isLong shared alphabetic = n.isLong shared alphabetic := by
  rw [isLong, isLong, minLength_swap]
  rfl

theorem keptByLength_swap (n : Counts) (similar shared : Nat) :
    (n.swap similar).keptByLength shared = n.keptByLength shared := by
  rw [keptByLength, keptByLength, swap, Nat.add_comm n.length2]

theorem kept_swap {a : Adjustments} {alphabetic alphabetic' : Bool} (similar shared : Nat)
    (h : a.longTexts = true → alphabetic = alphabetic') :
    (n.swap similar).kept a shared alphabetic' = n.kept a shared alphabetic := by
  rw [kept, kept, keptWhen, keptWhen, keptByLength_swap, isLong_swap]
  cases ha : a.longTexts with
  | false => rfl
  | true => rw [h ha]

end Counts

/-! ## The similarity from either side -/

/-- The similarity does not depend on the order of the texts when neither direction finds partners
that stand a whole radius apart, both count as many lookalikes (if these are counted) and both texts
begin alphabetically or neither does (if length is rewarded).  Both directions find the same partners
then. -/
theorem similarity_comm {a : Adjustments} {s1 s2 : String}
    (hfirst : OffEdge (normalize s1) (normalize s2))
    (hsecond : OffEdge (normalize s2) (normalize s1))
    (hsimilar : a.similarCharacters = true →
      (Counts.ofTexts (normalize s1) (normalize s2)).similar =
        (Counts.ofTexts (normalize s2) (normalize s1)).similar)
    (halphabetic : a.longTexts = true →
      beginsAlphabetic (normalize s1) = beginsAlphabetic (normalize s2)) :
    (marks (normalize s1) (normalize s2)).swap = marks (normalize s2) (normalize s1) ∧
      (similarity a s1 s2 : ℝ) = similarity a s2 s1 := by
  have hmarks := marks_swap (partners_swap hfirst hsecond)
  refine ⟨hmarks, ?_⟩
  rw [similarity_eq_ofCredited, similarity_eq_ofCredited, ofCredited, ofCredited, ofTexts_swap hmarks,
    beginning_comm maxBeginning (normalize s2)]
  simp only [Counts.raise_eq, Counts.mean_swap, Counts.credited_swap hsimilar,
    Counts.kept_swap _ _ halphabetic]
  rfl

/-- Texts of different lengths in which two characters that are alike are left. -/
theorem similarity_comm_jones :
    OffEdge (normalize "Jones") (normalize "Johnson") ∧
      OffEdge (normalize "Johnson") (normalize "Jones") ∧
      (similarity {} "Jones" "Johnson" : ℝ) = similarity {} "Johnson" "Jones" := by
  have hfirst : OffEdge (normalize "Jones") (normalize "Johnson") := by decide
  have hsecond : OffEdge (normalize "Johnson") (normalize "Jones") := by decide
  have hcomm := similarity_comm (a := {}) hfirst hsecond (fun _ => by decide) fun _ => by decide
  exact ⟨hfirst, hsecond, hcomm.2⟩

/-- Each of the three places can make a difference.  For the first two names it is the window: O and
N of the shorter one have their partners a whole radius away.  The next two have as many characters in
common from either side but not as many lookalikes, and of the last two one begins with a digit. -/
theorem similarity_ne_comm :
    (similarity .none "Dixon" "Dickson" : ℝ) ≠ similarity .none "Dickson" "Dixon" ∧
      (similarity {} "Catherine" "Kathryn" : ℝ) ≠ similarity {} "Kathryn" "Catherine" ∧
      (similarity {} "Smith" "5mith" : ℝ) ≠ similarity {} "5mith" "Smith" := by
  refine ⟨?window, ?lookalikes, ?length⟩
  case window =>
    rw [similarity_of_counts _ ⟨5, 7, 2, 0, 1⟩ 2 true (by decide) (by decide) rfl rfl,
      similarity_of_counts _ ⟨7, 5, 4, 0, 2⟩ 2 true (by decide) (by decide) rfl rfl]
    norm_num [Counts.raise_eq, Counts.mean_eq, Counts.credited_eq, Counts.kept_eq, Adjustments.none]
  case lookalikes =>
    rw [similarity_of_counts _ ⟨9, 7, 5, 0, 4⟩ 0 true (by decide) (by decide) rfl rfl,
      similarity_of_counts _ ⟨7, 9, 5, 0, 2⟩ 0 true (by decide) (by decide) rfl rfl]
    norm_num [Counts.raise_eq, Counts.mean_eq, Counts.credited_eq, Counts.kept_eq]
  case length =>
    rw [similarity_of_counts _ ⟨5, 5, 4, 0, 1⟩ 0 true (by decide) (by decide) rfl rfl,
      similarity_of_counts _ ⟨5, 5, 4, 0, 1⟩ 0 false (by decide) (by decide) rfl rfl]
    norm_num [Counts.raise_eq, Counts.mean_eq, Counts.credited_eq, Counts.kept_eq]

end Linkage.Similarity
