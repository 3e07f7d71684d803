import Linkage.File

/-
# Texts and their bytes

The bytes of a text are those of its characters, one character after the other, and they are read
back as this text.  An ASCII character is one byte, and no other character has a byte below 128.  So
a byte with a meaning, such as one that ends a line, is found among the bytes of a text just where
its character is in the text.

A byte that goes on with a character is told from one that begins a character by its first two bits.
-/

namespace Linkage.Text

def encode (cs : List Char) : List UInt8 :=
  cs.flatMap String.utf8EncodeChar

@[simp] theorem encode_nil : encode [] = [] := rfl

theorem encode_cons (c : Char) (cs : List Char) :
    encode (c :: cs) = String.utf8EncodeChar c ++ encode cs := rfl

theorem encode_append (cs ds : List Char) : encode (cs ++ ds) = encode cs ++ encode ds :=
  List.flatMap_append

theorem encode_eq_nil_iff {cs : List Char} : encode cs = [] ↔ cs = [] := by
  cases cs with
  | nil => simp
  | cons c cs => simp [encode_cons]

theorem utf8_eq_encode (s : String) : utf8 s = encode s.toList := by
  rw [utf8, String.toUTF8, ← String.utf8Encode_toList, List.utf8Encode,
    List.toList_data_toByteArray]
  rfl

theorem ofUtf8?_encode (cs : List Char) : ofUtf8? (encode cs) = some (String.ofList cs) := by
  have hbytes : (⟨(encode cs).toArray⟩ : ByteArray) = (String.ofList cs).toByteArray := by
    rw [String.toByteArray_ofList, List.utf8Encode]
    refine ByteArray.ext (Array.toList_inj.mp ?_)
    rw [List.toList_data_toByteArray]
    rfl
  rw [ofUtf8?, hbytes, String.fromUTF8?, dif_pos (String.ofList cs).isValidUTF8]
  rfl

theorem ofUtf8?_utf8 (s : String) : ofUtf8? (utf8 s) = some s := by
  rw [utf8_eq_encode, ofUtf8?_encode, String.ofList_toList]

/-! ## Bytes with a meaning -/

/-- A byte that goes on with a character, and has six bits of its number. -/
def goesOn (m : Nat) : UInt8 :=
  UInt8.ofNat (m % 64 + 128)

/-- An ASCII character is one byte.  Of another one the first byte is at least 192, and the others go
on with it. -/
theorem utf8EncodeChar_shape (c : Char) :
    (c.val.toNat < 128 ∧ String.utf8EncodeChar c = [UInt8.ofNat c.val.toNat]) ∨
      (128 ≤ c.val.toNat ∧ ∃ (n : Nat) (ms : List Nat), 192 ≤ n ∧ n < 256 ∧
        String.utf8EncodeChar c = UInt8.ofNat n :: ms.map goesOn) := by
  rw [String.utf8EncodeChar]
  split
  case isTrue h => exact .inl ⟨by omega, rfl⟩
  case isFalse h =>
    refine .inr ⟨by omega, ?_⟩
    split
    case isTrue =>
      exact ⟨c.val.toNat / 64 % 32 + 192, [c.val.toNat], by omega, by omega, rfl⟩
    case isFalse =>
      split
      case isTrue =>
        exact ⟨c.val.toNat / 4096 % 16 + 224, [c.val.toNat / 64, c.val.toNat], by omega, by omega,
          rfl⟩
      case isFalse =>
        exact ⟨c.val.toNat / 262144 % 8 + 240,
          [c.val.toNat / 4096, c.val.toNat / 64, c.val.toNat], by omega, by omega, rfl⟩

theorem toNat_goesOn (m : Nat) : (goesOn m).toNat = m % 64 + 128 :=
  UInt8.toNat_ofNat_of_lt' (by change _ < 256; omega)

/-- The byte of an ASCII character is in no other character. -/
theorem eq_of_mem_utf8EncodeChar {c d : Char} (hd : d.val.toNat < 128)
    (h : UInt8.ofNat d.val.toNat ∈ String.utf8EncodeChar c) : c = d := by
  have hbyte : (UInt8.ofNat d.val.toNat).toNat = d.val.toNat :=
    UInt8.toNat_ofNat_of_lt' (Nat.lt_trans hd (by decide))
  rcases utf8EncodeChar_shape c with ⟨hc, hone⟩ | ⟨-, n, ms, hn, hn', hmore⟩
  · rw [hone, List.mem_singleton] at h
    have hval := congrArg UInt8.toNat h
    rw [hbyte, UInt8.toNat_ofNat_of_lt' (Nat.lt_trans hc (by decide))] at hval
    exact Char.ext (UInt32.toNat_inj.mp hval.symm)
  · rw [hmore, List.mem_cons, List.mem_map] at h
    rcases h with hfirst | ⟨m, -, hm⟩
    · have hval := congrArg UInt8.toNat hfirst
      rw [hbyte, UInt8.toNat_ofNat_of_lt' hn'] at hval
      omega
    · have hval := congrArg UInt8.toNat hm
      rw [hbyte, toNat_goesOn] at hval
      omega

/-- Whether a byte begins a character.  The others go on with one. -/
def beginsChar (b : UInt8) : Bool :=
  b.toNat < 128 || 192 ≤ b.toNat

theorem exists_utf8EncodeChar_eq (c : Char) : ∃ b bs, String.utf8EncodeChar c = b :: bs ∧
    beginsChar b = true ∧ ∀ x ∈ bs, beginsChar x = false := by
  rcases utf8EncodeChar_shape c with ⟨hc, hone⟩ | ⟨-, n, ms, hn, hn', hmore⟩
  · refine ⟨_, [], hone, ?_, nofun⟩
    rw [beginsChar, UInt8.toNat_ofNat_of_lt' (Nat.lt_trans hc (by decide)), decide_eq_true hc,
      Bool.true_or]
  · refine ⟨_, _, hmore, ?_, ?_⟩
    · rw [beginsChar, UInt8.toNat_ofNat_of_lt' hn', decide_eq_true hn, Bool.or_true]
    · intro x hx
      obtain ⟨m, -, rfl⟩ := List.mem_map.mp hx
      rw [beginsChar, toNat_goesOn, Bool.or_eq_false_iff, decide_eq_false_iff_not,
        decide_eq_false_iff_not]
      omega

/-- Whether a place among some bytes is between two characters: at the end, or before a byte that
begins a character. -/
def isBoundary (bytes : List UInt8) (i : Nat) : Bool :=
  i == bytes.length || bytes[i]?.any beginsChar

theorem isBoundary_append (bytes rest : List UInt8) (i : Nat) :
    isBoundary (bytes ++ rest) (bytes.length + i) = isBoundary rest i := by
  rw [isBoundary, isBoundary, List.length_append, List.getElem?_append_right (Nat.le_add_right ..),
    Nat.add_sub_cancel_left, Bool.eq_iff_iff]
  simp

/-- The places between characters are those behind the first so many of them. -/
theorem isBoundary_encode_iff {cs : List Char} {i : Nat} :
    isBoundary (encode cs) i = true ↔ ∃ k ≤ cs.length, (encode (cs.take k)).length = i := by
  induction cs generalizing i with
  | nil =>
      rw [isBoundary, encode_nil, List.getElem?_nil, Option.any_none, Bool.or_false, beq_iff_eq]
      refine ⟨fun h => ⟨0, Nat.le_refl 0, h.symm⟩, ?_⟩
      rintro ⟨k, -, hk⟩
      rw [← hk, List.take_nil]
      rfl
  | cons c cs ih =>
      obtain ⟨b, bs, hbytes, hb, hbs⟩ := exists_utf8EncodeChar_eq c
      constructor
      · intro h
        rcases Nat.lt_or_ge i (b :: bs).length with hlt | hge
        · -- Within the bytes of the first character only its own place is between characters.
          refine ⟨0, Nat.zero_le _, ?_⟩
          cases i with
          | zero => rfl
          | succ i =>
              have hi : i < bs.length := Nat.lt_of_succ_lt_succ hlt
              rw [encode_cons, hbytes, isBoundary, List.getElem?_append_left hlt,
                List.getElem?_cons_succ, List.getElem?_eq_getElem hi, Option.any_some,
                hbs _ (List.getElem_mem hi), Bool.or_false, beq_iff_eq, List.length_append] at h
              omega
        · obtain ⟨j, rfl⟩ := Nat.exists_eq_add_of_le hge
          rw [encode_cons, hbytes, isBoundary_append] at h
          obtain ⟨k, hk, hlength⟩ := ih.mp h
          refine ⟨k + 1, Nat.succ_le_succ hk, ?_⟩
          rw [List.take_succ_cons, encode_cons, List.length_append, hlength, hbytes]
      · rintro ⟨k, hk, rfl⟩
        cases k with
        | zero =>
            rw [encode_cons, hbytes, isBoundary, List.take_zero, encode_nil, List.length_nil,
              List.cons_append, List.getElem?_cons_zero, Option.any_some, hb, Bool.or_true]
        | succ k =>
            rw [List.take_succ_cons, encode_cons, encode_cons, List.length_append,
              isBoundary_append]
            exact ih.mpr ⟨k, Nat.le_of_succ_le_succ hk, rfl⟩

end Linkage.Text
