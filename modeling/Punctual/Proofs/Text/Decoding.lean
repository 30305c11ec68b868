import Mathlib.Tactic.Common
import Punctual.Text.Utf8

/-!
# Reading encoded texts

The reader of bytes replaces what is no UTF-8. The bytes of a text are UTF-8, and what is read from
them is the text (`Text.decodeLossy_encode`).

A character of several bytes is a leading byte and bytes of six bits each. The leading byte sets the
range of the byte behind it, and that range is the place where the least code point of each length,
the surrogates and the greatest code point come in.
-/

namespace Punctual.Text

/-! ## Bytes of byte arrays -/

theorem toList_loop (bytes : ByteArray) (i : Nat) (before : List UInt8) :
    ByteArray.toList.loop bytes i before = before.reverse ++ bytes.data.toList.drop i := by
  fun_induction ByteArray.toList.loop bytes i before with
  | case1 i before hi ih =>
      have hi' : i < bytes.data.toList.length := hi
      have hget : bytes.get! i = bytes.data.toList[i] := getElem!_pos bytes.data i hi
      rw [ih, List.drop_eq_getElem_cons hi', hget]
      simp
  | case2 i before hi =>
      rw [List.drop_eq_nil_of_le (Nat.le_of_not_lt hi), List.append_nil]

theorem toList_eq (bytes : ByteArray) : bytes.toList = bytes.data.toList :=
  toList_loop bytes 0 []

/-- The bytes of a text are those of its characters. -/
theorem toList_encode (s : String) :
    (encode s).toList = s.toList.flatMap String.utf8EncodeChar := by
  have hencode : encode s = s.toList.utf8Encode := String.utf8Encode_toList.symm
  rw [toList_eq, hencode, List.utf8Encode]
  simp

/-- The bytes of a text are UTF-8. -/
theorem decode?_encode (s : String) : decode? (encode s) = some s :=
  dif_pos s.isValidUTF8

/-! ## Inside a character -/

section Steps

variable {low high bits n : Nat} {bs : List UInt8}

/-- A byte with a value below 256. -/
theorem toNat_ofNat (hn : n < 256) : (UInt8.ofNat n).toNat = n := by
  simp [Nat.mod_eq_of_lt hn]

/-- The last byte of a character. -/
theorem decodeFrom_last (hn : n < 256) (hlow : low ≤ n) (hhigh : n ≤ high) :
    decodeFrom (some ⟨1, low, high, bits⟩) (UInt8.ofNat n :: bs) =
      .ofNat (bits * 64 + (n - 0x80)) :: decodeFrom none bs := by
  rw [decodeFrom, toNat_ofNat hn]
  simp [hlow, hhigh]

/-- A byte in the middle of a character. -/
theorem decodeFrom_middle {owed : Nat} (hn : n < 256) (hlow : low ≤ n) (hhigh : n ≤ high) :
    decodeFrom (some ⟨owed + 2, low, high, bits⟩) (UInt8.ofNat n :: bs) =
      decodeFrom (some ⟨owed + 1, 0x80, 0xBF, bits * 64 + (n - 0x80)⟩) bs := by
  rw [decodeFrom, toNat_ofNat hn]
  simp [hlow, hhigh]

/-- The first byte of a character of several bytes. -/
theorem decodeFrom_start {p : Pending} (hn : n < 256) (h : Lead.ofByte n = .start p) :
    decodeFrom none (UInt8.ofNat n :: bs) = decodeFrom (some p) bs := by
  rw [decodeFrom, toNat_ofNat hn, h]

end Steps

/-! ## Leading bytes -/

theorem ofByte_whole {v : Nat} (h : v ≤ 0x7F) : Lead.ofByte v = .whole (.ofNat v) := by
  rw [Lead.ofByte, if_pos h]

theorem ofByte_two {v : Nat} (hlow : 0x80 ≤ v) (hhigh : v ≤ 0x7FF) :
    Lead.ofByte (v / 64 + 0xC0) = .start ⟨1, 0x80, 0xBF, v / 64⟩ := by
  rw [Lead.ofByte, if_neg (by omega), if_pos (by omega), Nat.add_sub_cancel]

/-- The second of three bytes is in the range that the first one leaves. -/
theorem ofByte_three {v : Nat} (hlow : 0x800 ≤ v) (hhigh : v ≤ 0xFFFF)
    (hvalid : v < 0xD800 ∨ 0xDFFF < v) :
    ∃ low high, Lead.ofByte (v / 4096 + 0xE0) = .start ⟨2, low, high, v / 4096⟩ ∧
      low ≤ v / 64 % 64 + 0x80 ∧ v / 64 % 64 + 0x80 ≤ high := by
  by_cases hleast : v / 4096 = 0
  · exact ⟨0xA0, 0xBF, by rw [hleast]; rfl, by omega, by omega⟩
  by_cases hsurrogates : v / 4096 = 13
  · exact ⟨0x80, 0x9F, by rw [hsurrogates]; rfl, by omega, by omega⟩
  refine ⟨0x80, 0xBF, ?_, by omega, by omega⟩
  rw [Lead.ofByte, if_neg (by omega), if_neg (by omega), if_neg (by omega), if_neg (by omega),
    if_pos (by omega), Nat.add_sub_cancel]

/-- The second of four bytes is in the range that the first one leaves. -/
theorem ofByte_four {v : Nat} (hlow : 0x10000 ≤ v) (hhigh : v ≤ 0x10FFFF) :
    ∃ low high, Lead.ofByte (v / 262144 + 0xF0) = .start ⟨3, low, high, v / 262144⟩ ∧
      low ≤ v / 4096 % 64 + 0x80 ∧ v / 4096 % 64 + 0x80 ≤ high := by
  by_cases hleast : v / 262144 = 0
  · exact ⟨0x90, 0xBF, by rw [hleast]; rfl, by omega, by omega⟩
  by_cases hgreatest : v / 262144 = 4
  · exact ⟨0x80, 0x8F, by rw [hgreatest]; rfl, by omega, by omega⟩
  refine ⟨0x80, 0xBF, ?_, by omega, by omega⟩
  rw [Lead.ofByte, if_neg (by omega), if_neg (by omega), if_neg (by omega), if_neg (by omega),
    if_neg (by omega), if_neg (by omega), if_pos (by omega), Nat.add_sub_cancel]

/-! ## Characters -/

/-- The bytes of a character are read as the character. -/
theorem decodeFrom_utf8EncodeChar (c : Char) (bs : List UInt8) :
    decodeFrom none (String.utf8EncodeChar c ++ bs) = c :: decodeFrom none bs := by
  have hchar : Char.ofNat c.val.toNat = c := Char.ofNat_toNat c
  have hvalid : c.val.toNat < 0xD800 ∨ 0xDFFF < c.val.toNat ∧ c.val.toNat < 0x110000 := c.valid
  unfold String.utf8EncodeChar
  generalize c.val.toNat = v at hchar hvalid
  dsimp only
  split
  · next hone =>
      rw [List.singleton_append, decodeFrom, toNat_ofNat (by omega), ofByte_whole hone]
      exact congrArg (· :: _) hchar
  split
  · next hone htwo =>
      have hfirst : v / 64 % 32 = v / 64 := Nat.mod_eq_of_lt (by omega)
      have hbits : v / 64 * 64 + (v % 64 + 128 - 0x80) = v := by omega
      simp only [List.cons_append, List.nil_append]
      rw [hfirst, decodeFrom_start (by omega) (ofByte_two (by omega) htwo),
        decodeFrom_last (by omega) (by omega) (by omega), hbits, hchar]
  split
  · next hone htwo hthree =>
      have hfirst : v / 4096 % 16 = v / 4096 := Nat.mod_eq_of_lt (by omega)
      have hbits : (v / 4096 * 64 + (v / 64 % 64 + 128 - 0x80)) * 64 +
          (v % 64 + 128 - 0x80) = v := by
        omega
      obtain ⟨low, high, hlead, hlow, hhigh⟩ :=
        ofByte_three (v := v) (by omega) hthree (hvalid.imp_right And.left)
      simp only [List.cons_append, List.nil_append]
      rw [hfirst, decodeFrom_start (by omega) hlead, decodeFrom_middle (by omega) hlow hhigh,
        decodeFrom_last (by omega) (by omega) (by omega), hbits, hchar]
  · next hone htwo hthree =>
      have hfirst : v / 262144 % 8 = v / 262144 := Nat.mod_eq_of_lt (by omega)
      have hbits : ((v / 262144 * 64 + (v / 4096 % 64 + 128 - 0x80)) * 64 +
          (v / 64 % 64 + 128 - 0x80)) * 64 + (v % 64 + 128 - 0x80) = v := by
        omega
      obtain ⟨low, high, hlead, hlow, hhigh⟩ := ofByte_four (v := v) (by omega) (by omega)
      simp only [List.cons_append, List.nil_append]
      rw [hfirst, decodeFrom_start (by omega) hlead, decodeFrom_middle (by omega) hlow hhigh,
        decodeFrom_middle (by omega) (by omega) (by omega),
        decodeFrom_last (by omega) (by omega) (by omega), hbits, hchar]

/-- A byte of a character is the character or beyond ASCII. -/
theorem toNat_of_mem_utf8EncodeChar {c : Char} {b : UInt8} (h : b ∈ String.utf8EncodeChar c) :
    b.toNat = c.toNat ∨ 128 ≤ b.toNat := by
  have hbeyond {n : Nat} (hn : n < 256) (hlow : 128 ≤ n) : 128 ≤ (UInt8.ofNat n).toNat := by
    rw [toNat_ofNat hn]
    exact hlow
  change b.toNat = c.val.toNat ∨ 128 ≤ b.toNat
  unfold String.utf8EncodeChar at h
  generalize c.val.toNat = v at h ⊢
  dsimp only at h
  split at h
  · next hone =>
      rw [List.mem_singleton] at h
      rw [h, toNat_ofNat (by omega)]
      exact .inl rfl
  -- The bytes of a longer character have their high bit set.
  split at h
  · simp only [List.mem_cons, List.not_mem_nil, or_false] at h
    rcases h with rfl | rfl <;> exact .inr (hbeyond (by omega) (by omega))
  split at h
  · simp only [List.mem_cons, List.not_mem_nil, or_false] at h
    rcases h with rfl | rfl | rfl <;> exact .inr (hbeyond (by omega) (by omega))
  · simp only [List.mem_cons, List.not_mem_nil, or_false] at h
    rcases h with rfl | rfl | rfl | rfl <;> exact .inr (hbeyond (by omega) (by omega))

/-- What is read from the bytes of a text is the text. -/
theorem decodeLossy_encode (s : String) : decodeLossy (encode s) = s := by
  have hread : ∀ cs : List Char, decodeFrom none (cs.flatMap String.utf8EncodeChar) = cs := by
    intro cs
    induction cs with
    | nil => rfl
    | cons c cs ih => rw [List.flatMap_cons, decodeFrom_utf8EncodeChar, ih]
  rw [decodeLossy, toList_encode, hread, String.ofList_toList]

end Punctual.Text
