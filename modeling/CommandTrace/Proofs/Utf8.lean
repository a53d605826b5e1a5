/-
UTF-8 is read back as it was written.

The bytes of a character, whatever follows them, are cut off as one piece that
spells the character (`cut_utf8EncodeChar`); the bytes of a text are then cut
into the pieces of its characters (`decode_encode`). The range of a second byte
shuts out what is no character, so the ranges are met here because a character
is no surrogate, has no shorter form and is no more than the last code point.
-/
import CommandTrace.Encoding.Utf8
import Mathlib.Tactic.IntervalCases

namespace CommandTrace.Encoding.Utf8

/-! ## Bytes -/

/-- A byte in its range adds six bits to those read so far. -/
theorem tail_ofNat {bits size following n : Nat} {low high : UInt8} {rest : List UInt8} (hn : n < 64)
    (hlow : low.toNat ≤ n + 128) (hhigh : n + 128 ≤ high.toNat) :
    tail bits size low high (following + 1) (UInt8.ofNat (n + 128) :: rest) =
      tail (bits * 64 + n) (size + 1) 0x80 0xBF following rest := by
  have hbyte : (UInt8.ofNat (n + 128)).toNat = n + 128 := UInt8.toNat_ofNat_of_lt' (by simp [UInt8.size]; omega)
  rw [tail, if_pos, hbyte, Nat.add_sub_cancel]
  rw [UInt8.le_iff_toNat_le, UInt8.le_iff_toNat_le, hbyte]
  exact ⟨hlow, hhigh⟩

/-- Two bytes, where one would not do. -/
theorem lead_two {n : Nat} (hlow : 2 ≤ n) (hhigh : n < 32) :
    lead? (UInt8.ofNat (n + 192)) = some ⟨1, n, 0x80, 0xBF⟩ := by
  interval_cases n <;> rfl

/-- Three bytes: the second has a range that leaves out the characters of two
bytes and the surrogates. -/
theorem lead_three {n : Nat} (hhigh : n < 16) :
    ∃ low high, lead? (UInt8.ofNat (n + 224)) = some ⟨2, n, low, high⟩ ∧
      ∀ m < 64, (n = 0 → 32 ≤ m) → (n = 13 → m < 32) → low.toNat ≤ m + 128 ∧ m + 128 ≤ high.toNat := by
  interval_cases n <;> refine ⟨_, _, rfl, ?_⟩ <;> simp <;> omega

/-- Four bytes: the second has a range that leaves out the characters of three
bytes and what is past the last code point. -/
theorem lead_four {n : Nat} (hhigh : n ≤ 4) :
    ∃ low high, lead? (UInt8.ofNat (n + 240)) = some ⟨3, n, low, high⟩ ∧
      ∀ m < 64, (n = 0 → 16 ≤ m) → (n = 4 → m < 16) → low.toNat ≤ m + 128 ∧ m + 128 ≤ high.toNat := by
  interval_cases n <;> refine ⟨_, _, rfl, ?_⟩ <;> simp <;> omega

theorem cut_ofNat {n : Nat} (hlow : 128 ≤ n) (hhigh : n < 256) {lead : Lead} (h : lead? (UInt8.ofNat n) = some lead)
    (rest : List UInt8) :
    cut (UInt8.ofNat n) rest = tail lead.bits 1 lead.low lead.high lead.following rest := by
  have hbyte : ¬UInt8.ofNat n < 0x80 := by
    rw [UInt8.lt_iff_toNat_lt, UInt8.toNat_ofNat_of_lt' (by simpa [UInt8.size] using hhigh)]
    simpa using hlow
  simp only [cut, if_neg hbyte, h]

/-! ## Characters -/

theorem cut_one {n : Nat} (h : n < 128) (rest : List UInt8) :
    cut (UInt8.ofNat n) rest = ⟨1, .ok (Char.ofNat n)⟩ := by
  have hbyte : (UInt8.ofNat n).toNat = n := UInt8.toNat_ofNat_of_lt' (by simp [UInt8.size]; omega)
  have hlt : UInt8.ofNat n < 0x80 := by
    rw [UInt8.lt_iff_toNat_lt, hbyte]
    simpa using h
  rw [cut, if_pos hlt, hbyte]

theorem cut_two {a b : Nat} (hlow : 2 ≤ a) (ha : a < 32) (hb : b < 64) (rest : List UInt8) :
    cut (UInt8.ofNat (a + 192)) (UInt8.ofNat (b + 128) :: rest) = ⟨2, .ok (Char.ofNat (a * 64 + b))⟩ := by
  rw [cut_ofNat (by omega) (by omega) (lead_two hlow ha), tail_ofNat hb (by simp) (by simp; omega), tail]

theorem cut_three {a b c : Nat} (ha : a < 16) (hb : b < 64) (hc : c < 64) (hshort : a = 0 → 32 ≤ b)
    (hsurrogate : a = 13 → b < 32) (rest : List UInt8) :
    cut (UInt8.ofNat (a + 224)) (UInt8.ofNat (b + 128) :: UInt8.ofNat (c + 128) :: rest) =
      ⟨3, .ok (Char.ofNat ((a * 64 + b) * 64 + c))⟩ := by
  obtain ⟨low, high, hlead, hrange⟩ := lead_three ha
  obtain ⟨hmin, hmax⟩ := hrange b hb hshort hsurrogate
  rw [cut_ofNat (by omega) (by omega) hlead, tail_ofNat hb hmin hmax, tail_ofNat hc (by simp) (by simp; omega), tail]

theorem cut_four {a b c d : Nat} (ha : a ≤ 4) (hb : b < 64) (hc : c < 64) (hd : d < 64) (hshort : a = 0 → 16 ≤ b)
    (hlast : a = 4 → b < 16) (rest : List UInt8) :
    cut (UInt8.ofNat (a + 240)) (UInt8.ofNat (b + 128) :: UInt8.ofNat (c + 128) :: UInt8.ofNat (d + 128) :: rest) =
      ⟨4, .ok (Char.ofNat (((a * 64 + b) * 64 + c) * 64 + d))⟩ := by
  obtain ⟨low, high, hlead, hrange⟩ := lead_four ha
  obtain ⟨hmin, hmax⟩ := hrange b hb hshort hlast
  rw [cut_ofNat (by omega) (by omega) hlead, tail_ofNat hb hmin hmax, tail_ofNat hc (by simp) (by simp; omega),
    tail_ofNat hd (by simp) (by simp; omega), tail]

/-- The bytes of a character are one piece that spells it. -/
theorem cut_utf8EncodeChar (c : Char) (rest : List UInt8) :
    ∃ b bs, String.utf8EncodeChar c = b :: bs ∧ cut b (bs ++ rest) = ⟨bs.length + 1, .ok c⟩ := by
  have hc : Char.ofNat c.val.toNat = c := Char.ofNat_toNat c
  have hvalid : c.val.toNat < 0xD800 ∨ 0xDFFF < c.val.toNat ∧ c.val.toNat < 0x110000 := c.valid
  rw [String.utf8EncodeChar]
  generalize c.val.toNat = v at hc hvalid
  subst hc
  split
  case isTrue hv => exact ⟨_, _, rfl, cut_one (by omega) rest⟩
  split
  case isTrue hv =>
    have hbits : v / 64 % 32 * 64 + v % 64 = v := by omega
    refine ⟨_, _, rfl, (cut_two ?_ ?_ ?_ rest).trans (by rw [hbits]; rfl)⟩ <;> omega
  split
  case isTrue hv =>
    have hbits : (v / 4096 % 16 * 64 + v / 64 % 64) * 64 + v % 64 = v := by omega
    refine ⟨_, _, rfl, (cut_three ?_ ?_ ?_ ?_ ?_ rest).trans (by rw [hbits]; rfl)⟩ <;> omega
  case isFalse hv =>
    have hbits : ((v / 262144 % 8 * 64 + v / 4096 % 64) * 64 + v / 64 % 64) * 64 + v % 64 = v := by omega
    refine ⟨_, _, rfl, (cut_four ?_ ?_ ?_ ?_ ?_ ?_ rest).trans (by rw [hbits]; rfl)⟩ <;> omega

/-- A text comes back from its bytes. -/
theorem decode_encode (cs : List Char) : decode (encode cs) = cs := by
  induction cs with
  | nil => rw [encode, List.flatMap_nil, decode, pieces, lossy, List.map_nil]
  | cons c cs ih =>
    obtain ⟨b, bs, hbytes, hcut⟩ := cut_utf8EncodeChar c (encode cs)
    have hencode : encode (c :: cs) = b :: (bs ++ encode cs) := by
      rw [encode, List.flatMap_cons, hbytes, List.cons_append, encode]
    rw [hencode, decode, pieces, lossy, List.map_cons]
    simp only [hcut, Nat.add_sub_cancel, List.drop_left]
    exact congrArg (c :: ·) ih

end CommandTrace.Encoding.Utf8
