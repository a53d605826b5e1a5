/-
One text in several encodings.

An encoding is read back where the bytes of each character are cut off as one
piece that spells it, whatever follows them (`ReadsBack`): then the strict reading
of a text's bytes is the text (`ReadsBack.strict_flatMap`). UTF-8 and UTF-16 in
both byte orders are such encodings. A mark at the start of a file decides which of
them it is read in, so the text is the same whatever encoding was given.
-/
import CommandTrace.Proofs.Utf8
import CommandTrace.Source

namespace CommandTrace

namespace Encoding

/-! ## Reading back -/

/-- The bytes of a character, whatever follows them, are one piece that spells
it. -/
def ReadsBack (cut : Cut) (spell : Char → List UInt8) : Prop :=
  ∀ c rest, ∃ b bs, spell c = b :: bs ∧ cut b (bs ++ rest) = ⟨bs.length + 1, .ok c⟩

theorem ReadsBack.strict_flatMap {cut : Cut} {spell : Char → List UInt8} (h : ReadsBack cut spell) (position : Nat)
    (cs : List Char) : strict position (pieces cut (cs.flatMap spell)) = .ok cs := by
  induction cs generalizing position with
  | nil => rw [List.flatMap_nil, pieces, strict]
  | cons c cs ih =>
    obtain ⟨b, bs, hspell, hcut⟩ := h c (cs.flatMap spell)
    rw [List.flatMap_cons, hspell, List.cons_append, pieces, strict]
    simp only [hcut, Nat.add_sub_cancel, List.drop_left, ih, Except.map]

theorem Utf8.readsBack : ReadsBack Utf8.cut String.utf8EncodeChar :=
  Utf8.cut_utf8EncodeChar

theorem Utf8.strict_encode (position : Nat) (cs : List Char) :
    strict position (pieces Utf8.cut (Utf8.encode cs)) = .ok cs :=
  Utf8.readsBack.strict_flatMap position cs

/-! ## UTF-16 -/

namespace Utf16

variable {order : ByteOrder}

theorem exists_bytesOf (order : ByteOrder) {u : Nat} (h : u < 0x10000) :
    ∃ a b, bytesOf order u = [a, b] ∧ unit order a b = u := by
  have hlow : (UInt8.ofNat (u % 256)).toNat = u % 256 := UInt8.toNat_ofNat_of_lt' (by simp [UInt8.size]; omega)
  have hhigh : (UInt8.ofNat (u / 256)).toNat = u / 256 := UInt8.toNat_ofNat_of_lt' (by simp [UInt8.size]; omega)
  cases order with
  | little =>
    refine ⟨_, _, rfl, ?_⟩
    rw [unit, hlow, hhigh]
    exact Nat.mod_add_div u 256
  | big =>
    refine ⟨_, _, rfl, ?_⟩
    rw [unit, hlow, hhigh]
    exact Nat.div_add_mod u 256

theorem cut_of_single {a b : UInt8} (h : unit order a b < 0xD800 ∨ 0xDFFF < unit order a b) (rest : List UInt8) :
    cut order a (b :: rest) = ⟨2, .ok (Char.ofNat (unit order a b))⟩ := by
  have hlow : isLow (unit order a b) = false := by
    simp only [isLow, Bool.and_eq_false_iff, decide_eq_false_iff_not]
    omega
  have hhigh : isHigh (unit order a b) = false := by
    simp only [isHigh, Bool.and_eq_false_iff, decide_eq_false_iff_not]
    omega
  simp [cut, hlow, hhigh]

theorem cut_of_pair {a b c d : UInt8} (hhigh : isHigh (unit order a b) = true) (hlow : isLow (unit order c d) = true)
    (rest : List UInt8) :
    cut order a (b :: c :: d :: rest) =
      ⟨4, .ok (Char.ofNat (0x10000 + (unit order a b - 0xD800) * 0x400 + (unit order c d - 0xDC00)))⟩ := by
  have hfirst : isLow (unit order a b) = false := by
    simp only [isHigh, Bool.and_eq_true, decide_eq_true_eq] at hhigh
    simp only [isLow, Bool.and_eq_false_iff, decide_eq_false_iff_not]
    omega
  simp [cut, hfirst, hhigh, hlow]

theorem readsBack (order : ByteOrder) : ReadsBack (cut order) fun c => (units c).flatMap (bytesOf order) := by
  intro c rest
  have hvalid : c.toNat < 0xD800 ∨ 0xDFFF < c.toNat ∧ c.toNat < 0x110000 := c.valid
  by_cases hc : c.toNat < 0x10000
  · obtain ⟨a, b, hbytes, hunit⟩ := exists_bytesOf order hc
    refine ⟨a, [b], by simp [units, hc, hbytes], ?_⟩
    rw [List.singleton_append, cut_of_single (by omega), hunit, Char.ofNat_toNat]
    rfl
  · -- the offset above the basic plane, ten bits to each of the two units
    have hhigh : 0xD800 + (c.toNat - 0x10000) / 0x400 < 0x10000 := by omega
    have hlow : 0xDC00 + (c.toNat - 0x10000) % 0x400 < 0x10000 := by omega
    obtain ⟨a, b, hbytes, hunit⟩ := exists_bytesOf order hhigh
    obtain ⟨a', b', hbytes', hunit'⟩ := exists_bytesOf order hlow
    refine ⟨a, [b, a', b'], by simp [units, hc, hbytes, hbytes'], ?_⟩
    have hvalue : 0x10000 + (unit order a b - 0xD800) * 0x400 + (unit order a' b' - 0xDC00) = c.toNat := by
      rw [hunit, hunit']
      omega
    rw [List.cons_append, List.cons_append, List.singleton_append, cut_of_pair, hvalue, Char.ofNat_toNat]
    · rfl
    · simp only [hunit, isHigh, Bool.and_eq_true, decide_eq_true_eq]
      omega
    · simp only [hunit', isLow, Bool.and_eq_true, decide_eq_true_eq]
      omega

theorem strict_encode (position : Nat) (cs : List Char) :
    strict position (pieces (cut order) (encode order cs)) = .ok cs :=
  (readsBack order).strict_flatMap position cs

end Utf16

/-! ## Marks -/

theorem markedOrder?_mark (order : ByteOrder) (bytes : List UInt8) :
    markedOrder? (Utf16.mark order ++ bytes) = some order := by
  cases order <;> simp [markedOrder?, Utf16.mark, Utf16.bytesOf, List.isPrefixOf]

theorem markedOrder?_eq_none_iff {bytes : List UInt8} :
    markedOrder? bytes = none ↔ ∀ order, ¬Utf16.mark order <+: bytes := by
  constructor
  · rintro h order ⟨rest, rfl⟩
    rw [markedOrder?_mark] at h
    cases h
  · intro h
    simp [markedOrder?, List.isPrefixOf_iff_prefix, h]

namespace Utf8

theorem encode_cons (c : Char) (cs : List Char) : encode (c :: cs) = String.utf8EncodeChar c ++ encode cs := rfl

theorem cut_encode {c : Char} {cs : List Char} {b : UInt8} {bs : List UInt8} (h : encode (c :: cs) = b :: bs) :
    ∃ size, cut b bs = ⟨size, .ok c⟩ := by
  obtain ⟨b', bs', hspell, hcut⟩ := cut_utf8EncodeChar c (encode cs)
  have hbytes : encode (c :: cs) = b' :: (bs' ++ encode cs) := by
    rw [encode_cons, hspell, List.cons_append]
  obtain ⟨rfl, rfl⟩ := List.cons.inj (hbytes.symm.trans h)
  exact ⟨bs'.length + 1, hcut⟩

/-- No character starts with a byte of a UTF-16 mark. -/
theorem markedOrder?_encode (cs : List Char) : markedOrder? (encode cs) = none := by
  rw [markedOrder?_eq_none_iff]
  rintro order ⟨rest, h⟩
  cases cs with
  | nil => cases order <;> cases h
  | cons c cs => cases order <;> obtain ⟨size, hcut⟩ := cut_encode h.symm <;> cases hcut

/-- A text that starts with the bytes of the mark starts with its character. -/
theorem head?_of_mark_isPrefix {cs : List Char} (h : mark <+: encode cs) : cs.head? = some '\uFEFF' := by
  obtain ⟨rest, h⟩ := h
  cases cs with
  | nil => cases h
  | cons c cs =>
    obtain ⟨size, hcut⟩ := cut_encode h.symm
    have hmark : cut 0xEF (0xBB :: 0xBF :: rest) = ⟨3, .ok '\uFEFF'⟩ := rfl
    cases hmark.symm.trans hcut
    rfl

end Utf8

theorem decode?_nil (encoding : Encoding) : encoding.decode? [] = .ok [] := by
  rcases encoding with _ | _ | _ | _ | _ | _ | (_ | (_ | _)) <;>
    simp [decode?, reading, Reading.decode?, markedOrder?, utf16Reading, Utf8.mark, Utf16.mark, Utf16.bytesOf, pieces,
      strict]

theorem decode?_encode (cs : List Char) : utf8.decode? (Utf8.encode cs) = .ok cs := by
  simp only [decode?, reading, Reading.decode?, Utf8.strict_encode]

theorem decode?_marked (order : ByteOrder) (cs : List Char) :
    (utf16 none).decode? (Utf16.mark order ++ Utf16.encode order cs) = .ok cs := by
  have hdrop : (Utf16.mark order ++ Utf16.encode order cs).drop 2 = Utf16.encode order cs := by cases order <;> rfl
  simp only [decode?, reading, markedOrder?_mark, hdrop]
  cases order <;> simp only [utf16Reading, Reading.decode?, Utf16.strict_encode]

end Encoding

namespace Source

open Encoding

variable {path : Path} {given : String}

/-- What is read without a fault is kept as UTF-8, and nothing is reported. -/
theorem normalize_of_decode {bytes content : List UInt8} {name : String} {encoding : Encoding} {cs : List Char}
    (hunmark : unmark given bytes = (content, name)) (hzero : name.toList.contains '\x00' = false)
    (hname : ofName? name = some encoding) (hdecode : encoding.decode? content = .ok cs) :
    normalize path given bytes = pure (Utf8.encode cs) := by
  simp only [normalize, hunmark, hzero, Bool.false_eq_true, if_false, hname, hdecode]
  split
  case isTrue hnil =>
    rw [hnil, decode?_nil, Except.ok.injEq] at hdecode
    rw [← hdecode]
    rfl
  case isFalse => rfl

theorem unmark_mark (bytes : List UInt8) : unmark given (Utf8.mark ++ bytes) = (bytes, "utf-8") := by
  simp [unmark, Utf8.mark, List.isPrefixOf]

theorem unmark_utf16 (order : ByteOrder) (bytes : List UInt8) :
    unmark given (Utf16.mark order ++ bytes) = (Utf16.mark order ++ bytes, "utf-16") := by
  have hother : Utf8.mark.isPrefixOf (Utf16.mark order ++ bytes) = false := by cases order <;> rfl
  rw [unmark, if_neg (by simp [hother]), if_pos (by simp [markedOrder?_mark])]

theorem unmark_unmarked {bytes : List UInt8} (h : ¬Utf8.mark <+: bytes) (horder : markedOrder? bytes = none) :
    unmark given bytes = (bytes, given) := by
  rw [unmark, if_neg (by simpa [List.isPrefixOf_iff_prefix] using h), if_neg (by simp [horder])]

/-- **All Unicode encodings of a text come to the same bytes.** With a mark in
front, UTF-8 and UTF-16 in either order give the UTF-8 of the text, without a
report and whatever encoding was given; so does UTF-8 without a mark where that is
given, unless the text starts with the character of the mark. -/
theorem unicode_forms_agree (path : Path) (given : String) (s : String) :
    normalize path given (Utf8.mark ++ Utf8.encode s.toList) = pure (Utf8.encode s.toList) ∧
    (∀ order, normalize path given (Utf16.mark order ++ Utf16.encode order s.toList) = pure (Utf8.encode s.toList)) ∧
    (s.toList.head? ≠ some '\uFEFF' →
      normalize path "utf-8" (Utf8.encode s.toList) = pure (Utf8.encode s.toList)) := by
  refine ⟨?_, fun order => ?_, fun hhead => ?_⟩
  · exact normalize_of_decode (unmark_mark _) (by decide) (by decide +kernel) (decode?_encode _)
  · exact normalize_of_decode (unmark_utf16 order _) (by decide) (by decide +kernel) (decode?_marked order _)
  · have hmark : ¬Utf8.mark <+: Utf8.encode s.toList := fun h => hhead (Utf8.head?_of_mark_isPrefix h)
    exact normalize_of_decode (unmark_unmarked hmark (Utf8.markedOrder?_encode _)) (by decide) (by decide +kernel)
      (decode?_encode _)

namespace Forms

/-- In UTF-16 the zero in front makes the mark look like one of UTF-32; the last
character takes two units. -/
def text : String := "\x00é😀"

def bytes : List UInt8 := [0x00, 0xC3, 0xA9, 0xF0, 0x9F, 0x98, 0x80]

theorem encode_text : Utf8.encode text.toList = bytes := by decide +kernel

/-- An encoding that does not exist is given, and the marks decide. -/
theorem text_in_all_forms :
    normalize (.ofString "A.cs") "none" (Utf8.mark ++ bytes) = pure bytes ∧
    normalize (.ofString "A.cs") "none" [0xFF, 0xFE, 0x00, 0x00, 0xE9, 0x00, 0x3D, 0xD8, 0x00, 0xDE] = pure bytes ∧
    normalize (.ofString "A.cs") "none" [0xFE, 0xFF, 0x00, 0x00, 0x00, 0xE9, 0xD8, 0x3D, 0xDE, 0x00] = pure bytes ∧
    text.toList.head? ≠ some '\uFEFF' ∧ normalize (.ofString "A.cs") "utf-8" bytes = pure bytes := by
  obtain ⟨hmarked, hutf16, hplain⟩ := unicode_forms_agree (.ofString "A.cs") "none" text
  have hhead : text.toList.head? ≠ some '\uFEFF' := by decide +kernel
  have hlittle : Utf16.mark .little ++ Utf16.encode .little text.toList =
      [0xFF, 0xFE, 0x00, 0x00, 0xE9, 0x00, 0x3D, 0xD8, 0x00, 0xDE] := by decide +kernel
  have hbig : Utf16.mark .big ++ Utf16.encode .big text.toList =
      [0xFE, 0xFF, 0x00, 0x00, 0x00, 0xE9, 0xD8, 0x3D, 0xDE, 0x00] := by decide +kernel
  rw [encode_text] at hmarked hutf16 hplain
  exact ⟨hmarked, hlittle ▸ hutf16 .little, hbig ▸ hutf16 .big, hhead, hplain hhead⟩

end Forms

end Source

end CommandTrace
