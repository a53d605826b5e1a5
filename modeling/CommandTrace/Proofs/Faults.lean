/-
UTF-8 with faulty bytes, cut into characters and faults.

A piece that spells a character has the character's bytes
(`eq_utf8EncodeChar_of_cut`), so pieces and characters determine each other. A
piece that spells nothing is a fault in the sense of `IsFault`: no character's
bytes are there, and of the bytes that start one no longer row is there than the
piece. All bytes are cut into these two (`cuts_pieces`), which says what the
strict reading returns and where it stops (`Cuts.strict_cases`).
-/
import CommandTrace.Proofs.UnicodeForms

namespace CommandTrace.Encoding.Utf8

/-! ## Pieces that spell a character -/

theorem toNat_val_ofNat {v : Nat} (h : v < 0xD800 ∨ 0xDFFF < v ∧ v < 0x110000) : (Char.ofNat v).val.toNat = v := by
  have hvalid : v.isValidChar := h
  rw [Char.ofNat, dif_pos hvalid]
  rfl

theorem utf8EncodeChar_one {a : Nat} (ha : a < 128) : String.utf8EncodeChar (Char.ofNat a) = [UInt8.ofNat a] := by
  simp only [String.utf8EncodeChar, toNat_val_ofNat (v := a) (by omega)]
  rw [if_pos (by omega)]

theorem utf8EncodeChar_two {a b : Nat} (hlow : 2 ≤ a) (ha : a < 32) (hb : b < 64) :
    String.utf8EncodeChar (Char.ofNat (a * 64 + b)) = [UInt8.ofNat (a + 192), UInt8.ofNat (b + 128)] := by
  have hfirst : (a * 64 + b) / 64 % 32 = a := by omega
  have hsecond : (a * 64 + b) % 64 = b := by omega
  simp only [String.utf8EncodeChar, toNat_val_ofNat (v := a * 64 + b) (by omega)]
  rw [if_neg (by omega), if_pos (by omega), hfirst, hsecond]

theorem utf8EncodeChar_three {a b c : Nat} (ha : a < 16) (hb : b < 64) (hc : c < 64) (hshort : a = 0 → 32 ≤ b)
    (hsurrogate : a = 13 → b < 32) :
    String.utf8EncodeChar (Char.ofNat ((a * 64 + b) * 64 + c)) =
      [UInt8.ofNat (a + 224), UInt8.ofNat (b + 128), UInt8.ofNat (c + 128)] := by
  have hfirst : ((a * 64 + b) * 64 + c) / 4096 % 16 = a := by omega
  have hsecond : ((a * 64 + b) * 64 + c) / 64 % 64 = b := by omega
  have hthird : ((a * 64 + b) * 64 + c) % 64 = c := by omega
  simp only [String.utf8EncodeChar, toNat_val_ofNat (v := (a * 64 + b) * 64 + c) (by omega)]
  rw [if_neg (by omega), if_neg (by omega), if_pos (by omega), hfirst, hsecond, hthird]

theorem utf8EncodeChar_four {a b c d : Nat} (ha : a ≤ 4) (hb : b < 64) (hc : c < 64) (hd : d < 64)
    (hshort : a = 0 → 16 ≤ b) (hlast : a = 4 → b < 16) :
    String.utf8EncodeChar (Char.ofNat (((a * 64 + b) * 64 + c) * 64 + d)) =
      [UInt8.ofNat (a + 240), UInt8.ofNat (b + 128), UInt8.ofNat (c + 128), UInt8.ofNat (d + 128)] := by
  have hfirst : (((a * 64 + b) * 64 + c) * 64 + d) / 262144 % 8 = a := by omega
  have hsecond : (((a * 64 + b) * 64 + c) * 64 + d) / 4096 % 64 = b := by omega
  have hthird : (((a * 64 + b) * 64 + c) * 64 + d) / 64 % 64 = c := by omega
  have hfourth : (((a * 64 + b) * 64 + c) * 64 + d) % 64 = d := by omega
  simp only [String.utf8EncodeChar, toNat_val_ofNat (v := ((a * 64 + b) * 64 + c) * 64 + d) (by omega)]
  rw [if_neg (by omega), if_neg (by omega), if_neg (by omega), hfirst, hsecond, hthird, hfourth]

/-- What a first byte of several says: its bits, and a range for the next byte
that leaves out what is no character or has fewer bytes. -/
theorem lead?_cases {b : UInt8} {lead : Lead} (h : lead? b = some lead) :
    128 ≤ lead.low.toNat ∧ lead.low.toNat ≤ lead.high.toNat ∧ lead.high.toNat < 192 ∧
    ((lead.following = 1 ∧ b.toNat = lead.bits + 192 ∧ 2 ≤ lead.bits ∧ lead.bits < 32) ∨
      (lead.following = 2 ∧ b.toNat = lead.bits + 224 ∧ lead.bits < 16 ∧
        (lead.bits = 0 → 160 ≤ lead.low.toNat) ∧ (lead.bits = 13 → lead.high.toNat < 160)) ∨
      lead.following = 3 ∧ b.toNat = lead.bits + 240 ∧ lead.bits ≤ 4 ∧
        (lead.bits = 0 → 144 ≤ lead.low.toNat) ∧ (lead.bits = 4 → lead.high.toNat < 144)) := by
  simp only [lead?, UInt8.lt_iff_toNat_lt, beq_iff_eq, ← UInt8.toNat_inj, UInt8.reduceToNat] at h
  repeat' split at h
  all_goals
    cases h <;> simp <;> omega

/-- The first byte alone is a character or spells nothing, or it says how to go
on. -/
theorem cut_cases (b : UInt8) :
    (b.toNat < 128 ∧ ∀ rest, cut b rest = ⟨1, .ok (Char.ofNat b.toNat)⟩) ∨
    (∀ rest, cut b rest = ⟨1, .error .invalidStart⟩) ∨
    ∃ lead, lead? b = some lead ∧ ∀ rest, cut b rest = tail lead.bits 1 lead.low lead.high lead.following rest := by
  by_cases hascii : b < 0x80
  · exact .inl ⟨UInt8.lt_iff_toNat_lt.1 hascii, fun rest => by rw [cut, if_pos hascii]⟩
  · right
    cases hlead : lead? b with
    | none => exact .inl fun rest => by simp only [cut, if_neg hascii, hlead]
    | some lead => exact .inr ⟨lead, rfl, fun rest => by simp only [cut, if_neg hascii, hlead]⟩

/-- A byte that a character goes on with carries six bits and lies in the range. -/
theorem tail_eq_ok {bits size following n : Nat} {low high : UInt8} {rest : List UInt8} {c : Char}
    (hlow : 128 ≤ low.toNat) (hhigh : high.toNat < 192)
    (h : tail bits size low high (following + 1) rest = ⟨n, .ok c⟩) :
    ∃ m rest', rest = UInt8.ofNat (m + 128) :: rest' ∧ m < 64 ∧ low.toNat ≤ m + 128 ∧ m + 128 ≤ high.toNat ∧
      tail (bits * 64 + m) (size + 1) 0x80 0xBF following rest' = ⟨n, .ok c⟩ := by
  cases rest with
  | nil => simp [tail] at h
  | cons b rest =>
    rw [tail] at h
    split at h
    case isFalse => simp at h
    case isTrue hrange =>
      simp only [UInt8.le_iff_toNat_le] at hrange
      have hbyte : b.toNat - 128 + 128 = b.toNat := by omega
      exact ⟨b.toNat - 128, rest, by rw [hbyte, UInt8.ofNat_toNat], by omega, by omega, by omega, h⟩

theorem tail_zero_eq_ok {bits size n : Nat} {low high : UInt8} {rest : List UInt8} {c : Char}
    (h : tail bits size low high 0 rest = ⟨n, .ok c⟩) : n = size ∧ c = Char.ofNat bits := by
  simp only [tail, Piece.mk.injEq, Except.ok.injEq] at h
  exact ⟨h.1.symm, h.2.symm⟩

/-- A piece that spells a character has its bytes. -/
theorem eq_utf8EncodeChar_of_cut {b : UInt8} {rest : List UInt8} {n : Nat} {c : Char} (h : cut b rest = ⟨n, .ok c⟩) :
    ∃ rest', b :: rest = String.utf8EncodeChar c ++ rest' ∧ n = (String.utf8EncodeChar c).length := by
  have hfirst : ∀ m, b.toNat = m → UInt8.ofNat m = b := fun m hm => by rw [← hm, UInt8.ofNat_toNat]
  rcases cut_cases b with ⟨hlt, hcut⟩ | hcut | ⟨lead, hlead, hcut⟩ <;> rw [hcut] at h
  case inl =>
    simp only [Piece.mk.injEq, Except.ok.injEq] at h
    obtain ⟨rfl, rfl⟩ := h
    rw [utf8EncodeChar_one hlt, UInt8.ofNat_toNat]
    exact ⟨rest, rfl, rfl⟩
  case inr.inl => simp at h
  case inr.inr =>
    obtain ⟨hlow, -, hhigh, htwo | hthree | hfour⟩ := lead?_cases hlead
    · obtain ⟨hfollowing, hb, hmin, hmax⟩ := htwo
      rw [hfollowing] at h
      obtain ⟨m, rest, rfl, hm, -, -, h⟩ := tail_eq_ok hlow hhigh h
      obtain ⟨rfl, rfl⟩ := tail_zero_eq_ok h
      rw [utf8EncodeChar_two hmin hmax hm, hfirst _ hb]
      exact ⟨rest, rfl, rfl⟩
    · obtain ⟨hfollowing, hb, hmax, hshort, hsurrogate⟩ := hthree
      rw [hfollowing] at h
      obtain ⟨m, rest, rfl, hm, hmlow, hmhigh, h⟩ := tail_eq_ok hlow hhigh h
      obtain ⟨m', rest, rfl, hm', -, -, h⟩ := tail_eq_ok (by decide) (by decide) h
      obtain ⟨rfl, rfl⟩ := tail_zero_eq_ok h
      rw [utf8EncodeChar_three hmax hm hm' (by omega) (by omega), hfirst _ hb]
      exact ⟨rest, rfl, rfl⟩
    · obtain ⟨hfollowing, hb, hmax, hshort, hlast⟩ := hfour
      rw [hfollowing] at h
      obtain ⟨m, rest, rfl, hm, hmlow, hmhigh, h⟩ := tail_eq_ok hlow hhigh h
      obtain ⟨m', rest, rfl, hm', -, -, h⟩ := tail_eq_ok (by decide) (by decide) h
      obtain ⟨m'', rest, rfl, hm'', -, -, h⟩ := tail_eq_ok (by decide) (by decide) h
      obtain ⟨rfl, rfl⟩ := tail_zero_eq_ok h
      rw [utf8EncodeChar_four hmax hm hm' hm'' (by omega) (by omega), hfirst _ hb]
      exact ⟨rest, rfl, rfl⟩

/-! ## Pieces that spell nothing -/

/-- Some character starts with these bytes. -/
def IsStart (bs : List UInt8) : Prop :=
  ∃ c, bs <+: String.utf8EncodeChar c

/-- Bytes that spell nothing where `rest` follows: the longest start of a character
that is there, or a single byte. -/
structure IsFault (bad rest : List UInt8) : Prop where
  ne_nil : bad ≠ []
  no_char : ∀ c, ¬String.utf8EncodeChar c <+: bad ++ rest
  start_or_single : IsStart bad ∨ bad.length = 1
  longest : ∀ bs, bs <+: bad ++ rest → IsStart bs → bs.length ≤ bad.length

/-- There is always a way on to a character. -/
theorem exists_tail_eq_ok {low high : UInt8} (h : low.toNat ≤ high.toNat) (bits size following : Nat) :
    ∃ more c, tail bits size low high following more = ⟨size + following, .ok c⟩ := by
  induction following generalizing bits size low high with
  | zero => exact ⟨[], Char.ofNat bits, rfl⟩
  | succ following ih =>
    have hnext : (0x80 : UInt8).toNat ≤ (0xBF : UInt8).toNat := by decide
    obtain ⟨more, c, hmore⟩ := ih hnext (bits * 64 + (low.toNat - 0x80)) (size + 1)
    have hrange : low ≤ low ∧ low ≤ high := ⟨UInt8.le_refl low, UInt8.le_iff_toNat_le.2 h⟩
    exact ⟨low :: more, c, by rw [tail, if_pos hrange, hmore, Nat.add_right_comm, Nat.add_assoc]⟩

/-- Where a character breaks off, its bytes so far could have gone on to one. -/
theorem tail_eq_error {low high : UInt8} (h : low.toNat ≤ high.toNat) {bits size following n : Nat}
    {rest : List UInt8} {reason : Reason} (htail : tail bits size low high following rest = ⟨n, .error reason⟩) :
    ∃ bs rest' more c, rest = bs ++ rest' ∧ n = size + bs.length ∧ bs.length < following ∧
      tail bits size low high following (bs ++ more) = ⟨size + following, .ok c⟩ := by
  induction following generalizing bits size low high rest with
  | zero => simp [tail] at htail
  | succ following ih =>
    obtain ⟨more, c, hmore⟩ := exists_tail_eq_ok h bits size (following + 1)
    cases rest with
    | nil =>
      simp only [tail, Piece.mk.injEq] at htail
      exact ⟨[], [], more, c, rfl, htail.1.symm, by simp, hmore⟩
    | cons b rest =>
      rw [tail] at htail
      split at htail
      case isTrue hrange =>
        obtain ⟨bs, rest', more, c, rfl, hn, hlength, hmore⟩ := ih (by decide) htail
        refine ⟨b :: bs, rest', more, c, rfl, by simp; omega, by simp; omega, ?_⟩
        rw [List.cons_append, tail, if_pos hrange, hmore, Nat.add_right_comm, Nat.add_assoc]
      case isFalse hrange =>
        simp only [Piece.mk.injEq] at htail
        exact ⟨[], b :: rest, more, c, rfl, htail.1.symm, by simp, hmore⟩

/-- Only the bytes of a faulty piece and the next one are looked at. -/
theorem tail_error_congr {low high : UInt8} (h : low.toNat ≤ high.toNat) {bits size following n : Nat}
    {bs rest rest' : List UInt8} {reason : Reason} (hn : n < size + bs.length)
    (htail : tail bits size low high following (bs ++ rest) = ⟨n, .error reason⟩) :
    tail bits size low high following (bs ++ rest') = ⟨n, .error reason⟩ := by
  induction following generalizing bits size low high bs with
  | zero => simp [tail] at htail
  | succ following ih =>
    cases bs with
    | nil =>
      obtain ⟨bs, -, -, -, -, hsize, -, -⟩ := tail_eq_error h htail
      simp at hn
      omega
    | cons b bs =>
      rw [List.cons_append, tail] at htail ⊢
      split at htail
      case isTrue hrange =>
        rw [if_pos hrange]
        exact ih (by decide) (by simp at hn; omega) htail
      case isFalse hrange =>
        rw [if_neg hrange]
        exact htail

theorem cut_error_congr {b : UInt8} {bs rest rest' : List UInt8} {n : Nat} {reason : Reason} (hn : n ≤ bs.length)
    (h : cut b (bs ++ rest) = ⟨n, .error reason⟩) : cut b (bs ++ rest') = ⟨n, .error reason⟩ := by
  rcases cut_cases b with ⟨-, hcut⟩ | hcut | ⟨lead, hlead, hcut⟩ <;> rw [hcut] at h ⊢
  case inl => simp at h
  case inr.inl => exact h
  case inr.inr => exact tail_error_congr (lead?_cases hlead).2.1 (by omega) h

theorem exists_start_of_cut {b : UInt8} {rest : List UInt8} {n : Nat} {reason : Reason}
    (h : cut b rest = ⟨n, .error reason⟩) :
    ∃ bs rest', rest = bs ++ rest' ∧ n = bs.length + 1 ∧ (IsStart (b :: bs) ∨ bs = []) := by
  rcases cut_cases b with ⟨-, hcut⟩ | hcut | ⟨lead, hlead, hcut⟩ <;> rw [hcut] at h
  case inl => simp at h
  case inr.inl =>
    simp only [Piece.mk.injEq] at h
    exact ⟨[], rest, rfl, h.1.symm, .inr rfl⟩
  case inr.inr =>
    obtain ⟨bs, rest', more, c, rfl, hn, hlength, hmore⟩ := tail_eq_error (lead?_cases hlead).2.1 h
    obtain ⟨rest'', hbytes, hsize⟩ := eq_utf8EncodeChar_of_cut ((hcut (bs ++ more)).trans hmore)
    have hstart : b :: bs <+: String.utf8EncodeChar c ++ rest'' := ⟨more, hbytes⟩
    refine ⟨bs, rest', rfl, by omega, .inl ⟨c, ?_⟩⟩
    exact List.prefix_of_prefix_length_le hstart (List.prefix_append _ _) (by rw [List.length_cons]; omega)

/-- A piece that spells nothing is a fault. -/
theorem exists_fault_of_cut {b : UInt8} {rest : List UInt8} {n : Nat} {reason : Reason}
    (h : cut b rest = ⟨n, .error reason⟩) :
    ∃ bad rest', b :: rest = bad ++ rest' ∧ n = bad.length ∧ IsFault bad rest' := by
  obtain ⟨bs, rest', rfl, rfl, hstart⟩ := exists_start_of_cut h
  refine ⟨b :: bs, rest', rfl, rfl, by simp, ?no_char, ?start, ?longest⟩
  case no_char =>
    rintro c ⟨rest'', hc⟩
    obtain ⟨b', bs', hspell, hcut⟩ := cut_utf8EncodeChar c rest''
    rw [hspell, List.cons_append, List.cons_append] at hc
    obtain ⟨rfl, hrest⟩ := List.cons.inj hc
    simp [hrest, h] at hcut
  case start => simpa using hstart
  case longest =>
    rintro longer ⟨rest'', hrest⟩ ⟨c, more, hc⟩
    by_contra hlonger
    cases longer with
    | nil => simp at hlonger
    | cons b' longer =>
      obtain rfl : b' = b := (List.cons.inj hrest).1
      have hnext : longer ++ rest'' = bs ++ rest' := (List.cons.inj hrest).2
      -- the byte after the piece was refused, and would be whatever follows it
      obtain ⟨b'', bs'', hspell, hcut⟩ := cut_utf8EncodeChar c []
      rw [hspell, List.cons_append] at hc
      obtain ⟨rfl, rfl⟩ := List.cons.inj hc
      rw [← hnext] at h
      have hrefused : cut b' (longer ++ more) = ⟨bs.length + 1, .error reason⟩ :=
        cut_error_congr (by simp at hlonger; omega) h
      simp [hrefused] at hcut

/-! ## Cutting the bytes of a file -/

/-- Bytes cut into characters and faults. -/
inductive Cuts : List UInt8 → List Piece → Prop
  | nil : Cuts [] []
  | char (c : Char) {rest : List UInt8} {ps : List Piece} (h : Cuts rest ps) :
    Cuts (String.utf8EncodeChar c ++ rest) (⟨(String.utf8EncodeChar c).length, .ok c⟩ :: ps)
  | fault (reason : Reason) {bad rest : List UInt8} {ps : List Piece} (hbad : IsFault bad rest) (h : Cuts rest ps) :
    Cuts (bad ++ rest) (⟨bad.length, .error reason⟩ :: ps)

theorem drop_of_cons_eq_append {b : UInt8} {rest part rest' : List UInt8} (h : b :: rest = part ++ rest')
    (hpart : part ≠ []) : rest.drop (part.length - 1) = rest' := by
  cases part with
  | nil => exact absurd rfl hpart
  | cons b' part =>
    obtain ⟨-, rfl⟩ := List.cons.inj h
    simp

theorem utf8EncodeChar_ne_nil (c : Char) : String.utf8EncodeChar c ≠ [] := by
  obtain ⟨b, bs, hspell, -⟩ := cut_utf8EncodeChar c []
  simp [hspell]

theorem cuts_pieces (bytes : List UInt8) : Cuts bytes (pieces cut bytes) := by
  induction bytes using pieces.induct cut with
  | case1 =>
    rw [pieces]
    exact .nil
  | case2 b rest piece ih =>
    rw [pieces]
    cases hcut : cut b rest with
    | mk size result =>
      have hpiece : piece = ⟨size, result⟩ := hcut
      rw [hpiece] at ih
      cases result with
      | ok c =>
        obtain ⟨rest', hbytes, rfl⟩ := eq_utf8EncodeChar_of_cut hcut
        rw [drop_of_cons_eq_append hbytes (utf8EncodeChar_ne_nil c)] at ih ⊢
        exact hbytes ▸ .char c ih
      | error reason =>
        obtain ⟨bad, rest', hbytes, rfl, hbad⟩ := exists_fault_of_cut hcut
        rw [drop_of_cons_eq_append hbytes hbad.ne_nil] at ih ⊢
        exact hbytes ▸ .fault reason hbad ih

/-- Read strictly, the bytes are those of a text, or there is a first fault. -/
theorem Cuts.strict_cases {bytes : List UInt8} {ps : List Piece} (h : Cuts bytes ps) (position : Nat) :
    (∃ cs, bytes = encode cs ∧ strict position ps = .ok cs) ∨
    ∃ cs bad rest reason, bytes = encode cs ++ (bad ++ rest) ∧ IsFault bad rest ∧
      strict position ps = .error ⟨position + (encode cs).length, bad.length, reason⟩ := by
  induction h generalizing position with
  | nil => exact .inl ⟨[], rfl, rfl⟩
  | char c h ih =>
    rcases ih (position + (String.utf8EncodeChar c).length) with
      ⟨cs, rfl, hcs⟩ | ⟨cs, bad, rest, reason, rfl, hbad, hcs⟩
    · exact .inl ⟨c :: cs, rfl, by simp only [strict, hcs, Except.map]⟩
    · refine .inr ⟨c :: cs, bad, rest, reason, by rw [encode_cons, List.append_assoc], hbad, ?_⟩
      simp only [strict, hcs, Except.map, encode_cons, List.length_append, Nat.add_assoc]
  | fault reason hbad h ih => exact .inr ⟨[], _, _, reason, rfl, hbad, rfl⟩

/-- UTF-8 in the sense of the library: the bytes of some text. -/
def IsValid (bytes : List UInt8) : Prop :=
  bytes.toByteArray.IsValidUTF8

theorem isValid_iff {bytes : List UInt8} : IsValid bytes ↔ ∃ cs, bytes = encode cs := by
  constructor
  · rintro ⟨cs, h⟩
    refine ⟨cs, ?_⟩
    rw [← List.toList_data_toByteArray (l := bytes), h, List.utf8Encode, List.toList_data_toByteArray, encode]
  · rintro ⟨cs, rfl⟩
    exact ⟨cs, rfl⟩

theorem isValid_encode (cs : List Char) : IsValid (encode cs) :=
  isValid_iff.2 ⟨cs, rfl⟩

theorem encode_decode_eq_iff {bytes : List UInt8} : encode (decode bytes) = bytes ↔ IsValid bytes := by
  constructor
  · intro h
    exact h ▸ isValid_encode _
  · rw [isValid_iff]
    rintro ⟨cs, rfl⟩
    rw [decode_encode]

end CommandTrace.Encoding.Utf8
