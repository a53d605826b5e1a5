/-
Lines of a file with undecodable bytes.

A character is one ASCII byte or has none, and a fault has none
(`IsFault.isAscii`). So where faults are replaced the ASCII bytes stay in their
places (`Cuts.aligned`): an ASCII token stays whole, and the line feeds before it
are the same (`Aligned.exists_token`). Line numbers count line feeds, so they are
those of the file as it was (`keepsLines_of_aligned`).
-/
import CommandTrace.Proofs.Faults

namespace CommandTrace

namespace Encoding.Utf8

/-! ## ASCII bytes -/

def isAscii (b : UInt8) : Bool :=
  b < 0x80

theorem utf8EncodeChar_of_isAscii {b : UInt8} (h : isAscii b = true) :
    String.utf8EncodeChar (Char.ofNat b.toNat) = [b] := by
  have hlt : b.toNat < 128 := UInt8.lt_iff_toNat_lt.1 (of_decide_eq_true h)
  rw [utf8EncodeChar_one hlt, UInt8.ofNat_toNat]

theorem isAscii_ofNat {n : Nat} (hlow : 128 ≤ n) (hhigh : n < 256) : isAscii (UInt8.ofNat n) = false := by
  have hbyte : (UInt8.ofNat n).toNat = n := UInt8.toNat_ofNat_of_lt' (by simpa [UInt8.size] using hhigh)
  rw [isAscii, decide_eq_false_iff_not, UInt8.lt_iff_toNat_lt, hbyte]
  simpa using hlow

/-- A character is one ASCII byte or has none. -/
theorem utf8EncodeChar_cases (c : Char) :
    (∃ b, isAscii b = true ∧ String.utf8EncodeChar c = [b]) ∨ ∀ b ∈ String.utf8EncodeChar c, isAscii b = false := by
  have hvalid : c.val.toNat < 0xD800 ∨ 0xDFFF < c.val.toNat ∧ c.val.toNat < 0x110000 := c.valid
  rw [String.utf8EncodeChar]
  generalize c.val.toNat = v at hvalid
  split
  case isTrue hv =>
    have hbyte : (UInt8.ofNat v).toNat = v := UInt8.toNat_ofNat_of_lt' (by simp [UInt8.size]; omega)
    refine .inl ⟨UInt8.ofNat v, ?_, rfl⟩
    rw [isAscii, decide_eq_true_eq, UInt8.lt_iff_toNat_lt, hbyte]
    exact Nat.lt_succ_of_le hv
  right
  -- all other bytes have their highest bit set
  repeat' split
  all_goals
    simp (disch := omega) only [List.forall_mem_cons, isAscii_ofNat, true_and]
    exact List.forall_mem_nil _

/-- A fault has no ASCII byte. -/
theorem IsFault.isAscii {bad rest : List UInt8} (h : IsFault bad rest) : ∀ b ∈ bad, isAscii b = false := by
  intro b hb
  rw [← Bool.not_eq_true]
  intro hascii
  have hbad : bad = [b] := by
    rcases h.start_or_single with ⟨c, hc⟩ | hsingle
    · rcases utf8EncodeChar_cases c with ⟨b', -, hspell⟩ | hnone
      · rw [hspell] at hc
        obtain rfl : b = b' := by simpa using hc.subset hb
        exact hc.eq_of_length_le (List.length_pos_iff.2 h.ne_nil)
      · rw [hnone b (hc.subset hb)] at hascii
        cases hascii
    · obtain ⟨b', rfl⟩ := List.length_eq_one_iff.1 hsingle
      rw [List.mem_singleton.1 hb]
  exact h.no_char (Char.ofNat b.toNat) (by rw [utf8EncodeChar_of_isAscii hascii, hbad]; exact List.prefix_append _ _)

/-- The same ASCII bytes in the same places: between them, other bytes are put in
the place of others, or these are left out. -/
inductive Aligned : List UInt8 → List UInt8 → Prop
  | nil : Aligned [] []
  | ascii {b : UInt8} {xs ys : List UInt8} (hb : isAscii b = true) (h : Aligned xs ys) : Aligned (b :: xs) (b :: ys)
  | other {us vs xs ys : List UInt8} (hus : ∀ b ∈ us, isAscii b = false) (hvs : ∀ b ∈ vs, isAscii b = false)
    (hne : us ≠ []) (h : Aligned xs ys) : Aligned (us ++ xs) (vs ++ ys)

theorem Cuts.aligned {bytes : List UInt8} {ps : List Piece} (h : Cuts bytes ps) :
    Aligned bytes (encode (lossy ps)) := by
  induction h with
  | nil => exact .nil
  | char c h ih =>
    rcases utf8EncodeChar_cases c with ⟨b, hb, hspell⟩ | hnone
    · rw [lossy, List.map_cons, encode_cons, Piece.char, hspell]
      exact .ascii hb ih
    · exact .other hnone hnone (utf8EncodeChar_ne_nil c) ih
  | fault reason hbad h ih =>
    have hreplacement : ∀ b ∈ String.utf8EncodeChar replacement, isAscii b = false := by decide +kernel
    exact .other hbad.isAscii hreplacement hbad.ne_nil ih

theorem filter_isAscii_eq_nil {l : List UInt8} (h : ∀ b ∈ l, isAscii b = false) : l.filter isAscii = [] :=
  List.filter_eq_nil_iff.2 fun b hb => by simp [h b hb]

theorem Aligned.filter_eq {xs ys : List UInt8} (h : Aligned xs ys) : ys.filter isAscii = xs.filter isAscii := by
  induction h with
  | nil => rfl
  | ascii hb h ih => rw [List.filter_cons_of_pos hb, List.filter_cons_of_pos hb, ih]
  | other hus hvs hne h ih =>
    rw [List.filter_append, List.filter_append, filter_isAscii_eq_nil hus, filter_isAscii_eq_nil hvs, ih]

/-- Where the first part has no ASCII byte, one comes after all of it. -/
theorem exists_append_of_isAscii {us xs before after : List UInt8} {b : UInt8} (hus : ∀ b ∈ us, isAscii b = false)
    (hb : isAscii b = true) (h : us ++ xs = before ++ b :: after) :
    ∃ before', before = us ++ before' ∧ xs = before' ++ b :: after := by
  rcases List.append_eq_append_iff.1 h with ⟨before', rfl, hxs⟩ | ⟨more, rfl, hmore⟩
  · exact ⟨before', rfl, hxs⟩
  · cases more with
    | nil => exact ⟨[], by simp, hmore.symm⟩
    | cons b' more =>
      obtain ⟨rfl, -⟩ := List.cons.inj hmore
      rw [hus b (by simp)] at hb
      cases hb

theorem Aligned.token {xs ys token after : List UInt8} (h : Aligned xs ys) (hxs : xs = token ++ after)
    (htoken : ∀ b ∈ token, isAscii b = true) : ∃ after', ys = token ++ after' := by
  induction token generalizing xs ys with
  | nil => exact ⟨ys, rfl⟩
  | cons b token ih =>
    have hb : isAscii b = true := htoken b (by simp)
    cases h with
    | nil => cases hxs
    | ascii _ h =>
      obtain ⟨rfl, hrest⟩ := List.cons.inj hxs
      obtain ⟨after', rfl⟩ := ih h hrest fun b' hb' => htoken b' (by simp [hb'])
      exact ⟨after', rfl⟩
    | other hus hvs hne h =>
      obtain ⟨before, hnil, -⟩ := exists_append_of_isAscii hus hb (hxs.trans (List.nil_append _).symm)
      exact absurd (List.append_eq_nil_iff.1 hnil.symm).1 hne

/-- An ASCII token stands where it stood: it is whole, and after the same ASCII
bytes. -/
theorem Aligned.exists_token {xs ys before token after : List UInt8} (h : Aligned xs ys)
    (hxs : xs = before ++ (token ++ after)) (hne : token ≠ []) (htoken : ∀ b ∈ token, isAscii b = true) :
    ∃ before' after', ys = before' ++ (token ++ after') ∧ before'.filter isAscii = before.filter isAscii := by
  induction h generalizing before with
  | nil =>
    have hnil := List.append_eq_nil_iff.1 hxs.symm
    exact absurd (List.append_eq_nil_iff.1 hnil.2).1 hne
  | ascii hb h ih =>
    cases before with
    | nil =>
      obtain ⟨after', hys⟩ := (Aligned.ascii hb h).token (hxs.trans (List.nil_append _)) htoken
      exact ⟨[], after', hys, rfl⟩
    | cons b' before =>
      obtain ⟨rfl, hrest⟩ := List.cons.inj hxs
      obtain ⟨before', after', rfl, hbefore⟩ := ih hrest
      exact ⟨_ :: before', after', rfl, by rw [List.filter_cons_of_pos hb, List.filter_cons_of_pos hb, hbefore]⟩
  | @other us vs xs ys hus hvs _ h ih =>
    cases token with
    | nil => exact absurd rfl hne
    | cons b token =>
      obtain ⟨before, rfl, hrest⟩ := exists_append_of_isAscii hus (htoken b (by simp)) hxs
      obtain ⟨before', after', rfl, hbefore⟩ := ih hrest
      refine ⟨vs ++ before', after', by rw [List.append_assoc], ?_⟩
      rw [List.filter_append, List.filter_append, filter_isAscii_eq_nil hus, filter_isAscii_eq_nil hvs, hbefore]

/-- The bytes after a mark, if there is one. -/
def withoutMark (bytes : List UInt8) : List UInt8 :=
  if mark <+: bytes then bytes.drop 3 else bytes

theorem encode_mark (cs : List Char) : encode ('\uFEFF' :: cs) = mark ++ encode cs := rfl

theorem isValid_withoutMark (bytes : List UInt8) : IsValid (withoutMark bytes) ↔ IsValid bytes := by
  rw [withoutMark]
  split
  case isFalse => rfl
  case isTrue hmark =>
    rw [isValid_iff, isValid_iff]
    constructor
    · rintro ⟨cs, hcs⟩
      obtain ⟨rest, rfl⟩ := hmark
      obtain rfl : rest = encode cs := hcs
      exact ⟨'\uFEFF' :: cs, (encode_mark cs).symm⟩
    · rintro ⟨cs, rfl⟩
      obtain ⟨cs, rfl⟩ := List.head?_eq_some_iff.1 (head?_of_mark_isPrefix hmark)
      exact ⟨cs, rfl⟩

theorem aligned_decode (bytes : List UInt8) : Aligned bytes (encode (decode (withoutMark bytes))) := by
  have haligned := (cuts_pieces (withoutMark bytes)).aligned
  by_cases hmark : mark <+: bytes
  · obtain ⟨rest, rfl⟩ := hmark
    have hleft : Aligned (mark ++ rest) ([] ++ encode (decode rest)) :=
      .other (by decide +kernel) (by simp) (by decide) haligned
    exact hleft
  · rwa [withoutMark, if_neg hmark] at haligned ⊢

end Encoding.Utf8

namespace SyntaxTree

open Encoding.Utf8

variable {t : SyntaxTree}

theorem count_filter_isAscii (bytes : List UInt8) : (bytes.filter isAscii).count 0x0A = bytes.count 0x0A :=
  List.count_filter rfl

theorem line_eq (n : Nat) : t.line n = (t.source.toList.take (t.start n)).count 0x0A + 1 := by
  rw [line, ← Array.count_toList, Array.toList_extract]
  rfl

/-- The lines of `raw` are those of a tree over `out`. An ASCII token of `raw` is
in `out`, and a node that starts with it has the number of the token's line; and
any node has the number of a line of `raw`, at a place with the same ASCII bytes
before and after it. -/
structure KeepsLines (raw out : List UInt8) : Prop where
  token : ∀ before token after, raw = before ++ (token ++ after) → token ≠ [] → (∀ b ∈ token, isAscii b = true) →
    ∃ before' after', out = before' ++ (token ++ after') ∧ before'.filter isAscii = before.filter isAscii ∧
      ∀ t : SyntaxTree, t.source.toList = out → ∀ n, t.start n = before'.length → t.line n = before.count 0x0A + 1
  node : ∀ t : SyntaxTree, t.source.toList = out → ∀ n, ∃ before after, raw = before ++ after ∧
    before.filter isAscii = (out.take (t.start n)).filter isAscii ∧
    after.filter isAscii = (out.drop (t.start n)).filter isAscii ∧ t.line n = before.count 0x0A + 1

theorem keepsLines_of_aligned {raw out : List UInt8} (h : Aligned raw out) : KeepsLines raw out := by
  refine ⟨fun before token after hraw hne htoken => ?_, fun t hsource n => ?_⟩
  · obtain ⟨before', after', hout, hbefore⟩ := h.exists_token hraw hne htoken
    refine ⟨before', after', hout, hbefore, fun t hsource n hstart => ?_⟩
    rw [line_eq, hsource, hout, hstart, List.take_left, ← count_filter_isAscii, hbefore, count_filter_isAscii]
  · have hsplit : raw.filter isAscii =
        (out.take (t.start n)).filter isAscii ++ (out.drop (t.start n)).filter isAscii := by
      rw [← List.filter_append, List.take_append_drop, h.filter_eq]
    obtain ⟨before, after, hraw, hbefore, hafter⟩ := List.filter_eq_append_iff.1 hsplit
    refine ⟨before, after, hraw, hbefore, hafter, ?_⟩
    rw [line_eq, hsource, ← count_filter_isAscii, ← hbefore, count_filter_isAscii]

end SyntaxTree

namespace Source

open Encoding Utf8

variable {path : Path} {given : String}

theorem unmark_utf8 {bytes : List UInt8} (h : ∀ order, ¬Utf16.mark order <+: bytes) :
    unmark "utf-8" bytes = (withoutMark bytes, "utf-8") := by
  by_cases hmark : mark <+: bytes
  · simp [unmark, withoutMark, hmark]
  · rw [unmark_unmarked hmark (markedOrder?_eq_none_iff.2 h), withoutMark, if_neg hmark]

theorem normalize_of_isValid {bytes content : List UInt8} (h : unmark given bytes = (content, "utf-8"))
    (hvalid : IsValid content) : normalize path given bytes = pure content := by
  obtain ⟨cs, rfl⟩ := isValid_iff.1 hvalid
  exact normalize_of_decode h (by decide) (by decide +kernel) (decode?_encode cs)

/-- The first fault is reported, and each is replaced. -/
theorem normalize_of_not_isValid (path : Path) {bytes content : List UInt8}
    (h : unmark given bytes = (content, "utf-8")) (hvalid : ¬IsValid content) :
    ∃ cs bad rest, content = encode cs ++ (bad ++ rest) ∧ IsFault bad rest ∧
      normalize path given bytes =
        ⟨[.bytesReplaced path "utf-8" (encode cs).length], .ok (encode (Utf8.decode content))⟩ := by
  rcases (cuts_pieces content).strict_cases 0 with ⟨cs, hcs, -⟩ | ⟨cs, bad, rest, reason, hcs, hbad, hstrict⟩
  · exact absurd (isValid_iff.2 ⟨cs, hcs⟩) hvalid
  · refine ⟨cs, bad, rest, hcs, hbad, ?_⟩
    obtain ⟨error, hdecode, hposition⟩ : ∃ error, Encoding.utf8.decode? content = .error error ∧
        error.flaw.position = (encode cs).length := by
      simp [decode?, reading, Reading.decode?, hstrict]
    have hname : ofName? "utf-8" = some .utf8 := by decide +kernel
    have hzero : "utf-8".toList.contains '\x00' = false := by decide
    have hne : content ≠ [] := by simp [hcs, hbad.ne_nil]
    simp only [normalize, h, hzero, Bool.false_eq_true, if_false, hne, hname, hdecode, hposition]
    rfl

/-- **Undecodable bytes never move code to another line.** Bytes that have no
UTF-16 mark and are said to be UTF-8 become valid UTF-8. Where they are valid they
are kept, a mark apart, and nothing is reported; otherwise they are changed, and the
first fault is reported. They are cut into characters and faults, and each fault
becomes one replacement. The ASCII bytes stay, and the lines with them. -/
theorem undecodable_bytes_keep_lines (path : Path) (raw : List UInt8) (h : ∀ order, ¬Utf16.mark order <+: raw) :
    ∃ out, (normalize path "utf-8" raw).outcome = .ok out ∧ IsValid out ∧
      (out = withoutMark raw ↔ IsValid raw) ∧
      ((normalize path "utf-8" raw).events = [] ↔ IsValid raw) ∧
      (¬IsValid raw → ∃ cs bad rest, withoutMark raw = encode cs ++ (bad ++ rest) ∧ IsFault bad rest ∧
        (normalize path "utf-8" raw).events = [.bytesReplaced path "utf-8" (encode cs).length]) ∧
      (∃ ps, Cuts (withoutMark raw) ps ∧ out = encode (lossy ps)) ∧
      out.filter isAscii = raw.filter isAscii ∧ SyntaxTree.KeepsLines raw out := by
  have haligned := aligned_decode raw
  have hunmark := unmark_utf8 h
  rw [← isValid_withoutMark raw]
  suffices hresult : (normalize path "utf-8" raw).outcome = .ok (encode (Utf8.decode (withoutMark raw))) ∧
      ((normalize path "utf-8" raw).events = [] ↔ IsValid (withoutMark raw)) ∧
      (¬IsValid (withoutMark raw) → ∃ cs bad rest, withoutMark raw = encode cs ++ (bad ++ rest) ∧ IsFault bad rest ∧
        (normalize path "utf-8" raw).events = [.bytesReplaced path "utf-8" (encode cs).length]) by
    obtain ⟨houtcome, hsilent, hreported⟩ := hresult
    exact ⟨_, houtcome, isValid_encode _, encode_decode_eq_iff, hsilent, hreported,
      ⟨_, cuts_pieces (withoutMark raw), rfl⟩, haligned.filter_eq, SyntaxTree.keepsLines_of_aligned haligned⟩
  by_cases hvalid : IsValid (withoutMark raw)
  · rw [normalize_of_isValid hunmark hvalid, encode_decode_eq_iff.2 hvalid]
    exact ⟨rfl, iff_of_true rfl hvalid, fun hinvalid => absurd hvalid hinvalid⟩
  · obtain ⟨cs, bad, rest, hcontent, hbad, hresult⟩ := normalize_of_not_isValid path hunmark hvalid
    rw [hresult]
    exact ⟨rfl, iff_of_false (by simp) hvalid, fun _ => ⟨cs, bad, rest, hcontent, hbad, rfl⟩⟩

namespace Broken

/-- Two lines around the start of a euro sign that breaks off at the line's end, and
a byte that starts nothing. -/
def raw : List UInt8 := [0x61, 0x0A, 0xE2, 0x82, 0x0A, 0xFF, 0x62]

def out : List UInt8 := [0x61, 0x0A, 0xEF, 0xBF, 0xBD, 0x0A, 0xEF, 0xBF, 0xBD, 0x62]

/-- The line feed after the broken character stays, so the last byte is on line
three in both. -/
theorem last_byte_keeps_line :
    (∀ order, ¬Utf16.mark order <+: raw) ∧
    (normalize (.ofString "A.cs") "utf-8" raw).outcome = .ok out ∧
    (normalize (.ofString "A.cs") "utf-8" raw).events = [.bytesReplaced (.ofString "A.cs") "utf-8" 2] ∧
    ¬IsValid raw ∧ IsValid out ∧ out.filter isAscii = raw.filter isAscii ∧
    ∀ t : SyntaxTree, t.source.toList = out → ∀ n, t.start n = 9 → t.line n = 3 := by
  have hmark : ∀ order, ¬Utf16.mark order <+: raw := by
    intro order
    cases order <;> decide
  obtain ⟨found, houtcome, hvalid, -, hsilent, -, -, hascii, hlines⟩ :=
    undecodable_bytes_keep_lines (.ofString "A.cs") raw hmark
  have hout : (normalize (.ofString "A.cs") "utf-8" raw).outcome = .ok out := by decide +kernel
  have hevents : (normalize (.ofString "A.cs") "utf-8" raw).events =
      [.bytesReplaced (.ofString "A.cs") "utf-8" 2] := by decide +kernel
  obtain rfl : out = found := Except.ok.inj (hout.symm.trans houtcome)
  have hinvalid : ¬IsValid raw := fun h => by simp [hevents] at hsilent; exact hsilent h
  refine ⟨hmark, hout, hevents, hinvalid, hvalid, hascii, fun t hsource n hstart => ?_⟩
  obtain ⟨before, after, -, hbefore, -, hline⟩ := hlines.node t hsource n
  rw [hline, ← SyntaxTree.count_filter_isAscii, hbefore, hstart]
  decide

end Broken

end Source

end CommandTrace
