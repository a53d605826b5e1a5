/-
Literals spelled by their code units.

The scanned language counts texts in UTF-16. A character past the basic plane is
two code units there, the one a high and the other a low surrogate, and `\u` spells
one of them. A literal is decoded escape by escape, so each code unit becomes a code
point of its own and the two are not put together. A literal spelled by code units
has the value that they encode exactly if all its characters are in the basic
plane (`Utf16.flatMap_units_eq_iff`), and what an escape with the number of a
surrogate leaves in a text (`Cut.isSurrogate_iff`) keeps its row from being written
(`Csv.write_error_eq_none_iff`).
-/
import CommandTrace.Encoding.Utf16
import CommandTrace.Proofs.Aggregation
import CommandTrace.Proofs.Escapes
import CommandTrace.Proofs.Line
import CommandTrace.Proofs.ReadBack

namespace CommandTrace

/-! ## Code units -/

namespace Encoding.Utf16

/-- Characters are their own code units exactly in the basic plane. -/
theorem flatMap_units_eq_iff {s : List Char} : s.flatMap units = s.map Char.toNat ↔ ∀ c ∈ s, c.toNat < 0x10000 := by
  induction s with
  | nil => simp
  | cons c s ih =>
    rw [List.flatMap_cons, List.map_cons, List.forall_mem_cons]
    by_cases hc : c.toNat < 0x10000
    · rw [units, if_pos hc, List.singleton_append, List.cons.injEq, ih, eq_self, true_and, and_iff_right hc]
    · -- the first of the two code units is a surrogate, and the character is not
      have hlast : c.toNat < 0x110000 := (CodePoint.ofChar c).isLt
      rw [units, if_neg hc, List.cons_append, List.cons.injEq]
      refine iff_of_false (fun h => ?_) fun h => hc h.1
      omega

end Encoding.Utf16

namespace Literal

/-- The lexeme is `\u` with the digits of a code unit. -/
def IsUnit (lexeme : Lexeme) (u : Nat) : Prop :=
  ∃ digits, lexeme = .code 'u' digits ∧ digits.length = 4 ∧ (∀ d ∈ digits, IsHex d) ∧ hexNumber digits = u

/-- Each code unit denotes a code point of its own. -/
theorem exists_spells_of_units {lexemes : List Lexeme} {units : List Nat} (h : List.Forall₂ IsUnit lexemes units) :
    ∃ text, Spells lexemes text ∧ text.map CodePoint.value = units := by
  induction h with
  | nil => exact ⟨[], .nil, rfl⟩
  | cons hunit _ ih =>
    obtain ⟨digits, rfl, hlength, hhex, rfl⟩ := hunit
    obtain ⟨text, hspells, rfl⟩ := ih
    have hlt := hexNumber_lt hhex
    rw [hlength] at hlt
    refine ⟨⟨hexNumber digits, by omega⟩ :: text, ?_, rfl⟩
    exact .code (.four hlength hhex) rfl hspells

/-- The lexeme has the number of a surrogate. -/
def Lexeme.NamesSurrogate : Lexeme → Prop
  | code _ digits => 0xD800 ≤ hexNumber digits ∧ hexNumber digits < 0xE000
  | _ => False

theorem isSurrogate_of_value {lexeme : Lexeme} {p : CodePoint} (h : lexeme.part.value = .ok p) :
    p.isSurrogate = true ↔ lexeme.NamesSurrogate := by
  cases lexeme with
  | plain c =>
    obtain rfl := Except.ok.inj h
    simp [CodePoint.isSurrogate_ofChar, Lexeme.NamesSurrogate]
  | escape c =>
    obtain rfl := Except.ok.inj h
    simp [CodePoint.isSurrogate_ofChar, Lexeme.NamesSurrogate]
  | code letter digits =>
    simp only [Lexeme.part, Part.value] at h
    split at h
    · obtain rfl := Except.ok.inj h
      simp [CodePoint.isSurrogate, Lexeme.NamesSurrogate]
    · split at h <;> cases h

theorem isSurrogate_of_values {lexemes : List Lexeme} {text : Text}
    (h : values (lexemes.map Lexeme.part) = .ok text) :
    (∀ p ∈ text, p.isSurrogate = false) ↔ ∀ lexeme ∈ lexemes, ¬ lexeme.NamesSurrogate := by
  induction lexemes generalizing text with
  | nil =>
    obtain rfl : [] = text := Except.ok.inj h
    simp
  | cons lexeme lexemes ih =>
    rw [List.map_cons, values] at h
    cases hvalue : lexeme.part.value with
    | error fault => simp [hvalue, bind, Except.bind] at h
    | ok p =>
      cases hvalues : values (lexemes.map Lexeme.part) with
      | error fault => simp [hvalue, hvalues, bind, Except.bind] at h
      | ok rest =>
        obtain rfl : p :: rest = text := by simpa [hvalue, hvalues, bind, Except.bind, pure, Except.pure] using h
        rw [List.forall_mem_cons, List.forall_mem_cons, ih hvalues, ← isSurrogate_of_value hvalue, Bool.not_eq_true]

/-- A body is decoded without surrogates exactly if no lexeme names one. -/
theorem Cut.isSurrogate_iff {body : List Char} {lexemes : List Lexeme} (h : Cut body lexemes) {text : Text}
    (htext : unescape body = .ok text) :
    (∀ p ∈ text, p.isSurrogate = false) ↔ ∀ lexeme ∈ lexemes, ¬ lexeme.NamesSurrogate := by
  rw [unescape, h.parts_eq] at htext
  exact isSurrogate_of_values htext

end Literal

/-! ## Writing -/

namespace Csv

theorem mem_cell_of_mem {text : Text} {p : CodePoint} (h : p ∈ text) : p ∈ cell text := by
  unfold cell
  split
  · refine List.mem_append_left _ (List.mem_cons_of_mem _ (List.mem_flatMap.2 ⟨p, h, ?_⟩))
    split <;> simp [*]
  · exact h

theorem mem_line_of_mem {cells : List Text} {text : Text} {p : CodePoint} (hmem : text ∈ cells) (h : p ∈ text) :
    p ∈ line cells := by
  induction cells with
  | nil => cases hmem
  | cons first others ih =>
    cases others with
    | nil =>
      rw [List.mem_singleton.1 hmem] at h
      exact List.mem_append_left _ (mem_cell_of_mem h)
    | cons second others =>
      rw [line_cons_cons]
      rcases List.mem_cons.1 hmem with rfl | hmem
      · exact List.mem_append_left _ (mem_cell_of_mem h)
      · exact List.mem_append_right _ (List.mem_cons_of_mem _ (ih hmem))

theorem exists_encode_line_iff {row : Row} :
    (∃ s, (line row.cells).encode = .ok s) ↔ ∀ p ∈ row.text, p.isSurrogate = false := by
  rw [Text.exists_encode_iff]
  constructor
  · exact fun h p hp => h p (mem_line_of_mem (by simp [Row.cells]) hp)
  · intro h
    refine isSurrogate_line fun text htext p hp => ?_
    simp only [Row.cells, List.mem_cons, List.not_mem_nil, or_false] at htext
    rcases htext with rfl | rfl | rfl | rfl | rfl
    · exact Text.isSurrogate_ofString hp
    · exact Text.isSurrogate_ofString hp
    · exact h p hp
    · exact Text.isSurrogate_ofString hp
    · exact Text.isSurrogate_ofString hp

theorem writeRows_error_eq_none_iff {rows : List Row} {written : Written} (h : written.error = none) :
    (writeRows written rows).error = none ↔ ∀ row ∈ rows, ∃ s, (line row.cells).encode = .ok s := by
  induction rows generalizing written with
  | nil => simp [writeRows, h]
  | cons row rows ih =>
    rw [writeRows, List.forall_mem_cons]
    cases hencode : (line row.cells).encode with
    | error error => simp
    | ok s =>
      rw [and_iff_right ⟨s, rfl⟩]
      exact ih h

/-- Writing stops exactly at a surrogate in a command text. -/
theorem write_error_eq_none_iff {rows : List Row} :
    (write rows).error = none ↔ ∀ row ∈ rows, ∀ p ∈ row.text, p.isSurrogate = false := by
  rw [write, writeRows_error_eq_none_iff rfl]
  simp only [exists_encode_line_iff]

end Csv

theorem Text.removeAll_sublist (token t : Text) : (removeAll token t).Sublist t := by
  induction t using removeAll.induct token with
  | case1 => simp [removeAll]
  | case2 p rest hstart ih =>
    rw [removeAll, if_pos hstart]
    exact (ih.trans (List.drop_sublist _ _)).cons p
  | case3 p rest hstart ih =>
    rw [removeAll, if_neg hstart]
    exact ih.cons_cons p

namespace Report

theorem clean_sublist (tokens : List Text) (text : Text) : (clean tokens text).Sublist text := by
  induction tokens generalizing text with
  | nil => exact List.Sublist.refl text
  | cons token tokens ih => exact (ih _).trans (Text.removeAll_sublist token text)

/-- Rows have no code points that the texts of the records do not have. -/
theorem mem_text_of_mem_rows {tokens : List Text} {records : List Record} {row : Row} (h : row ∈ rows tokens records)
    {p : CodePoint} (hp : p ∈ row.text) : ∃ r ∈ records, p ∈ r.text := by
  obtain ⟨r, hr, -, hrow⟩ := mem_rows.1 h
  refine ⟨r, hr, ?_⟩
  rw [rowsOf] at hrow
  split at hrow
  · rw [List.mem_singleton.1 hrow] at hp
    cases hp
  · obtain ⟨text, htext, rfl⟩ := List.mem_map.1 hrow
    obtain ⟨part, hpart, rfl⟩ := List.mem_map.1 (List.mem_filter.1 htext).1
    have hp : p ∈ part := (clean_sublist tokens part).subset hp
    have hpart : part ∈ alternatives r := (List.mem_filter.1 hpart).1
    rw [alternatives] at hpart
    split at hpart
    · exact List.mem_singleton.1 hpart ▸ hp
    · exact mem_of_mem_fields hpart hp

end Report

namespace SyntaxTree

open Literal in
theorem literalValue_of_spells {t : SyntaxTree} {i : Nat} (htype : t.type i = "string_literal")
    {lexemes : List Lexeme} {text : Text} (h : Spells lexemes text)
    (htext : (t.text i).toList = '"' :: (lexemes.flatMap Lexeme.spelling ++ ['"'])) : t.literalValue i = .ok text := by
  rw [literalValue_of_string htype, htext, dropSuffix_quoted, inner_quoted, h.unescape_eq]

open Literal in
/-- **When code units are decoded to the text that they encode.** A literal that
spells a text by `\u` with its code units has the value of the code units one by
one, which is the text exactly if all its characters are in the basic plane. The
value of any literal has a surrogate exactly if one of its lexemes has the number of
one; rows are all written exactly if none has a surrogate in its command text, and
so are the rows of records without surrogates. -/
theorem code_units_decode_iff (t : SyntaxTree) (i : Nat) (htype : t.type i = "string_literal") :
    (∀ s lexemes, List.Forall₂ IsUnit lexemes (s.flatMap Encoding.Utf16.units) →
        (t.text i).toList = '"' :: (lexemes.flatMap Lexeme.spelling ++ ['"']) →
        ∃ text, t.literalValue i = .ok text ∧ text.map CodePoint.value = s.flatMap Encoding.Utf16.units ∧
          (text = .ofChars s ↔ ∀ c ∈ s, c.toNat < 0x10000)) ∧
      (∀ text lexemes, t.literalValue i = .ok text → Cut (inner (dropSuffix (t.text i).toList)) lexemes →
        ((∀ p ∈ text, p.isSurrogate = false) ↔ ∀ lexeme ∈ lexemes, ¬ lexeme.NamesSurrogate)) ∧
      (∀ rows, (Csv.write rows).error = none ↔ ∀ row ∈ rows, ∀ p ∈ row.text, p.isSurrogate = false) ∧
      ∀ tokens records, (∀ r ∈ records, ∀ p ∈ r.text, p.isSurrogate = false) →
        (Csv.write (Report.rows tokens records)).error = none := by
  refine ⟨?units, ?surrogates, fun rows => Csv.write_error_eq_none_iff, ?records⟩
  case units =>
    intro s lexemes hunits htext
    obtain ⟨text, hspells, hvalues⟩ := exists_spells_of_units hunits
    refine ⟨text, literalValue_of_spells htype hspells htext, hvalues, ?_⟩
    -- texts are the same if the numbers of their code points are
    have hsame : text = .ofChars s ↔ text.map CodePoint.value = (Text.ofChars s).map CodePoint.value :=
      (List.map_inj_right fun _ _ => CodePoint.value_injective).symm
    rw [hsame, hvalues, Text.ofChars, List.map_map, ← Encoding.Utf16.flatMap_units_eq_iff]
    rfl
  case surrogates =>
    intro text lexemes hvalue hcut
    exact hcut.isSurrogate_iff (literalValue_of_string htype ▸ hvalue)
  case records =>
    intro tokens records h
    refine Csv.write_error_eq_none_iff.2 fun row hrow p hp => ?_
    obtain ⟨r, hr, hmem⟩ := Report.mem_text_of_mem_rows hrow hp
    exact h r hr p hmem

namespace CodeUnits

open Literal

/-- The literals `"\u0041\u20ac"` and `"\uD83D\uDE00"`. -/
def tree : SyntaxTree :=
  .ofParseTree (.ofString "U.cs") "\"\\u0041\\u20ac\"\"\\uD83D\\uDE00\"".toUTF8.data
    (.node ⟨"compilation_unit", none, 0, 28, true⟩
      [.node ⟨"string_literal", none, 0, 14, true⟩ [], .node ⟨"string_literal", none, 14, 28, true⟩ []]) false

def basic : List Lexeme := [.code 'u' ['0', '0', '4', '1'], .code 'u' ['2', '0', 'a', 'c']]

def pair : List Lexeme := [.code 'u' ['D', '8', '3', 'D'], .code 'u' ['D', 'E', '0', '0']]

/-- The two surrogates of the character 0x1F600. -/
def surrogates : Text := [⟨0xD83D, by decide⟩, ⟨0xDE00, by decide⟩]

/-- A row with a command text. -/
def row (text : Text) : Row := ⟨.ofString "U.cs", 1, text, false, ""⟩

theorem isUnit_of_all {digits : List Char} (hlength : digits.length = 4)
    (h : (digits.all fun d => IsHex d) = true) : IsUnit (.code 'u' digits) (hexNumber digits) :=
  ⟨digits, rfl, hlength, isHex_of_all h, rfl⟩

/-- A letter and the euro sign are decoded, and a row with them is written. -/
theorem basic_plane_decoded :
    tree.type 1 = "string_literal" ∧
      List.Forall₂ IsUnit basic (['A', '€'].flatMap Encoding.Utf16.units) ∧
      (tree.text 1).toList = '"' :: (basic.flatMap Lexeme.spelling ++ ['"']) ∧
      tree.literalValue 1 = .ok (.ofChars ['A', '€']) ∧
      (Csv.write [row (.ofChars ['A', '€'])]).error = none := by
  have htype : tree.type 1 = "string_literal" := by decide +kernel
  have hunits : List.Forall₂ IsUnit basic (['A', '€'].flatMap Encoding.Utf16.units) :=
    .cons (isUnit_of_all rfl (by decide +kernel)) (.cons (isUnit_of_all rfl (by decide +kernel)) .nil)
  have htext : (tree.text 1).toList = '"' :: (basic.flatMap Lexeme.spelling ++ ['"']) := by decide +kernel
  obtain ⟨hdecodes, -, hwrites, -⟩ := code_units_decode_iff tree 1 htype
  obtain ⟨text, hvalue, -, hiff⟩ := hdecodes ['A', '€'] basic hunits htext
  obtain rfl := hiff.2 (by simp)
  exact ⟨htype, hunits, htext, hvalue, (hwrites _).2 (by decide)⟩

/-- The code units of one character past the basic plane stay apart, and a row
with them cannot be written. -/
theorem pair_stays_apart :
    tree.type 2 = "string_literal" ∧
      List.Forall₂ IsUnit pair ([Char.ofNat 0x1F600].flatMap Encoding.Utf16.units) ∧
      (tree.text 2).toList = '"' :: (pair.flatMap Lexeme.spelling ++ ['"']) ∧
      tree.literalValue 2 = .ok surrogates ∧ tree.literalValue 2 ≠ .ok (.ofChars [Char.ofNat 0x1F600]) ∧
      (Csv.write [row surrogates]).error ≠ none := by
  have htype : tree.type 2 = "string_literal" := by decide +kernel
  have hunits : List.Forall₂ IsUnit pair ([Char.ofNat 0x1F600].flatMap Encoding.Utf16.units) :=
    .cons (isUnit_of_all rfl (by decide +kernel)) (.cons (isUnit_of_all rfl (by decide +kernel)) .nil)
  have htext : (tree.text 2).toList = '"' :: (pair.flatMap Lexeme.spelling ++ ['"']) := by decide +kernel
  have hspells : Spells pair surrogates :=
    .code (.four rfl (isHex_of_all (by decide +kernel))) (by decide +kernel)
      (.code (.four rfl (isHex_of_all (by decide +kernel))) (by decide +kernel) .nil)
  have hvalue : tree.literalValue 2 = .ok surrogates := literalValue_of_spells htype hspells htext
  refine ⟨htype, hunits, htext, hvalue, fun h => ?_, by decide +kernel⟩
  rw [hvalue] at h
  exact absurd (Except.ok.inj h) (by decide)

end CodeUnits

end SyntaxTree

end CommandTrace
