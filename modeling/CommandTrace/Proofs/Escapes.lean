/-
How regular literals are decoded.

The body of a literal is a sequence of lexemes: characters, simple escapes, and
escapes with a hexadecimal number. `Cut` is the tokenisation from the left, in
which an escape takes the digits that belong to it and never more. Every body
has exactly one (`exists_cut`, `Cut.unique`), and the parts that are decoded are
those of its lexemes (`Cut.parts_eq`).

A sequence in which the digits of each number are delimited (`Spells`) is cut
into what it was spelled from, so a literal has the value of its lexemes one by
one. The only lexeme without a value is a number past the last code point, which
takes the eight digits of `\U`: `literal_decodes_by_units`.
-/
import CommandTrace.Syntax.Literal
import Mathlib.Data.List.Induction
import Mathlib.Data.Nat.Digits.Lemmas

namespace CommandTrace

namespace Literal

/-! ## Hexadecimal numbers -/

/-- The hexadecimal digits, small and capital. -/
def hexChars : List Char :=
  "0123456789abcdefABCDEF".toList

def IsHex (c : Char) : Prop :=
  c ∈ hexChars

instance (c : Char) : Decidable (IsHex c) := inferInstanceAs (Decidable (_ ∈ _))

/-- The value of a hexadecimal digit. -/
def hexOrd (c : Char) : Nat :=
  "0123456789abcdef".toList.idxOf c.toLower

/-- The number that hexadecimal digits stand for. -/
def hexNumber (digits : List Char) : Nat :=
  Nat.ofDigits 16 (digits.reverse.map hexOrd)

theorem toNat_lt_of_isHex {c : Char} (h : IsHex c) : c.toNat < 128 := by
  have hall : (hexChars.all fun d => d.toNat < 128) = true := by decide +kernel
  exact of_decide_eq_true (List.all_eq_true.1 hall c h)

theorem isHex_of_all {digits : List Char} (h : (digits.all fun d => IsHex d) = true) : ∀ d ∈ digits, IsHex d :=
  fun d hd => of_decide_eq_true (List.all_eq_true.1 h d hd)

theorem hexDigit?_eq (c : Char) : hexDigit? c = if IsHex c then some (hexOrd c) else none := by
  by_cases hc : c.toNat < 128
  · have hall : ∀ n < 128, hexDigit? (Char.ofNat n) =
        if IsHex (Char.ofNat n) then some (hexOrd (Char.ofNat n)) else none := by decide +kernel
    simpa using hall c.toNat hc
  · have hlarge : ∀ d : Char, d.toNat < 128 → ¬ c ≤ d := by
      intro d hd hle
      exact hc (Nat.lt_of_le_of_lt hle hd)
    rw [if_neg (mt toNat_lt_of_isHex hc), hexDigit?]
    simp [hlarge '9' (by decide), hlarge 'f' (by decide), hlarge 'F' (by decide)]

theorem hexValue_map (digits : List Char) : hexValue (digits.map hexOrd) = hexNumber digits := by
  -- from the end, since both the reading and the number add the last digit there
  induction digits using List.reverseRecOn with
  | nil => rfl
  | append_singleton digits d ih =>
    have hlast : hexValue ((digits ++ [d]).map hexOrd) = 16 * hexValue (digits.map hexOrd) + hexOrd d := by
      simp [hexValue, List.foldl_append]
    rw [hlast, ih, hexNumber, hexNumber, List.reverse_concat, List.map_cons, Nat.ofDigits_cons, Nat.add_comm]

theorem hexNumber_lt {digits : List Char} (h : ∀ d ∈ digits, IsHex d) : hexNumber digits < 16 ^ digits.length := by
  have hord : (hexChars.all fun d => hexOrd d < 16) = true := by decide +kernel
  have hlt : ∀ n ∈ digits.reverse.map hexOrd, n < 16 := by
    intro n hn
    obtain ⟨d, hd, rfl⟩ := List.mem_map.1 hn
    exact of_decide_eq_true (List.all_eq_true.1 hord d (h d (List.mem_reverse.1 hd)))
  simpa [hexNumber] using Nat.ofDigits_lt_base_pow_length (by decide : 1 < 16) hlt

/-- Delimited digits are read whole. -/
theorem hexDigits_append {digits rest : List Char} {most : Nat} (hhex : ∀ d ∈ digits, IsHex d)
    (hmost : digits.length ≤ most) (hstop : digits.length < most → ∀ c ∈ rest.head?, ¬ IsHex c) :
    hexDigits most (digits ++ rest) = digits.map hexOrd := by
  induction digits generalizing most with
  | nil =>
    cases most with
    | zero => rfl
    | succ most =>
      cases rest with
      | nil => rfl
      | cons c rest =>
        have hc : ¬ IsHex c := hstop (by simp) c rfl
        simp [hexDigits, hexDigit?_eq, hc]
  | cons d digits ih =>
    obtain ⟨most, rfl⟩ : ∃ m, most = m + 1 := ⟨most - 1, by simp only [List.length_cons] at hmost; omega⟩
    obtain ⟨hd, hdigits⟩ := List.forall_mem_cons.1 hhex
    simp only [List.length_cons, Nat.add_le_add_iff_right, Nat.add_lt_add_iff_right] at hmost hstop
    simp only [List.cons_append, hexDigits, hexDigit?_eq, if_pos hd, ih hdigits hmost hstop, List.map_cons]

/-- Every text starts with delimited digits, of which there may be none. -/
theorem exists_hexDigits (most : Nat) (text : List Char) :
    ∃ digits rest, text = digits ++ rest ∧ (∀ d ∈ digits, IsHex d) ∧ digits.length ≤ most ∧
      (digits.length < most → ∀ c ∈ rest.head?, ¬ IsHex c) := by
  induction most generalizing text with
  | zero => exact ⟨[], text, rfl, by simp, by simp, by simp⟩
  | succ most ih =>
    cases text with
    | nil => exact ⟨[], [], rfl, by simp, by simp, by simp⟩
    | cons c text =>
      by_cases hc : IsHex c
      · obtain ⟨digits, rest, rfl, hhex, hmost, hstop⟩ := ih text
        refine ⟨c :: digits, rest, rfl, List.forall_mem_cons.2 ⟨hc, hhex⟩, by simpa using hmost, fun h => ?_⟩
        exact hstop (by simpa using h)
      · exact ⟨[], c :: text, rfl, by simp, by simp, by simp [hc]⟩

/-! ## Lexemes -/

/-- The lexical units of a body. -/
inductive Lexeme where
  | plain (c : Char)
  /-- A backslash and a character. -/
  | escape (c : Char)
  /-- A backslash, a letter, and the digits of a number. -/
  | code (letter : Char) (digits : List Char)
deriving DecidableEq

namespace Lexeme

def spelling : Lexeme → List Char
  | plain c => [c]
  | escape c => ['\\', c]
  | code letter digits => '\\' :: letter :: digits

def part : Lexeme → Part
  | plain c => .plain c
  | escape c => .escaped c
  | code _ digits => .coded (hexNumber digits)

end Lexeme

/-- After a backslash, the letter takes these digits of a text and leaves the
rest: `u` takes four, `U` eight, and `x` up to four, as many as there are. -/
inductive IsCode : (letter : Char) → (digits rest : List Char) → Prop
  | four {digits rest : List Char} : digits.length = 4 → (∀ d ∈ digits, IsHex d) → IsCode 'u' digits rest
  | eight {digits rest : List Char} : digits.length = 8 → (∀ d ∈ digits, IsHex d) → IsCode 'U' digits rest
  | upToFour {digits rest : List Char} : 1 ≤ digits.length → digits.length ≤ 4 → (∀ d ∈ digits, IsHex d) →
      (digits.length < 4 → ∀ c ∈ rest.head?, ¬ IsHex c) → IsCode 'x' digits rest

/-- The lexemes of a body, from the left. A letter that cannot take its digits
is an escape like any other, and a backslash at the very end is a character. -/
inductive Cut : List Char → List Lexeme → Prop
  | nil : Cut [] []
  | plain {c : Char} {rest : List Char} {lexemes : List Lexeme} : c ≠ '\\' → Cut rest lexemes →
      Cut (c :: rest) (.plain c :: lexemes)
  | last : Cut ['\\'] [.plain '\\']
  | code {letter : Char} {digits rest : List Char} {lexemes : List Lexeme} : IsCode letter digits rest →
      Cut rest lexemes → Cut ('\\' :: letter :: (digits ++ rest)) (.code letter digits :: lexemes)
  | escape {c : Char} {rest : List Char} {lexemes : List Lexeme} :
      (∀ digits tail, rest = digits ++ tail → ¬ IsCode c digits tail) → Cut rest lexemes →
      Cut ('\\' :: c :: rest) (.escape c :: lexemes)

theorem IsCode.isHex {letter : Char} {digits rest : List Char} (h : IsCode letter digits rest) :
    ∀ d ∈ digits, IsHex d := by
  cases h <;> assumption

/-- A letter with digits is read as their number. -/
theorem IsCode.escapePart_eq {letter : Char} {digits rest : List Char} (h : IsCode letter digits rest) :
    escapePart letter (digits ++ rest) = (.coded (hexNumber digits), digits.length) := by
  have hread : ∀ {least most : Nat}, codeWidth? letter = some (least, most) → least ≤ digits.length →
      digits.length ≤ most → (digits.length < most → ∀ c ∈ rest.head?, ¬ IsHex c) →
      escapePart letter (digits ++ rest) = (.coded (hexNumber digits), digits.length) := by
    intro least most hwidth hleast hmost hstop
    have hdigits := hexDigits_append h.isHex hmost hstop
    simp only [escapePart, hwidth, hdigits, List.length_map, hexValue_map]
    rw [if_neg (by omega)]
  cases h with
  | four hlength _ => exact hread rfl (by omega) (by omega) fun hlt => by omega
  | eight hlength _ => exact hread rfl (by omega) (by omega) fun hlt => by omega
  | upToFour hleast hmost _ hstop => exact hread rfl hleast hmost hstop

theorem codeWidth?_eq_some {c : Char} {least most : Nat} (h : codeWidth? c = some (least, most)) :
    c = 'u' ∧ least = 4 ∧ most = 4 ∨ c = 'U' ∧ least = 8 ∧ most = 8 ∨ c = 'x' ∧ least = 1 ∧ most = 4 := by
  unfold codeWidth? at h
  split at h <;> cases h <;> simp

/-- A backslash starts either a number, or else a mere escape. -/
theorem escape_cases (c : Char) (rest : List Char) :
    (∃ digits tail, rest = digits ++ tail ∧ IsCode c digits tail) ∨
      (∀ digits tail, rest = digits ++ tail → ¬ IsCode c digits tail) ∧ escapePart c rest = (.escaped c, 0) := by
  have hmere : escapePart c rest = (.escaped c, 0) →
      ∀ digits tail, rest = digits ++ tail → ¬ IsCode c digits tail := by
    rintro hpart digits tail rfl hcode
    rw [hcode.escapePart_eq] at hpart
    cases hpart
  cases hwidth : codeWidth? c with
  | none =>
    have hpart : escapePart c rest = (.escaped c, 0) := by simp only [escapePart, hwidth]
    exact .inr ⟨hmere hpart, hpart⟩
  | some width =>
    obtain ⟨least, most⟩ := width
    obtain ⟨digits, tail, rfl, hhex, hmost, hstop⟩ := exists_hexDigits most rest
    by_cases hfew : digits.length < least
    · have hpart : escapePart c (digits ++ tail) = (.escaped c, 0) := by
        simp only [escapePart, hwidth, hexDigits_append hhex hmost hstop, List.length_map, if_pos hfew]
      exact .inr ⟨hmere hpart, hpart⟩
    · left
      refine ⟨digits, tail, rfl, ?_⟩
      obtain ⟨rfl, rfl, rfl⟩ | ⟨rfl, rfl, rfl⟩ | ⟨rfl, rfl, rfl⟩ := codeWidth?_eq_some hwidth
      · exact .four (by omega) hhex
      · exact .eight (by omega) hhex
      · exact .upToFour (by omega) hmost hhex hstop

/-! ## The tokenisation -/

theorem parts_plain {c : Char} (h : c ≠ '\\') (rest : List Char) : parts (c :: rest) = .plain c :: parts rest := by
  rw [parts]
  intro _ _ hc _
  exact h hc

theorem parts_escape (c : Char) (rest : List Char) :
    parts ('\\' :: c :: rest) = (escapePart c rest).1 :: parts (rest.drop (escapePart c rest).2) := by
  rw [parts]

theorem parts_last : parts ['\\'] = [.plain '\\'] := by
  rw [parts, parts]
  intro _ _ _ h
  cases h

/-- What is decoded are the parts of the lexemes. -/
theorem Cut.parts_eq {body : List Char} {lexemes : List Lexeme} (h : Cut body lexemes) :
    parts body = lexemes.map Lexeme.part := by
  induction h with
  | nil => rw [parts]; rfl
  | plain hc _ ih => rw [parts_plain hc, ih]; rfl
  | last => rw [parts_last]; rfl
  | code hcode _ ih =>
    rw [parts_escape, hcode.escapePart_eq, List.drop_left, ih]
    rfl
  | @escape c rest lexemes hmere _ ih =>
    obtain ⟨digits, tail, hrest, hcode⟩ | ⟨-, hpart⟩ := escape_cases c rest
    · exact absurd hcode (hmere digits tail hrest)
    · rw [parts_escape, hpart, List.drop_zero, ih]
      rfl

theorem exists_cut (body : List Char) : ∃ lexemes, Cut body lexemes := by
  -- along the recursion of `parts`, which goes on after the digits that it took
  induction body using parts.induct with
  | case1 => exact ⟨[], .nil⟩
  | case2 c rest part used hpart ih =>
    obtain ⟨digits, tail, rfl, hcode⟩ | ⟨hmere, hescaped⟩ := escape_cases c rest
    · rw [hcode.escapePart_eq, Prod.mk.injEq] at hpart
      obtain ⟨-, rfl⟩ := hpart
      rw [List.drop_left] at ih
      obtain ⟨lexemes, hcut⟩ := ih
      exact ⟨_, .code hcode hcut⟩
    · rw [hescaped, Prod.mk.injEq] at hpart
      obtain ⟨-, rfl⟩ := hpart
      rw [List.drop_zero] at ih
      obtain ⟨lexemes, hcut⟩ := ih
      exact ⟨_, .escape hmere hcut⟩
  | case3 c rest hnot ih =>
    by_cases hc : c = '\\'
    · subst hc
      cases rest with
      | nil => exact ⟨_, .last⟩
      | cons d rest => exact absurd rfl (hnot d rest rfl)
    · obtain ⟨lexemes, hcut⟩ := ih
      exact ⟨_, .plain hc hcut⟩

/-- After a backslash there is either a number or else an escape. -/
theorem Cut.backslash {c : Char} {rest : List Char} {lexemes : List Lexeme} (h : Cut ('\\' :: c :: rest) lexemes) :
    (∃ digits tail others, rest = digits ++ tail ∧ IsCode c digits tail ∧ Cut tail others ∧
        lexemes = .code c digits :: others) ∨
      ∃ others, (∀ digits tail, rest = digits ++ tail → ¬ IsCode c digits tail) ∧ Cut rest others ∧
        lexemes = .escape c :: others := by
  generalize hbody : '\\' :: c :: rest = body at h
  cases h with
  | nil => cases hbody
  | plain hc _ => exact absurd (List.cons.inj hbody).1.symm hc
  | last => cases hbody
  | code hcode hcut =>
    obtain ⟨rfl, rfl⟩ := List.cons.inj (List.cons.inj hbody).2
    exact .inl ⟨_, _, _, rfl, hcode, hcut, rfl⟩
  | escape hmere hcut =>
    obtain ⟨rfl, rfl⟩ := List.cons.inj (List.cons.inj hbody).2
    exact .inr ⟨_, hmere, hcut, rfl⟩

theorem IsCode.unique {letter : Char} {digits digits' rest rest' : List Char} (h : IsCode letter digits rest)
    (h' : IsCode letter digits' rest') (heq : digits ++ rest = digits' ++ rest') : digits = digits' ∧ rest = rest' := by
  -- what is read of the whole says how many digits were taken
  have hpart := h.escapePart_eq
  rw [heq, h'.escapePart_eq, Prod.mk.injEq] at hpart
  exact List.append_inj heq hpart.2.symm

/-- A body is cut in one way only. -/
theorem Cut.unique {body : List Char} {lexemes lexemes' : List Lexeme} (h : Cut body lexemes)
    (h' : Cut body lexemes') : lexemes = lexemes' := by
  induction h generalizing lexemes' with
  | nil =>
    cases h'
    rfl
  | plain hc _ ih =>
    cases h' with
    | plain _ hcut => rw [ih hcut]
    | last => exact absurd rfl hc
    | code => exact absurd rfl hc
    | escape => exact absurd rfl hc
  | last =>
    cases h' with
    | plain hc _ => exact absurd rfl hc
    | last => rfl
  | code hcode _ ih =>
    obtain ⟨digits, tail, others, heq, hcode', hcut, rfl⟩ | ⟨others, hmere, -, -⟩ := h'.backslash
    · obtain ⟨rfl, rfl⟩ := hcode.unique hcode' heq
      rw [ih hcut]
    · exact absurd hcode (hmere _ _ rfl)
  | escape hmere _ ih =>
    obtain ⟨digits, tail, others, heq, hcode, -, -⟩ | ⟨others, -, hcut, rfl⟩ := h'.backslash
    · exact absurd hcode (hmere digits tail heq)
    · rw [ih hcut]

/-! ## Values -/

/-- The simple escapes, with the characters that they denote. -/
def simpleEscapes : List (Char × Char) :=
  [('\'', '\''), ('"', '"'), ('\\', '\\'), ('0', '\x00'), ('a', '\x07'), ('b', '\x08'), ('e', '\x1b'), ('f', '\x0c'),
    ('n', '\n'), ('r', '\r'), ('t', '\t'), ('v', '\x0b')]

/-- A sequence of lexical units, with the text that they denote one by one. The
digits of a number are those that the letter takes from what follows. -/
inductive Spells : List Lexeme → Text → Prop
  | nil : Spells [] []
  | plain {c : Char} {units : List Lexeme} {text : Text} : c ≠ '\\' → Spells units text →
      Spells (.plain c :: units) (.ofChar c :: text)
  | escape {c denoted : Char} {units : List Lexeme} {text : Text} : (c, denoted) ∈ simpleEscapes → Spells units text →
      Spells (.escape c :: units) (.ofChar denoted :: text)
  | code {letter : Char} {digits : List Char} {p : CodePoint} {units : List Lexeme} {text : Text} :
      IsCode letter digits (units.flatMap Lexeme.spelling) → p.value = hexNumber digits → Spells units text →
      Spells (.code letter digits :: units) (p :: text)

theorem not_isCode_of_simple {c denoted : Char} (h : (c, denoted) ∈ simpleEscapes) (digits rest : List Char) :
    ¬ IsCode c digits rest := by
  have hletters : ∀ entry ∈ simpleEscapes, entry.1 ≠ 'u' ∧ entry.1 ≠ 'U' ∧ entry.1 ≠ 'x' := by decide
  obtain ⟨hu, hU, hx⟩ := hletters _ h
  intro hcode
  cases hcode with
  | four => exact hu rfl
  | eight => exact hU rfl
  | upToFour => exact hx rfl

/-- Units are cut as they were spelled. -/
theorem Spells.cut {units : List Lexeme} {text : Text} (h : Spells units text) :
    Cut (units.flatMap Lexeme.spelling) units := by
  induction h with
  | nil => exact .nil
  | plain hc _ ih => exact .plain hc ih
  | escape hsimple _ ih => exact .escape (fun digits tail _ => not_isCode_of_simple hsimple digits tail) ih
  | code hcode _ _ ih => exact .code hcode ih

theorem Spells.values_eq {units : List Lexeme} {text : Text} (h : Spells units text) :
    values (units.map Lexeme.part) = .ok text := by
  have hsimple : ∀ entry ∈ simpleEscapes, simpleEscape entry.1 = entry.2 := by decide
  induction h with
  | nil => rfl
  | plain _ _ ih => simp only [List.map_cons, values, ih, Lexeme.part, Part.value]; rfl
  | escape hmem _ ih => simp only [List.map_cons, values, ih, Lexeme.part, Part.value, hsimple _ hmem]; rfl
  | @code letter digits p units text _ hp _ ih =>
    have hvalue : (Lexeme.code letter digits).part.value = .ok p := by
      simp only [Lexeme.part, Part.value, ← hp, p.isLt, dif_pos]
    simp only [List.map_cons, values, ih, hvalue]
    rfl

/-- Units are decoded to what they denote. -/
theorem Spells.unescape_eq {units : List Lexeme} {text : Text} (h : Spells units text) :
    unescape (units.flatMap Lexeme.spelling) = .ok text := by
  rw [unescape, h.cut.parts_eq, h.values_eq]

theorem values_error_iff {ps : List Part} :
    (∃ fault, values ps = .error fault) ↔ ∃ p ∈ ps, ∃ fault, p.value = .error fault := by
  induction ps with
  | nil => simp [values]
  | cons p ps ih =>
    rw [List.exists_mem_cons_iff, ← ih]
    cases hp : p.value with
    | error fault => simp [values, hp, bind, Except.bind]
    | ok q => cases hrest : values ps <;> simp [values, hp, hrest, bind, Except.bind, pure, Except.pure]

theorem value_error_iff {lexeme : Lexeme} :
    (∃ fault, lexeme.part.value = .error fault) ↔
      ∃ letter digits, lexeme = .code letter digits ∧ 0x10FFFF < hexNumber digits := by
  cases lexeme with
  | plain c => simp [Lexeme.part, Part.value]
  | escape c => simp [Lexeme.part, Part.value]
  | code letter digits =>
    have hvalue : (∃ fault, (Lexeme.code letter digits).part.value = .error fault) ↔
        0x10FFFF < hexNumber digits := by
      simp only [Lexeme.part, Part.value]
      split
      · simp; omega
      · split <;> simp <;> omega
    rw [hvalue]
    simp

/-- Only the digits of `U` reach past the last code point. -/
theorem IsCode.letter_of_lt {letter : Char} {digits rest : List Char} (h : IsCode letter digits rest)
    (hlt : 0x10FFFF < hexNumber digits) : letter = 'U' := by
  have hbound := hexNumber_lt h.isHex
  have hshort : digits.length ≤ 4 → hexNumber digits < 16 ^ 4 := fun hlength =>
    Nat.lt_of_lt_of_le hbound (Nat.pow_le_pow_right (by decide) hlength)
  cases h with
  | four hlength _ =>
    have := hshort (by omega)
    omega
  | eight => rfl
  | upToFour _ hmost _ _ =>
    have := hshort hmost
    omega

theorem Cut.isCode_of_mem {body : List Char} {lexemes : List Lexeme} (h : Cut body lexemes) {letter : Char}
    {digits : List Char} (hmem : .code letter digits ∈ lexemes) : ∃ rest, IsCode letter digits rest := by
  induction h with
  | nil => cases hmem
  | plain _ _ ih => exact ih (by simpa using hmem)
  | last => simp at hmem
  | @code letter' digits' rest lexemes hcode _ ih =>
    rcases List.mem_cons.1 hmem with heq | hmem
    · cases heq
      exact ⟨rest, hcode⟩
    · exact ih hmem
  | escape _ _ ih => exact ih (by simpa using hmem)

/-- **When decoding fails**: exactly at the eight digits of a number past the
last code point. -/
theorem Cut.unescape_error_iff {body : List Char} {lexemes : List Lexeme} (h : Cut body lexemes) :
    (∃ fault, unescape body = .error fault) ↔
      ∃ digits, .code 'U' digits ∈ lexemes ∧ 0x10FFFF < hexNumber digits := by
  rw [unescape, h.parts_eq, values_error_iff]
  simp only [List.mem_map, exists_exists_and_eq_and, value_error_iff]
  constructor
  · rintro ⟨lexeme, hmem, letter, digits, rfl, hlt⟩
    obtain ⟨rest, hcode⟩ := h.isCode_of_mem hmem
    obtain rfl := hcode.letter_of_lt hlt
    exact ⟨digits, hmem, hlt⟩
  · rintro ⟨digits, hmem, hlt⟩
    exact ⟨_, hmem, 'U', digits, rfl, hlt⟩

/-! ## Literals -/

theorem inner_quoted (first last : Char) (body : List Char) : inner (first :: (body ++ [last])) = body := by
  rw [inner, List.drop_one, List.tail_cons, List.dropLast_concat]

theorem dropSuffix_quoted (body : List Char) : dropSuffix ('"' :: (body ++ ['"'])) = '"' :: (body ++ ['"']) := by
  have hnot : ¬ ['u', '8'].isSuffixOf ('"' :: (body ++ ['"'])) = true := by
    rw [List.isSuffixOf_iff_suffix]
    intro hsuffix
    have hlast := hsuffix.getLast (by simp)
    simp at hlast
  rw [dropSuffix, if_neg hnot]

theorem dropSuffix_u8 (cs : List Char) : dropSuffix (cs ++ ['u', '8']) = cs := by
  have hsuffix : ['u', '8'].isSuffixOf (cs ++ ['u', '8']) = true :=
    List.isSuffixOf_iff_suffix.2 (List.suffix_append cs _)
  rw [dropSuffix, if_pos hsuffix, List.length_append]
  exact List.take_left

end Literal

namespace SyntaxTree

variable {t : SyntaxTree} {i : Nat}

theorem literalValue_of_string (h : t.type i = "string_literal") :
    t.literalValue i = Literal.unescape (Literal.inner (Literal.dropSuffix (t.text i).toList)) :=
  literalValue_of_type h (by decide)

theorem literalValue_of_character (h : t.type i = "character_literal") :
    t.literalValue i = Literal.unescape (Literal.inner (t.text i).toList) :=
  literalValue_of_type h (by decide)

open Literal in
/-- **Literals are decoded unit by unit.** A string literal of lexical units
between quotes, with or without `u8` after it, has the text that the units denote
one by one, and so has a character literal. Any body at all is cut into lexemes
in one way, and decoding it fails exactly if there is a `\U` among them whose
eight digits are past the last code point. -/
theorem literal_decodes_by_units (t : SyntaxTree) (i : Nat) :
    (t.type i = "string_literal" → ∀ units text, Spells units text → ∀ suffix ∈ [[], ['u', '8']],
        (t.text i).toList = '"' :: (units.flatMap Lexeme.spelling ++ '"' :: suffix) → t.literalValue i = .ok text) ∧
      (t.type i = "character_literal" → ∀ units text, Spells units text →
        (t.text i).toList = '\'' :: (units.flatMap Lexeme.spelling ++ ['\'']) → t.literalValue i = .ok text) ∧
      ∀ body, ∃ lexemes, (∀ other, Cut body other ↔ other = lexemes) ∧
        ((∃ fault, unescape body = .error fault) ↔
          ∃ digits, .code 'U' digits ∈ lexemes ∧ 0x10FFFF < hexNumber digits) := by
  refine ⟨?string, ?character, ?body⟩
  case string =>
    intro htype units text hspells suffix hsuffix htext
    have hquoted : dropSuffix (t.text i).toList = '"' :: (units.flatMap Lexeme.spelling ++ ['"']) := by
      rw [htext]
      rcases List.mem_cons.1 hsuffix with rfl | hsuffix
      · exact dropSuffix_quoted _
      · rw [List.mem_singleton.1 hsuffix]
        simpa using dropSuffix_u8 ('"' :: (units.flatMap Lexeme.spelling ++ ['"']))
    rw [literalValue_of_string htype, hquoted, inner_quoted, hspells.unescape_eq]
  case character =>
    intro htype units text hspells htext
    rw [literalValue_of_character htype, htext, inner_quoted, hspells.unescape_eq]
  case body =>
    intro body
    obtain ⟨lexemes, hcut⟩ := exists_cut body
    exact ⟨lexemes, fun other => ⟨fun h => h.unique hcut, fun h => h ▸ hcut⟩, hcut.unescape_error_iff⟩

namespace Escaped

open Literal

/-- The literal `"a\n\x41g\U0001F600"u8`. -/
def tree : SyntaxTree :=
  .ofParseTree (.ofString "E.cs") "\"a\\n\\x41g\\U0001F600\"u8".toUTF8.data
    (.node ⟨"string_literal", none, 0, 22, true⟩ []) false

def units : List Lexeme :=
  [.plain 'a', .escape 'n', .code 'x' ['4', '1'], .plain 'g', .code 'U' ['0', '0', '0', '1', 'F', '6', '0', '0']]

def text : Text :=
  [.ofChar 'a', .ofChar '\n', ⟨0x41, by decide⟩, .ofChar 'g', ⟨0x1F600, by decide⟩]

theorem spells : Spells units text := by
  have hlast : IsCode 'U' ['0', '0', '0', '1', 'F', '6', '0', '0'] [] := .eight rfl (isHex_of_all (by decide +kernel))
  refine .plain (by decide) (.escape (by decide) (.code (.upToFour (by decide) (by decide) ?digits ?stop)
    (by decide +kernel) (.plain (by decide) (.code hlast (by decide +kernel) .nil))))
  case digits => exact isHex_of_all (by decide +kernel)
  case stop =>
    intro _ c hc
    obtain rfl : 'g' = c := Option.some.inj hc
    decide +kernel

/-- The digits of one more than the last code point. -/
def past : List Char := ['0', '0', '1', '1', '0', '0', '0', '0']

/-- The number after `\x` ends at the `g`, which is no digit; and one more than
the last code point cannot be decoded. -/
theorem decoded_by_units :
    tree.type 0 = "string_literal" ∧ Spells units text ∧
      (tree.text 0).toList = '"' :: (units.flatMap Lexeme.spelling ++ ['"', 'u', '8']) ∧
      tree.literalValue 0 = .ok text ∧
      Cut ('\\' :: 'U' :: past) [.code 'U' past] ∧ ∃ fault, unescape ('\\' :: 'U' :: past) = .error fault := by
  have htype : tree.type 0 = "string_literal" := by decide +kernel
  have htext : (tree.text 0).toList = '"' :: (units.flatMap Lexeme.spelling ++ ['"', 'u', '8']) := by decide +kernel
  have hcut : Cut ('\\' :: 'U' :: (past ++ [])) [.code 'U' past] :=
    .code (.eight rfl (isHex_of_all (by decide +kernel))) .nil
  rw [List.append_nil] at hcut
  obtain ⟨hstring, -, hbody⟩ := literal_decodes_by_units tree 0
  obtain ⟨lexemes, honly, hfails⟩ := hbody ('\\' :: 'U' :: past)
  obtain rfl := (honly _).1 hcut
  refine ⟨htype, spells, htext, hstring htype _ _ spells ['u', '8'] (by simp) htext, hcut, hfails.2 ?_⟩
  exact ⟨past, List.mem_singleton_self _, by decide +kernel⟩

end Escaped

end SyntaxTree

end CommandTrace
