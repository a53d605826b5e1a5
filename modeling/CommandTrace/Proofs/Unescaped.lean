/-
Literals without escapes.

In a verbatim literal a quote is written twice. Reading the pairs from the left
gives back every text that was written so (`undouble_double`), however many quotes
stand in a row, and the bodies in which quotes stand in pairs are all written so
(`Paired.exists_double`).

A raw literal stands between rows of quotes. On one line it has the value of what
is between them. Over several lines it should have the value of its lines without
the indentation of the closing quotes. Only the blanks at the ends of the whole are
taken off, so it has that value exactly if there is no indentation to take off a
second line and no blank at an end of the text: `trim_joined_iff`.
-/
import CommandTrace.Proofs.Blank
import CommandTrace.Proofs.Text
import CommandTrace.Syntax.Literal

namespace CommandTrace

namespace Literal

/-! ## Verbatim literals -/

/-- The text with each quote in it written twice. -/
def double (s : List Char) : List Char :=
  s.flatMap fun c => if c = '"' then ['"', '"'] else [c]

/-- The quotes in a body come in pairs. -/
inductive Paired : List Char → Prop
  | nil : Paired []
  | plain {c : Char} {rest : List Char} : c ≠ '"' → Paired rest → Paired (c :: rest)
  | pair {rest : List Char} : Paired rest → Paired ('"' :: '"' :: rest)

theorem double_cons_quote (s : List Char) : double ('"' :: s) = '"' :: '"' :: double s := rfl

theorem double_cons {c : Char} (h : c ≠ '"') (s : List Char) : double (c :: s) = c :: double s := by
  rw [double, List.flatMap_cons, if_neg h, List.singleton_append, double]

theorem undouble_double (s : List Char) : undouble (double s) = s := by
  induction s with
  | nil => rfl
  | cons c s ih =>
    by_cases hc : c = '"'
    · rw [hc, double_cons_quote, undouble, ih]
    · rw [double_cons hc, undouble, ih]
      exact fun _ hquote _ => hc hquote

theorem Paired.exists_double {body : List Char} (h : Paired body) : ∃ s, body = double s := by
  induction h with
  | nil => exact ⟨[], rfl⟩
  | plain hc _ ih =>
    obtain ⟨s, rfl⟩ := ih
    exact ⟨_ :: s, (double_cons hc s).symm⟩
  | pair _ ih =>
    obtain ⟨s, rfl⟩ := ih
    exact ⟨'"' :: s, rfl⟩

theorem verbatim_quoted (body : List Char) :
    verbatim ('@' :: '"' :: (body ++ ['"'])) = .ok (.ofChars (undouble body)) := by
  simp [verbatim]

/-! ## Raw literals -/

/-- Between quotes, which are told from the body by its first character. -/
theorem raw_delimited {n : Nat} (hn : 0 < n) {body : List Char} (hbody : body ≠ []) (hfirst : body.head? ≠ some '"') :
    raw (List.replicate n '"' ++ body ++ List.replicate n '"') =
      .ofChars (if body.contains '\n' then trim body else body) := by
  have hquotes : (List.replicate n '"' ++ body ++ List.replicate n '"').takeWhile (· = '"') = List.replicate n '"' := by
    cases body with
    | nil => exact absurd rfl hbody
    | cons c body =>
      have hc : c ≠ '"' := fun he => hfirst (he ▸ rfl)
      rw [List.append_assoc, List.takeWhile_append_of_pos (by simp)]
      simp [hc]
  have hlength : (List.replicate n '"' ++ body ++ List.replicate n '"').length - 2 * n = body.length := by
    simp only [List.length_append, List.length_replicate]
    omega
  have hdrop : (List.replicate n '"' ++ body ++ List.replicate n '"').drop n = body ++ List.replicate n '"' := by
    rw [List.append_assoc, List.drop_left' List.length_replicate]
  simp only [raw, hquotes, List.length_replicate, if_neg (Nat.ne_of_gt hn), hlength, hdrop, List.take_left]

/-- The body of a raw literal over several lines: each line stands after an
indentation, and the last has the indentation only. -/
def overLines (indent : List Char) (lines : List (List Char)) : List Char :=
  '\n' :: (lines.flatMap fun line => indent ++ line ++ ['\n']) ++ indent

/-- The lines with a line feed and an indentation between them. -/
def joined (indent : List Char) (lines : List (List Char)) : List Char :=
  ('\n' :: indent).intercalate lines

section Joined

variable (indent : List Char)

theorem joined_singleton (line : List Char) : joined indent [line] = line := List.intercalate_singleton

theorem joined_cons_cons (line next : List Char) (lines : List (List Char)) :
    joined indent (line :: next :: lines) = line ++ ('\n' :: indent) ++ joined indent (next :: lines) :=
  List.intercalate_cons_cons

theorem overLines_eq {lines : List (List Char)} (h : lines ≠ []) :
    overLines indent lines = ('\n' :: indent) ++ (joined indent lines ++ ('\n' :: indent)) := by
  induction lines with
  | nil => exact absurd rfl h
  | cons line lines ih =>
    cases lines with
    | nil => simp [overLines, joined_singleton]
    | cons next lines =>
      have hfirst : overLines indent (line :: next :: lines) =
          ('\n' :: indent) ++ line ++ overLines indent (next :: lines) := by
        simp [overLines]
      rw [hfirst, ih (by simp), joined_cons_cons]
      simp

theorem length_joined (lines : List (List Char)) :
    (joined indent lines).length = (joined [] lines).length + (lines.length - 1) * indent.length := by
  induction lines with
  | nil => simp [joined]
  | cons line lines ih =>
    cases lines with
    | nil => simp [joined_singleton]
    | cons next lines =>
      simp only [List.length_cons, Nat.add_sub_cancel] at ih
      simp only [joined_cons_cons, List.length_append, List.length_cons, List.length_nil, Nat.add_sub_cancel, ih,
        Nat.add_mul, Nat.one_mul]
      omega

theorem head?_joined (lines : List (List Char)) : (joined indent lines).head? = (joined [] lines).head? := by
  cases lines with
  | nil => rfl
  | cons line lines =>
    cases lines with
    | nil => rw [joined_singleton, joined_singleton]
    | cons next lines => cases line <;> simp [joined_cons_cons]

/-- A text that ends in another character than a blank ends in its last line. -/
theorem getLast?_joined {lines : List (List Char)} {c : Char} (hc : isBlank c = false)
    (h : (joined [] lines).getLast? = some c) : (joined indent lines).getLast? = some c := by
  induction lines with
  | nil => cases h
  | cons line lines ih =>
    cases lines with
    | nil => rwa [joined_singleton] at h ⊢
    | cons next lines =>
      rw [joined_cons_cons, List.getLast?_append] at h ⊢
      cases hlast : (joined [] (next :: lines)).getLast? with
      | none =>
        rw [hlast] at h
        have hfeed : '\n' = c := by simpa using h
        rw [← hfeed] at hc
        cases hc
      | some d =>
        rw [hlast, Option.some_or] at h
        rw [ih (hlast.trans h), Option.some_or]

theorem isTrimmed_joined {lines : List (List Char)} (h : IsTrimmed (joined [] lines)) :
    IsTrimmed (joined indent lines) := by
  obtain ⟨hfirst, hlast⟩ := h
  refine ⟨by rwa [head?_joined], ?_⟩
  cases hget : (joined [] lines).getLast? with
  | none =>
    have hempty : (joined indent lines).head? = none := by
      rw [head?_joined, List.getLast?_eq_none_iff.1 hget, List.head?_nil]
    rw [List.head?_eq_none_iff.1 hempty]
    rfl
  | some c =>
    rw [hget] at hlast
    rwa [getLast?_joined indent hlast hget]

end Joined

/-- Taking off the blanks at the ends takes off the indentation exactly if no line
but the first has one, and no blank at an end belongs to the text. -/
theorem trim_joined_iff {indent : List Char} {lines : List (List Char)} (h : lines ≠ []) :
    trim (joined indent lines) = joined [] lines ↔
      (indent = [] ∨ lines.length = 1) ∧ IsTrimmed (joined [] lines) := by
  have hlength := length_joined indent lines
  have hlines : 0 < lines.length := List.length_pos_iff.2 h
  constructor
  · intro heq
    have htrimmed : IsTrimmed (joined [] lines) := heq ▸ isTrimmed_trim _
    refine ⟨?_, htrimmed⟩
    have hsame : trim (joined indent lines) = joined indent lines :=
      trim_eq_self_iff.2 (isTrimmed_joined indent htrimmed)
    rw [← hsame, heq] at hlength
    have hzero : (lines.length - 1) * indent.length = 0 := by omega
    rcases Nat.mul_eq_zero.1 hzero with hone | hnone
    · exact .inr (by omega)
    · exact .inl (List.length_eq_zero_iff.1 hnone)
  · rintro ⟨hindent, htrimmed⟩
    have hsame : joined indent lines = joined [] lines := by
      rcases hindent with rfl | hone
      · rfl
      · obtain ⟨line, rfl⟩ := List.length_eq_one_iff.1 hone
        rw [joined_singleton, joined_singleton]
    rw [hsame, trim_eq_self_iff.2 htrimmed]

/-- Over several lines, the value is the body from its first line to its last,
without the blanks at the ends. -/
theorem raw_overLines {n : Nat} (hn : 0 < n) {indent : List Char} (hindent : ∀ c ∈ indent, c = ' ')
    {lines : List (List Char)} (h : lines ≠ []) :
    raw (List.replicate n '"' ++ overLines indent lines ++ List.replicate n '"') =
      .ofChars (trim (joined indent lines)) := by
  have hblank : ∀ c ∈ '\n' :: indent, isBlank c = true := by
    intro c hc
    rcases List.mem_cons.1 hc with rfl | hc
    · rfl
    · rw [hindent c hc]
      rfl
  have hfeed : (overLines indent lines).contains '\n' = true := by
    rw [overLines, List.cons_append, List.contains_cons]
    rfl
  have hfirst : (overLines indent lines).head? ≠ some '"' := by simp [overLines]
  rw [raw_delimited hn (by simp [overLines]) hfirst, if_pos hfeed, overLines_eq indent h, trim_blank_append hblank,
    trim_append_blank hblank]

end Literal

namespace SyntaxTree

variable {t : SyntaxTree} {i : Nat}

theorem literalValue_of_verbatim (h : t.type i = "verbatim_string_literal") :
    t.literalValue i = Literal.verbatim (t.text i).toList :=
  literalValue_of_type h (by decide)

theorem literalValue_of_raw (h : t.type i = "raw_string_literal") :
    t.literalValue i = .ok (Literal.raw (t.text i).toList) :=
  literalValue_of_type h (by decide)

open Literal in
/-- **Verbatim literals are decoded exactly.** A literal with a text between its
quotes in which each quote is written twice has that text for its value. Every body
in which quotes come in pairs is written so. -/
theorem verbatim_decodes (t : SyntaxTree) (i : Nat) (htype : t.type i = "verbatim_string_literal") :
    (∀ s, (t.text i).toList = '@' :: '"' :: (double s ++ ['"']) → t.literalValue i = .ok (.ofChars s)) ∧
      ∀ body, Paired body → (t.text i).toList = '@' :: '"' :: (body ++ ['"']) →
        ∃ s, body = double s ∧ t.literalValue i = .ok (.ofChars s) := by
  have hvalue : ∀ s, (t.text i).toList = '@' :: '"' :: (double s ++ ['"']) → t.literalValue i = .ok (.ofChars s) := by
    intro s htext
    rw [literalValue_of_verbatim htype, htext, verbatim_quoted, undouble_double]
  refine ⟨hvalue, fun body hpaired htext => ?_⟩
  obtain ⟨s, rfl⟩ := hpaired.exists_double
  exact ⟨s, rfl, hvalue s htext⟩

namespace Quotes

open Literal

/-- The literal `@"""a""""b"""`. -/
def tree : SyntaxTree :=
  .ofParseTree (.ofString "Q.cs") "@\"\"\"a\"\"\"\"b\"\"\"".toUTF8.data
    (.node ⟨"verbatim_string_literal", none, 0, 13, true⟩ []) false

def text : List Char := ['"', 'a', '"', '"', 'b', '"']

/-- Quotes at both ends and two in a row inside. -/
theorem quotes_decoded :
    tree.type 0 = "verbatim_string_literal" ∧ (tree.text 0).toList = '@' :: '"' :: (double text ++ ['"']) ∧
      Paired (double text) ∧ tree.literalValue 0 = .ok (.ofChars text) ∧
      ∃ s, double text = double s ∧ tree.literalValue 0 = .ok (.ofChars s) := by
  have htype : tree.type 0 = "verbatim_string_literal" := by decide +kernel
  have htext : (tree.text 0).toList = '@' :: '"' :: (double text ++ ['"']) := by decide +kernel
  have hpaired : Paired (double text) :=
    .pair (.plain (by decide) (.pair (.pair (.plain (by decide) (.pair .nil)))))
  obtain ⟨hvalue, hbody⟩ := verbatim_decodes tree 0 htype
  exact ⟨htype, htext, hpaired, hvalue text htext, hbody _ hpaired htext⟩

end Quotes

open Literal in
/-- **When raw literals have the value of their lines.** On one line a raw literal
has the value of what stands between its quotes. Over several lines its value is
what stands there without the blanks at the ends. This is the value of the lines
without their indentation exactly if only the first line has one, or none, and the
text neither starts nor ends with a blank. -/
theorem raw_decodes_iff (t : SyntaxTree) (i : Nat) (htype : t.type i = "raw_string_literal") (n : Nat) (hn : 3 ≤ n) :
    (∀ content, content ≠ [] → content.head? ≠ some '"' → '\n' ∉ content →
        (t.text i).toList = List.replicate n '"' ++ content ++ List.replicate n '"' →
        t.literalValue i = .ok (.ofChars content)) ∧
      ∀ indent lines, (∀ c ∈ indent, c = ' ') → lines ≠ [] →
        (t.text i).toList = List.replicate n '"' ++ overLines indent lines ++ List.replicate n '"' →
        t.literalValue i = .ok (.ofChars (trim (joined indent lines))) ∧
          (t.literalValue i = .ok (.ofChars (joined [] lines)) ↔
            (indent = [] ∨ lines.length = 1) ∧ IsTrimmed (joined [] lines)) := by
  have hraw := literalValue_of_raw htype
  constructor
  · intro content hcontent hfirst hline htext
    have hfeed : content.contains '\n' = false := by simpa using hline
    rw [hraw, htext, raw_delimited (by omega) hcontent hfirst, hfeed, if_neg (by simp)]
  · intro indent lines hindent hlines htext
    have hvalue : t.literalValue i = .ok (.ofChars (trim (joined indent lines))) := by
      rw [hraw, htext, raw_overLines (by omega) hindent hlines]
    refine ⟨hvalue, ?_⟩
    rw [hvalue, Except.ok.injEq, Text.ofChars_inj, trim_joined_iff hlines]

namespace RawTexts

open Literal

/-- Three raw literals: one on a line of its own, one with a single indented line,
and one with two. -/
def tree : SyntaxTree :=
  .ofParseTree (.ofString "R.cs")
    "\"\"\"a\"b\"\"\"\"\"\"\n  x y\n  \"\"\"\"\"\"\n  a\n   b\n  \"\"\"".toUTF8.data
    (.node ⟨"compilation_unit", none, 0, 42, true⟩
      [.node ⟨"raw_string_literal", none, 0, 9, true⟩ [], .node ⟨"raw_string_literal", none, 9, 24, true⟩ [],
        .node ⟨"raw_string_literal", none, 24, 42, true⟩ []]) false

def quotes : List Char := List.replicate 3 '"'

def indent : List Char := [' ', ' ']

def twoLines : List (List Char) := [['a'], [' ', 'b']]

/-- A quote inside is part of the value, and a single line loses its
indentation. -/
theorem single_lines_decoded :
    tree.type 1 = "raw_string_literal" ∧ (tree.text 1).toList = quotes ++ ['a', '"', 'b'] ++ quotes ∧
      tree.literalValue 1 = .ok (.ofChars ['a', '"', 'b']) ∧
      tree.type 2 = "raw_string_literal" ∧ (∀ c ∈ indent, c = ' ') ∧
      (tree.text 2).toList = quotes ++ overLines indent [['x', ' ', 'y']] ++ quotes ∧
      tree.literalValue 2 = .ok (.ofChars ['x', ' ', 'y']) := by
  have htype : tree.type 1 = "raw_string_literal" ∧ tree.type 2 = "raw_string_literal" := by decide +kernel
  have hline : (tree.text 1).toList = quotes ++ ['a', '"', 'b'] ++ quotes := by decide +kernel
  have hlines : (tree.text 2).toList = quotes ++ overLines indent [['x', ' ', 'y']] ++ quotes := by decide +kernel
  have hindent : ∀ c ∈ indent, c = ' ' := by simp [indent]
  obtain ⟨hsingle, -⟩ := raw_decodes_iff tree 1 htype.1 3 (by decide)
  obtain ⟨-, hseveral⟩ := raw_decodes_iff tree 2 htype.2 3 (by decide)
  obtain ⟨-, hiff⟩ := hseveral indent [['x', ' ', 'y']] hindent (by simp) hlines
  refine ⟨htype.1, hline, hsingle _ (by simp) (by simp) (by simp) hline, htype.2, hindent, hlines, ?_⟩
  exact hiff.2 ⟨.inr rfl, by decide⟩

/-- The second line keeps its indentation. -/
theorem second_line_keeps_indent :
    tree.type 3 = "raw_string_literal" ∧ (tree.text 3).toList = quotes ++ overLines indent twoLines ++ quotes ∧
      joined [] twoLines = "a\n b".toList ∧ tree.literalValue 3 = .ok (.ofString "a\n   b") ∧
      tree.literalValue 3 ≠ .ok (.ofChars (joined [] twoLines)) := by
  have htype : tree.type 3 = "raw_string_literal" := by decide +kernel
  have hvalue : raw (tree.text 3).toList = .ofString "a\n   b" := by decide +kernel
  rw [literalValue_of_raw htype, hvalue]
  exact ⟨htype, by decide +kernel, by decide, rfl, fun h => absurd (Except.ok.inj h) (by decide)⟩

end RawTexts

end SyntaxTree

end CommandTrace
