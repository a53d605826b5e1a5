/-
When every reported record has a text.

A record that is neither pending nor an error is reported. A literal without text
gives no record, and a name that was traced to values has the text of these. What
is left are the records that hold the source text of a node: a name that was
traced to nothing, a name that a traced one was copied from, an expression of a
creation that is kept as it stands. A node that covers no source makes the record
blank (`Textless`), and the look-up of names never fills it in, since no constant
goes by the empty name (`isBlank_lookedUp`). `reported_texts_iff` puts this together
over the scans of a whole analysis.
-/
import CommandTrace.Proofs.Sources

namespace CommandTrace

open Logged

theorem Text.ofString_eq_nil {s : String} : Text.ofString s = [] ↔ s = "" := by
  simp [Text.ofString, Text.ofChars]

theorem Text.joinWith_ne_nil {sep : CodePoint} {texts : List Text} (hne : texts ≠ []) (h : ∀ text ∈ texts, text ≠ []) :
    Text.joinWith sep texts ≠ [] := by
  match texts with
  | [] => exact absurd rfl hne
  | [text] => exact h text List.mem_cons_self
  | text :: next :: rest => simp [Text.joinWith]

/-- It is reported, without a text. -/
def Record.IsBlank (r : Record) : Prop :=
  r.isPending = false ∧ r.isError = false ∧ r.text = []

namespace SyntaxTree

variable {t : SyntaxTree} {options : ScanOptions}

/-! ## One expression -/

variable (t) in
/-- The expression is a name that is traced. -/
def IsTraced (options : ScanOptions) (expression : Nat) : Prop :=
  t.kind expression = .identifier ∨ t.kind expression = .memberAccess ∧ t.isSkipped options expression = false

variable (t) in
/-- The records of an expression hold the text of a node that has none: of the
expression itself, as a name that is traced to nothing or as what is kept where
names and literals are not asked for, or of a name that it was copied from. -/
inductive Textless (options : ScanOptions) : (keepText : Bool) → (expression start : Nat) → Prop
  | untraced {keepText : Bool} {expression start : Nat} : t.IsTraced options expression →
      (t.trace (t.text expression) start).outcome = .ok {} → t.text expression = "" →
      Textless options keepText expression start
  | deadEnd {keepText : Bool} {expression start : Nat} {resolution : Resolution} : t.IsTraced options expression →
      (t.trace (t.text expression) start).outcome = .ok resolution → "" ∈ resolution.unresolved →
      Textless options keepText expression start
  | kept {expression start : Nat} : t.kind expression ≠ .literal → t.kind expression ≠ .memberAccess →
      t.kind expression ≠ .identifier → t.text expression = "" → Textless options true expression start

theorem isBlank_tracedRecords {name : String} {start : Nat} {resolution : Resolution}
    (htrace : (t.trace name start).outcome = .ok resolution) (line : Nat) :
    (∃ r ∈ t.tracedRecords name line resolution, r.IsBlank) ↔
      resolution = {} ∧ name = "" ∨ "" ∈ resolution.unresolved := by
  by_cases hempty : resolution.isEmpty = true
  · have hresolution := Resolution.eq_empty_of_isEmpty hempty
    simp [tracedRecords, hresolution, Resolution.isEmpty, Resolution.isResolved, Record.IsBlank, Record.isPending,
      Record.isError, Text.ofString_eq_nil]
  have hne : resolution ≠ {} := by
    rintro rfl
    exact hempty rfl
  rw [tracedRecords, if_neg hempty, or_iff_right (fun h => hne h.1)]
  constructor
  · rintro ⟨r, hr, hpending, -, htext⟩
    rw [List.mem_append, List.mem_append, List.mem_map, List.mem_map] at hr
    rcases hr with (hr | ⟨reference, -, rfl⟩) | ⟨inner, hinner, rfl⟩
    · split at hr
      · cases hr
      · next hvalues =>
        -- the values are literals with a text
        rw [List.mem_singleton.1 hr] at htext
        have hall : ∀ value ∈ resolution.values, value ≠ [] := fun value h => (hasLiteral_of_trace htrace h).1
        exact absurd htext (Text.joinWith_ne_nil (by simpa using hvalues) hall)
    · cases hpending
    · exact Text.ofString_eq_nil.1 htext ▸ hinner
  · intro hinner
    refine ⟨{ file := t.path, line, text := .ofString "", isVariable := true }, ?_, rfl, rfl, rfl⟩
    exact List.mem_append_right _ (List.mem_map.2 ⟨"", hinner, rfl⟩)

theorem isBlank_nameRecords {name : String} {line start : Nat} :
    (∃ r, (t.nameRecords name line start).Contains r ∧ r.IsBlank) ↔
      ∃ resolution, (t.trace name start).outcome = .ok resolution ∧
        (resolution = {} ∧ name = "" ∨ "" ∈ resolution.unresolved) := by
  constructor
  · rintro ⟨r, hr, hblank⟩
    obtain ⟨resolution, htrace, -⟩ := bind_contains.1 hr
    rw [contains_iff_mem (outcome_nameRecords htrace line)] at hr
    exact ⟨resolution, htrace, (isBlank_tracedRecords htrace line).1 ⟨r, hr, hblank⟩⟩
  · rintro ⟨resolution, htrace, h⟩
    obtain ⟨r, hr, hblank⟩ := (isBlank_tracedRecords htrace line).2 h
    exact ⟨r, (contains_iff_mem (outcome_nameRecords htrace line)).2 hr, hblank⟩

theorem argumentRecords_of_isTraced {keepText : Bool} {expression line start : Nat}
    (h : t.IsTraced options expression) :
    t.argumentRecords options keepText expression line start = t.nameRecords (t.text expression) line start := by
  rcases h with hk | ⟨hk, hskipped⟩
  · simp only [argumentRecords, hk]
  · simp only [argumentRecords, hk, hskipped]
    rfl

/-- An expression gives a blank record exactly if it is without text in one of the
three ways. -/
theorem isBlank_argumentRecords {keepText : Bool} {expression line start : Nat} :
    (∃ r, (t.argumentRecords options keepText expression line start).Contains r ∧ r.IsBlank) ↔
      t.Textless options keepText expression start := by
  constructor
  · rintro ⟨r, hr, hblank⟩
    by_cases htraced : t.IsTraced options expression
    · rw [argumentRecords_of_isTraced htraced] at hr
      obtain ⟨resolution, htrace, ⟨rfl, htext⟩ | hinner⟩ := isBlank_nameRecords.1 ⟨r, hr, hblank⟩
      · exact .untraced htraced htrace htext
      · exact .deadEnd htraced htrace hinner
    · unfold argumentRecords at hr
      split at hr
      · obtain ⟨value, -, hr⟩ := bind_contains.1 hr
        have hr := pure_contains.1 hr
        split at hr
        · cases hr
        · next hvalue =>
          rw [List.mem_singleton.1 hr] at hblank
          exact absurd hblank.2.2 hvalue
      · next hk =>
        split at hr
        · cases pure_contains.1 hr
        · next hskipped => exact absurd (.inr ⟨hk, by simpa using hskipped⟩) htraced
      · next hk => exact absurd (.inl hk) htraced
      · next hliteral hmember hidentifier =>
        have hr := pure_contains.1 hr
        split at hr
        · next hkeep =>
          rw [List.mem_singleton.1 hr] at hblank
          exact hkeep ▸ .kept hliteral hmember hidentifier (Text.ofString_eq_nil.1 hblank.2.2)
        · cases hr
  · rintro (⟨htraced, htrace, htext⟩ | ⟨htraced, htrace, hinner⟩ | ⟨hliteral, hmember, hidentifier, htext⟩)
    · rw [argumentRecords_of_isTraced htraced]
      exact isBlank_nameRecords.2 ⟨_, htrace, .inl ⟨rfl, htext⟩⟩
    · rw [argumentRecords_of_isTraced htraced]
      exact isBlank_nameRecords.2 ⟨_, htrace, .inr hinner⟩
    · refine ⟨{ file := t.path, line, text := .ofString (t.text expression), isVariable := true }, ?_,
        rfl, rfl, Text.ofString_eq_nil.2 htext⟩
      unfold argumentRecords
      split
      · exact absurd ‹_› hliteral
      · exact absurd ‹_› hmember
      · exact absurd ‹_› hidentifier
      · exact pure_contains.2 (by simp)

/-! ## One file -/

variable (t) in
/-- A scan that succeeds examines, for a rule that matches a call, an expression
without text. -/
def FindsTextless (options : ScanOptions) (m : RuleMap) : Prop :=
  (t.scan options m).Succeeds ∧ ∃ call ∈ t.descendants root, ∃ keys, t.callKeys call = .ok keys ∧
    ∃ rule, t.Matches m call keys rule ∧ ∃ keepText expression line start,
      t.Examines options call rule.index keepText expression line start ∧
        t.Textless options keepText expression start

theorem isBlank_scan {m : RuleMap} :
    (∃ r, (t.scan options m).Contains r ∧ r.IsBlank) ↔ t.FindsTextless options m := by
  constructor
  · rintro ⟨r, hr, hblank⟩
    obtain ⟨hs, call, hcall, keys, hkeys, rule, hmatch, hr⟩ := scan_contains.1 hr
    obtain ⟨-, keepText, expression, line, start, hexamines, hr⟩ := slotRecords_contains.1 hr
    exact ⟨hs, call, hcall, keys, hkeys, rule, hmatch, keepText, expression, line, start, hexamines,
      isBlank_argumentRecords.1 ⟨r, hr, hblank⟩⟩
  · rintro ⟨hs, call, hcall, keys, hkeys, rule, hmatch, keepText, expression, line, start, hexamines, htextless⟩
    obtain ⟨r, hr, hblank⟩ := isBlank_argumentRecords.2 htextless
    -- the scan succeeds, so what the rule gives at the call can be had
    obtain ⟨keys', hkeys', hrules⟩ :=
      (or_iff_right (size_ne_zero_of_matches hmatch)).1 (scan_succeeds.1 hs) call hcall
    rw [hkeys, Except.ok.injEq] at hkeys'
    have hslot := slotRecords_contains.2
      ⟨hrules rule (hkeys' ▸ hmatch), keepText, expression, line, start, hexamines, hr⟩
    exact ⟨r, scan_contains.2 ⟨hs, call, hcall, keys, hkeys, rule, hmatch, hslot⟩, hblank⟩

variable (t) in
/-- A name or an argument that covers no source. -/
def HasEmptyNode : Prop :=
  ∃ node, (t.IsName node ∨ ∃ line, t.IsArgument node line) ∧ t.text node = ""

/-- Only a node without text makes a record blank. -/
theorem FindsTextless.hasEmptyNode {m : RuleMap} (h : t.FindsTextless options m) : t.HasEmptyNode := by
  obtain ⟨-, call, -, keys, -, rule, -, keepText, expression, line, start, hexamines, htextless⟩ := h
  cases htextless with
  | untraced _ _ htext => exact ⟨expression, .inr ⟨line, hexamines.isArgument⟩, htext⟩
  | deadEnd _ htrace hinner =>
    obtain ⟨node, hname, htext⟩ := exists_name_of_trace htrace hinner
    exact ⟨node, .inl hname, htext⟩
  | kept _ _ _ htext => exact ⟨expression, .inr ⟨line, hexamines.isArgument⟩, htext⟩

theorem joinWith_ne_empty {name : String} (hname : name ≠ "") (names : List String) :
    joinWith "." (names ++ [name]) ≠ "" := by
  match names with
  | [] => exact hname
  | [outer] => simp [joinWith]
  | outer :: next :: rest => simp [joinWith]

/-- No constant goes by the empty name. -/
theorem constantOf_nil (t : SyntaxTree) : t.constantOf [] = none := by
  rw [constantOf, List.findSome?_eq_none_iff]
  intro i _
  unfold definition?
  split
  · next name value _ _ =>
    refine if_neg fun h => ?_
    rw [Text.ofString_eq_nil, qualifiedName, List.reverse_cons] at h
    exact joinWith_ne_empty h.1 _ h.2.2
  · rfl

end SyntaxTree

/-! ## The whole analysis -/

namespace Pass

variable {load : Loader} {files : List Path}

/-- A look-up neither fills a blank record nor makes one. -/
theorem isBlank_lookedUp {r : Record} : (lookedUp load files r).IsBlank ↔ r.IsBlank := by
  cases hvalue : valueFor load files r with
  | none => rw [lookedUp_of_none hvalue]
  | some value =>
    obtain ⟨path, -, t, -, hliteral, -⟩ := exists_literal_of_valueFor hvalue
    rw [lookedUp_of_some hvalue]
    constructor
    · intro h
      exact absurd h.2.2 hliteral
    · rintro ⟨-, -, htext⟩
      have hnone : valueFor load files r = none := by
        simp [valueFor, valueOf, htext, SyntaxTree.constantOf_nil]
      rw [hnone] at hvalue
      cases hvalue

/-- A scan pass leaves a blank record exactly if the scan of one of its files
examines an expression without text. -/
theorem isBlank_records {options : ScanOptions} {m : RuleMap} :
    (∃ r ∈ records load options files m, r.IsBlank) ↔
      ∃ path ∈ files, ∃ t, (load path).outcome = .ok t ∧ t.FindsTextless options m := by
  constructor
  · rintro ⟨r, hr, hblank⟩
    obtain ⟨path, hpath, hr⟩ := List.mem_flatMap.1 hr
    rw [scanned] at hr
    cases hout : (load path >>= fun t => t.scan options m).outcome with
    | error fault =>
      rw [hout] at hr
      have herror := hblank.2.1
      rw [List.mem_singleton.1 hr, isError_errorRecord] at herror
      cases herror
    | ok found =>
      rw [hout] at hr
      obtain ⟨t, ht, hscan⟩ := bind_eq_ok.1 hout
      exact ⟨path, hpath, t, ht, SyntaxTree.isBlank_scan.1 ⟨r, (contains_iff_mem hscan).2 hr, hblank⟩⟩
  · rintro ⟨path, hpath, t, ht, hfinds⟩
    obtain ⟨r, hr, hblank⟩ := SyntaxTree.isBlank_scan.2 hfinds
    exact ⟨r, List.mem_flatMap.2 ⟨path, hpath, (mem_scanned_of_ok ht hfinds.1).2 hr⟩, hblank⟩

end Pass

namespace Analysis

section

variable {load : Loader} {options : Options} {rules : RuleMap} {targets corpus : List Path}

/-- One of the scans of an analysis examines an expression without text: the scan of
a target, or that of a file of the corpus in one of the rounds. -/
def ExaminesTextless (load : Loader) (options : Options) (rules : RuleMap) (targets corpus : List Path) : Prop :=
  (∃ path ∈ targets, ∃ t, (load path).outcome = .ok t ∧ t.FindsTextless options.scan rules) ∨
    ∃ refs ∈ roundReferences load options rules targets corpus, ∃ path ∈ corpus, ∃ t,
      (load path).outcome = .ok t ∧ t.FindsTextless options.scan (.ofReferences refs)

theorem isBlank_foundRecords :
    (∃ r ∈ (foundRecords load options rules targets corpus).flatten, r.IsBlank) ↔
      ExaminesTextless load options rules targets corpus := by
  simp only [ExaminesTextless, ← Pass.isBlank_records, foundRecords, List.flatten_cons, List.mem_append, or_and_right,
    exists_or, List.mem_flatten, List.mem_map]
  refine or_congr_right ⟨?_, ?_⟩
  · rintro ⟨r, ⟨_, ⟨refs, hrefs, rfl⟩, hr⟩, hblank⟩
    exact ⟨refs, hrefs, r, hr, hblank⟩
  · rintro ⟨refs, hrefs, r, hr, hblank⟩
    exact ⟨r, ⟨_, ⟨refs, hrefs, rfl⟩, hr⟩, hblank⟩

theorem ExaminesTextless.hasEmptyNode (h : ExaminesTextless load options rules targets corpus) :
    ∃ path ∈ targets ++ corpus, ∃ t, (load path).outcome = .ok t ∧ t.HasEmptyNode := by
  rcases h with ⟨path, hpath, t, ht, hfinds⟩ | ⟨refs, -, path, hpath, t, ht, hfinds⟩
  · exact ⟨path, List.mem_append_left _ hpath, t, ht, hfinds.hasEmptyNode⟩
  · exact ⟨path, List.mem_append_right _ hpath, t, ht, hfinds.hasEmptyNode⟩

/-- **When every reported record has a text.** In an analysis that returns, each
record that is neither pending nor an error has a text exactly if none of its scans
examines an expression without text. So they all have one where every name and
every argument in the files covers some source. -/
theorem reported_texts_iff {result : Analysis} (h : (run load options rules targets corpus).outcome = .ok result) :
    ((∀ r ∈ result.records, r.isPending = false → r.isError = false → r.text ≠ []) ↔
      ¬ExaminesTextless load options rules targets corpus) ∧
    ((∀ path ∈ targets ++ corpus, ∀ t, (load path).outcome = .ok t → ∀ node,
        t.IsName node ∨ (∃ line, t.IsArgument node line) → t.text node ≠ "") →
      ∀ r ∈ result.records, r.isPending = false → r.isError = false → r.text ≠ []) := by
  have hiff : (∀ r ∈ result.records, r.isPending = false → r.isError = false → r.text ≠ []) ↔
      ¬ExaminesTextless load options rules targets corpus := by
    obtain ⟨-, -, -, rfl⟩ := run_eq_ok h
    rw [← isBlank_foundRecords, List.forall_mem_map]
    constructor
    · rintro hall ⟨r, hr, hblank⟩
      obtain ⟨hpending, herror, htext⟩ := Pass.isBlank_lookedUp.2 hblank
      exact hall r hr hpending herror htext
    · intro hnone r hr hpending herror htext
      exact hnone ⟨r, hr, Pass.isBlank_lookedUp.1 ⟨hpending, herror, htext⟩⟩
  refine ⟨hiff, fun hfull => hiff.2 fun hexamines => ?_⟩
  obtain ⟨path, hpath, t, ht, node, hnode, htext⟩ := hexamines.hasEmptyNode
  exact hfull path hpath t ht node hnode htext

end

namespace MissingArgument

/-- `X(,7)`, where a name without text stands for the first argument. -/
def call : ParseTree :=
  .node ⟨"compilation_unit", none, 0, 5, true⟩
    [.node ⟨"invocation_expression", none, 0, 5, true⟩
      [.node ⟨"identifier", some "function", 0, 1, true⟩ [],
        .node ⟨"argument_list", some "arguments", 1, 5, true⟩
          [.node ⟨"argument", none, 2, 2, true⟩ [.node ⟨"identifier", none, 2, 2, true⟩ []],
            .node ⟨"argument", none, 3, 4, true⟩ [.node ⟨"integer_literal", none, 3, 4, true⟩ []]]]]

def load : Loader :=
  (Item.folder [("A.cs", .file ⟨"X(,7)".toUTF8.data.toList, some ⟨call, true⟩⟩)]).loadTree "utf-8"

def rules (index : Int) : RuleMap := .ofList [{ key := "X", methodName := "X", index }]

theorem run_second :
    (records <$> run load {} (rules 1) [.ofString "A.cs"] [.ofString "A.cs"]).outcome =
      .ok [{ file := .ofString "A.cs", line := 1, text := .ofString "7" }] := by
  decide +kernel

/-- A rule for the second argument never examines the first. -/
theorem second_argument_has_text :
    ∃ result, (run load {} (rules 1) [.ofString "A.cs"] [.ofString "A.cs"]).outcome = .ok result ∧
      result.records = [{ file := .ofString "A.cs", line := 1, text := .ofString "7" }] ∧
      ¬ExaminesTextless load {} (rules 1) [.ofString "A.cs"] [.ofString "A.cs"] := by
  obtain ⟨result, h, hrecords⟩ := map_eq_ok.1 run_second
  refine ⟨result, h, hrecords, (reported_texts_iff h).1.1 fun r hr _ _ => ?_⟩
  rw [hrecords, List.mem_singleton] at hr
  rw [hr]
  decide

/-- The argument that is missing is reported, as a name without text. -/
theorem missing_argument_reported :
    (records <$> run load {} (rules 0) [.ofString "A.cs"] [.ofString "A.cs"]).outcome =
      .ok [{ file := .ofString "A.cs", line := 1, text := [], isVariable := true }] := by
  decide +kernel

end MissingArgument

end Analysis

end CommandTrace
