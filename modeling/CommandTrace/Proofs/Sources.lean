/-
Where the texts of records come from.

No text is made up. A record of a scan holds a literal or several of its own
file, the text of a node of that file, or a reference (`RecordOf.isFrom`); only
the look-up of names brings in a literal of another file, and then a single one
(`exists_literal_of_valueFor`). The values that a name was traced to are listed
once each (`nodup_values_of_trace`), so none is joined with itself. The line of a
record is that of an invocation, an argument or an assignment
(`IsArgument.exists_site`), which for the arguments of a creation takes that a
child's parent is the node that lists it.
-/
import CommandTrace.Proofs.Provenance
import CommandTrace.Proofs.Run
import CommandTrace.Source

namespace CommandTrace

open Logged

namespace SyntaxTree

variable {t : SyntaxTree}

/-! ## Each value once -/

section

variable {follow : String → Logged (Option Resolution)}

theorem nodup_foldlM_collect {values : List Nat} {found r : Resolution} (hfound : found.values.Nodup)
    (h : (values.foldlM (t.collect follow) found).outcome = .ok r) : r.values.Nodup := by
  induction values generalizing found with
  | nil =>
    cases h
    exact hfound
  | cons value values ih =>
    rw [List.foldlM_cons, bind_eq_ok] at h
    obtain ⟨next, hnext, h⟩ := h
    rw [outcome_collect, bind_eq_ok] at hnext
    obtain ⟨part, -, hnext⟩ := hnext
    cases hnext
    exact ih (nodup_union hfound) h

end

section

variable {follow : String → Nat → Logged (Option Resolution)} {name : String}

theorem nodup_literalResult {value : Nat} {found : Resolution} (h : (t.literalResult value).outcome = .ok found) :
    found.values.Nodup := by
  obtain ⟨text, -, h⟩ := bind_eq_ok.1 h
  cases h
  split
  · exact List.nodup_nil
  · simp

theorem nodup_searchScope {scope : Nat} {found : Resolution}
    (h : (t.searchScope follow name scope).outcome = .ok found) : found.values.Nodup := by
  unfold searchScope at h
  split at h
  · exact nodup_foldlM_collect List.nodup_nil h
  · split at h
    · cases h
      exact List.nodup_nil
    · obtain ⟨reference, -, h⟩ := bind_eq_ok.1 h
      cases h
      exact List.nodup_nil
  · cases hl : t.scopeLiterals name scope with
    | nil =>
      rw [hl] at h
      cases h
      exact List.nodup_nil
    | cons value _ =>
      rw [hl] at h
      exact nodup_literalResult h

theorem nodup_walk {scopes : List Nat} {carried r : Resolution} (hcarried : carried.values.Nodup)
    (h : (t.walk follow name carried scopes).outcome = .ok r) : r.values.Nodup := by
  induction scopes generalizing carried with
  | nil =>
    cases h
    exact hcarried
  | cons scope rest ih =>
    rw [outcome_walk_cons, bind_eq_ok] at h
    obtain ⟨found, hfound, h⟩ := h
    split at h
    · cases h
      exact nodup_searchScope hfound
    · exact ih (nodup_union hcarried) h

end

/-- The values that a name was traced to are listed once each. -/
theorem nodup_values_of_trace {name : String} {start : Nat} {r : Resolution}
    (h : (t.trace name start).outcome = .ok r) : r.values.Nodup := by
  rw [trace, traceWith_eq] at h
  exact nodup_walk List.nodup_nil h

/-! ## Literals and nodes of a file -/

/-- A literal of the file has the value, which is not empty. -/
def HasLiteral (t : SyntaxTree) (value : Text) : Prop :=
  value ≠ [] ∧ ∃ node, t.kind node = .literal ∧ t.literalValue node = .ok value

theorem hasLiteral_of_trace {name : String} {start : Nat} {r : Resolution}
    (h : (t.trace name start).outcome = .ok r) {value : Text} (hvalue : value ∈ r.values) : t.HasLiteral value := by
  cases justified_of_traceWith h (f := .value value) hvalue with
  | origin _ _ _ horigin =>
    cases horigin with
    | literal _ hgives hne =>
      obtain ⟨node, -, hk, hliteral⟩ := hgives
      exact ⟨hne, node, hk, hliteral⟩
    | field hfield hliteral hne =>
      obtain ⟨-, -, -, -, -, -, hk⟩ := hfield
      exact ⟨hne, _, hk, hliteral⟩

/-- A dead end of a trace is the text of a name. -/
theorem exists_name_of_trace {name : String} {start : Nat} {r : Resolution}
    (h : (t.trace name start).outcome = .ok r) {other : String} (hother : other ∈ r.unresolved) :
    ∃ node, t.IsName node ∧ t.text node = other := by
  cases justified_of_traceWith h (f := .unresolved other) hother with
  | origin _ _ _ horigin => cases horigin
  | deadEnd _ _ hcopies _ _ _ =>
    obtain ⟨node, -, hname, htext⟩ := hcopies
    exact ⟨node, hname, htext⟩

theorem exists_node_of_trace {name : String} {start : Nat} {r : Resolution}
    (h : (t.trace name start).outcome = .ok r) {other : String} (hother : other ∈ r.unresolved) :
    ∃ node < t.size, t.text node = other := by
  obtain ⟨node, hname, htext⟩ := exists_name_of_trace h hother
  exact ⟨node, lt_size_of_kind (by rcases hname with hk | hk <;> simp [hk]), htext⟩

/-! ## Arguments -/

theorem exists_argument_of_mem {list : Option Nat} {expression : Nat}
    (h : expression ∈ t.argumentExpressions list) :
    ∃ argument, t.kind argument = .argument ∧ expression ∈ t.children argument := by
  unfold argumentExpressions at h
  split at h
  · cases h
  · obtain ⟨argument, hargument, hlast⟩ := List.mem_filterMap.1 h
    refine ⟨argument, by simpa using (List.mem_filter.1 hargument).2, ?_⟩
    have hmem := List.mem_of_getLast? hlast
    exact (List.mem_filter.1 (List.mem_filter.1 hmem).1).1

theorem lt_size_of_childByField {i c : Nat} {field : String} (h : t.childByField i field = some c) : c < t.size :=
  (t.lt_of_mem_children (List.mem_of_find?_eq_some h)).2

theorem IsArgument.lt_size {expression line : Nat} (h : t.IsArgument expression line) : expression < t.size := by
  cases h with
  | invocation _ hmem | creation hmem =>
    obtain ⟨argument, -, hchild⟩ := exists_argument_of_mem hmem
    exact (t.lt_of_mem_children hchild).2
  | initializer _ hright => exact lt_size_of_childByField hright

/-- The line is that of an invocation, an argument or an assignment. -/
theorem IsArgument.exists_site (ht : t.IsParse) {expression line : Nat} (h : t.IsArgument expression line) :
    ∃ node, (t.kind node = .invocation ∨ t.kind node = .argument ∨ t.kind node = .assignment) ∧
      line = t.line node := by
  cases h with
  | invocation hcall _ => exact ⟨_, .inl hcall, rfl⟩
  | creation hmem =>
    obtain ⟨argument, hk, hchild⟩ := exists_argument_of_mem hmem
    rw [ht.parent_of_mem_children hchild, Option.getD_some]
    exact ⟨argument, .inr (.inl hk), rfl⟩
  | initializer hsimple _ =>
    simp only [isSimpleAssignment, Bool.and_eq_true, decide_eq_true_eq] at hsimple
    exact ⟨_, .inr (.inr hsimple.1), rfl⟩

end SyntaxTree

/-! ## Kinds of records -/

namespace Record

/-- It says of a file that it could not be analysed, and nothing else. -/
def IsFailure (r : Record) : Prop :=
  r.isError = true ∧ r.line = 0 ∧ r.text = [] ∧ r.isVariable = false ∧ r.pending = none

/-- It stands for the calls of a method. -/
def IsReference (r : Record) : Prop :=
  r.isVariable = false ∧ ∃ reference, r.pending = some reference ∧ r.text = .ofString reference.encode

/-- Its text is that of a node of the file, which could not be traced. -/
def IsUntraced (r : Record) (t : SyntaxTree) : Prop :=
  r.isVariable = true ∧ r.pending = none ∧ ∃ node < t.size, r.text = .ofString (t.text node)

/-- Its text joins values of literals of the file. -/
def IsResolved (r : Record) (t : SyntaxTree) : Prop :=
  r.isVariable = false ∧ r.pending = none ∧ ∃ values : List Text, values ≠ [] ∧ values.Nodup ∧
    (∀ value ∈ values, t.HasLiteral value) ∧ r.text = Text.joinWith alternativeMark values

/-- Its line is one more than the number of line feeds before an invocation, an
argument or an assignment of the file. -/
def StandsIn (r : Record) (t : SyntaxTree) : Prop :=
  ∃ node, (t.kind node = .invocation ∨ t.kind node = .argument ∨ t.kind node = .assignment) ∧
    r.line = (t.source.extract 0 (t.start node)).count 0x0A + 1

/-- It has been found in the file. -/
structure IsFrom (r : Record) (t : SyntaxTree) : Prop where
  file : r.file = t.path
  error : r.isError = false
  site : r.StandsIn t
  text : r.IsReference ∨ r.IsUntraced t ∨ r.IsResolved t

end Record

namespace SyntaxTree

variable {t : SyntaxTree}

theorem RecordOf.isFrom (ht : t.IsParse) {expression line start : Nat} (hargument : t.IsArgument expression line)
    {record : Record} (h : t.RecordOf expression line start record) : record.IsFrom t := by
  obtain ⟨node, hk, rfl⟩ := hargument.exists_site ht
  cases h with
  | literal hliteral hvalue hne =>
    have hall : ∀ v ∈ [_], t.HasLiteral v := List.forall_mem_singleton.2 ⟨hne, expression, hliteral, hvalue⟩
    exact ⟨rfl, rfl, ⟨node, hk, rfl⟩, .inr (.inr ⟨rfl, rfl, [_], by simp, by simp, hall, rfl⟩)⟩
  | values htrace hne =>
    exact ⟨rfl, rfl, ⟨node, hk, rfl⟩, .inr (.inr ⟨rfl, rfl, _, hne, nodup_values_of_trace htrace,
      fun value hvalue => hasLiteral_of_trace htrace hvalue, rfl⟩)⟩
  | parameter _ _ => exact ⟨rfl, rfl, ⟨node, hk, rfl⟩, .inl ⟨rfl, _, rfl, rfl⟩⟩
  | deadEnd htrace hinner =>
    obtain ⟨inner, hlt, rfl⟩ := exists_node_of_trace htrace hinner
    exact ⟨rfl, rfl, ⟨node, hk, rfl⟩, .inr (.inl ⟨rfl, rfl, inner, hlt, rfl⟩)⟩
  | kept => exact ⟨rfl, rfl, ⟨node, hk, rfl⟩, .inr (.inl ⟨rfl, rfl, expression, hargument.lt_size, rfl⟩)⟩

/-- Whatever a scan finds is from the file. -/
theorem isFrom_of_scan (ht : t.IsParse) {options : ScanOptions} {m : RuleMap} {record : Record}
    (h : (t.scan options m).Contains record) : record.IsFrom t := by
  obtain ⟨keepText, expression, line, start, hargument, h⟩ := exists_argument_of_scan h
  exact (recordOf_of_argumentRecords h).isFrom ht hargument

end SyntaxTree

/-! ## Loaders -/

/-- What is loaded from a path is the parse of a file, and knows the path. -/
def Loader.Parses (load : Loader) : Prop :=
  ∀ path t, (load path).outcome = .ok t → t.path = path ∧ t.IsParse

theorem Item.parses_loadTree (root : Item) (encoding : String) : Loader.Parses (root.loadTree encoding) := by
  intro path t h
  obtain ⟨file, -, h⟩ := bind_eq_ok.1 h
  obtain ⟨source, -, h⟩ := bind_eq_ok.1 h
  rw [outcome_bind_of_ok (outcome_report _)] at h
  split at h
  · rw [outcome_bind_of_ok (outcome_report _)] at h
    cases h
    exact ⟨rfl, _, _, _, _, rfl⟩
  · cases h
    exact ⟨rfl, _, _, _, _, rfl⟩

/-! ## Passes -/

theorem eq_ok_of_toOption {α : Type} {x : Except Fault α} {a : α} (h : x.toOption = some a) : x = .ok a := by
  cases x with
  | error fault => cases h
  | ok b => exact congrArg Except.ok (Option.some.inj h)

theorem SyntaxTree.hasLiteral_of_constantOf {t : SyntaxTree} {text value : Text}
    (h : t.constantOf text = some value) : t.HasLiteral value := by
  obtain ⟨i, -, hi⟩ := List.exists_of_findSome?_eq_some h
  unfold definition? at hi
  split at hi
  · next name node _ _ =>
    split at hi
    · next hdefines =>
      obtain ⟨hvalue, hne⟩ := Option.filter_eq_some_iff.1 hi
      exact ⟨by simpa using hne, node, hdefines.2.1, eq_ok_of_toOption hvalue⟩
    · cases hi
  · cases hi

namespace Pass

variable {load : Loader}

/-- A value that is looked up is a literal of one of the files. -/
theorem exists_literal_of_valueFor {files : List Path} {r : Record} {value : Text}
    (h : valueFor load files r = some value) :
    ∃ path ∈ files, ∃ t, (load path).outcome = .ok t ∧ t.HasLiteral value := by
  unfold valueFor at h
  split at h
  · obtain ⟨path, hpath, h⟩ := List.exists_of_findSome?_eq_some h
    obtain ⟨t, ht, h⟩ := Option.bind_eq_some_iff.1 h
    exact ⟨path, hpath, t, eq_ok_of_toOption ht, SyntaxTree.hasLiteral_of_constantOf h⟩
  · cases h

/-- A record of a scan pass tells of a failure, or is from the file it names. -/
theorem failure_or_from (hload : Loader.Parses load) {options : ScanOptions} {files : List Path} {m : RuleMap}
    {record : Record} (h : record ∈ records load options files m) :
    record.IsFailure ∨ ∃ t, (load record.file).outcome = .ok t ∧ record.IsFrom t := by
  obtain ⟨path, -, h⟩ := List.mem_flatMap.1 h
  rw [scanned] at h
  cases hout : (load path >>= fun t => t.scan options m).outcome with
  | error fault =>
    rw [hout] at h
    rw [List.mem_singleton.1 h]
    exact .inl ⟨isError_errorRecord path fault, rfl, rfl, rfl, rfl⟩
  | ok found =>
    rw [hout] at h
    obtain ⟨t, ht, hscan⟩ := bind_eq_ok.1 hout
    obtain ⟨rfl, hparse⟩ := hload path t ht
    have hfrom := SyntaxTree.isFrom_of_scan hparse ((contains_iff_mem hscan).2 h)
    exact .inr ⟨t, hfrom.file ▸ ht, hfrom⟩

end Pass

/-! ## The whole analysis -/

namespace Analysis

theorem exists_pass_of_mem_foundRecords {load : Loader} {options : Options} {rules : RuleMap}
    {targets corpus : List Path} {record : Record}
    (h : record ∈ (foundRecords load options rules targets corpus).flatten) :
    ∃ files m, record ∈ Pass.records load options.scan files m := by
  obtain ⟨records, hrecords, h⟩ := List.mem_flatten.1 h
  rcases List.mem_cons.1 hrecords with rfl | hrecords
  · exact ⟨_, _, h⟩
  · obtain ⟨refs, -, rfl⟩ := List.mem_map.1 hrecords
    exact ⟨_, _, h⟩

/-- **No text is made up.** Each record of an analysis stands where the scan
passes left one. Either that is unchanged: it tells of a file that could not be
analysed, or it names a file, has the line of an invocation, an argument or an
assignment there, and its text is that of a reference, of a node of the file, or
of one or more literals of the file, each once. Or it had the text of a node and
now has that of one literal of a file of the corpus. -/
theorem texts_from_sources {load : Loader} (hload : Loader.Parses load) (options : Options) (rules : RuleMap)
    (targets corpus : List Path) {result : Analysis}
    (h : (run load options rules targets corpus).outcome = .ok result) :
    ∃ scanned, (scanPasses load options rules targets corpus).outcome = .ok scanned ∧
      scanned.records.length = result.records.length ∧
      ∀ (i : Nat) (r : Record), result.records[i]? = some r → ∃ before, scanned.records[i]? = some before ∧
        (before = r ∧ r.IsFailure ∨
          ∃ t, (load r.file).outcome = .ok t ∧ r.isError = false ∧ r.StandsIn t ∧
            (before = r ∧ (r.IsReference ∨ r.IsUntraced t ∨ r.IsResolved t) ∨
              before.IsUntraced t ∧ ∃ path ∈ corpus, ∃ t' value, (load path).outcome = .ok t' ∧
                t'.HasLiteral value ∧ r = before.resolved value)) := by
  obtain ⟨-, -, -, rfl⟩ := run_eq_ok h
  refine ⟨_, scanPasses_eq_ok load options rules targets corpus, (List.length_map _).symm, fun i r hr => ?_⟩
  rw [List.getElem?_map, Option.map_eq_some_iff] at hr
  obtain ⟨before, hbefore, rfl⟩ := hr
  refine ⟨before, hbefore, ?_⟩
  obtain ⟨files, m, hpass⟩ := exists_pass_of_mem_foundRecords (List.mem_of_getElem? hbefore)
  have hsource := Pass.failure_or_from hload hpass
  cases hvalue : Pass.valueFor load corpus before with
  | none =>
    rw [Pass.lookedUp_of_none hvalue]
    rcases hsource with hfailure | ⟨t, ht, hfrom⟩
    · exact .inl ⟨rfl, hfailure⟩
    · exact .inr ⟨t, ht, hfrom.error, hfrom.site, .inl ⟨rfl, hfrom.text⟩⟩
  | some value =>
    -- Only an untraced record is looked up.
    rw [Pass.lookedUp_of_some hvalue]
    obtain ⟨hvariable, hpending⟩ := Pass.isOpen_iff.1 (Pass.isOpen_of_valueFor hvalue)
    obtain ⟨path, hpath, t', ht', hliteral⟩ := Pass.exists_literal_of_valueFor hvalue
    rcases hsource with ⟨-, -, -, hfixed, -⟩ | ⟨t, ht, hfrom⟩
    · exact absurd hvariable (by simp [hfixed])
    rcases hfrom.text with ⟨hfixed, -⟩ | huntraced | ⟨hfixed, -⟩
    · exact absurd hvariable (by simp [hfixed])
    · exact .inr ⟨t, ht, hfrom.error, hfrom.site, .inr ⟨huntraced, path, hpath, t', value, ht', hliteral, rfl⟩⟩
    · exact absurd hvariable (by simp [hfixed])

namespace NamedConstant

/-- `X(C.k)`, after an empty line. -/
def call : ParseTree :=
  .node ⟨"compilation_unit", none, 0, 7, true⟩
    [.node ⟨"invocation_expression", none, 1, 7, true⟩
      [.node ⟨"identifier", some "function", 1, 2, true⟩ [],
        .node ⟨"argument_list", some "arguments", 2, 7, true⟩
          [.node ⟨"argument", none, 3, 6, true⟩ [.node ⟨"member_access_expression", none, 3, 6, true⟩ []]]]]

/-- `class C { k = 7 }`, where a name or number is one character of the
source. -/
def constant : ParseTree :=
  .node ⟨"class_declaration", none, 0, 3, true⟩
    [.node ⟨"identifier", some "name", 0, 1, true⟩ [],
      .node ⟨"variable_declarator", none, 1, 3, true⟩
        [.node ⟨"identifier", some "name", 1, 2, true⟩ [], .node ⟨"=", none, 2, 2, false⟩ [],
          .node ⟨"integer_literal", none, 2, 3, true⟩ []]]

def workspace : Item := .folder
  [("A.cs", .file ⟨"\nX(C.k)".toUTF8.data.toList, some ⟨call, false⟩⟩),
    ("C.cs", .file ⟨"Ck7".toUTF8.data.toList, some ⟨constant, false⟩⟩)]

def load : Loader := workspace.loadTree "utf-8"

def rules : RuleMap := .ofList [{ key := "X", methodName := "X", index := 0 }]

/-- What the scan finds. -/
def untraced : Record := { file := .ofString "A.cs", line := 2, text := .ofString "C.k", isVariable := true }

theorem scanPasses_records :
    (records <$> scanPasses load {} rules [.ofString "A.cs"] [.ofString "C.cs"]).outcome = .ok [untraced] := by
  decide +kernel

theorem run_records :
    (records <$> run load {} rules [.ofString "A.cs"] [.ofString "C.cs"]).outcome =
      .ok [untraced.resolved (.ofString "7")] := by
  decide +kernel

/-- The name is a node of its own file, and the number that takes its place a
literal of the other. -/
theorem replaced_by_literal :
    Loader.Parses load ∧
      ∃ result, (run load {} rules [.ofString "A.cs"] [.ofString "C.cs"]).outcome = .ok result ∧
        result.records[0]? = some (untraced.resolved (.ofString "7")) ∧
        ∃ t t' value, (load (.ofString "A.cs")).outcome = .ok t ∧ untraced.StandsIn t ∧ untraced.IsUntraced t ∧
          (load (.ofString "C.cs")).outcome = .ok t' ∧ t'.HasLiteral value ∧
          untraced.resolved (.ofString "7") = untraced.resolved value := by
  have hload : Loader.Parses load := workspace.parses_loadTree "utf-8"
  obtain ⟨result, h, hrecords⟩ := map_eq_ok.1 run_records
  have hfirst : result.records[0]? = some (untraced.resolved (.ofString "7")) := by
    rw [hrecords]
    rfl
  obtain ⟨scanned, hscanned, -, hall⟩ := texts_from_sources hload {} rules [.ofString "A.cs"] [.ofString "C.cs"] h
  obtain ⟨before, hbefore, hsource⟩ := hall 0 _ hfirst
  obtain ⟨scanned', hscanned', hrecords'⟩ := map_eq_ok.1 scanPasses_records
  obtain rfl := Except.ok.inj (hscanned.symm.trans hscanned')
  rw [hrecords'] at hbefore
  obtain rfl : untraced = before := Option.some.inj hbefore
  have hne : untraced ≠ untraced.resolved (.ofString "7") := by decide
  rcases hsource with ⟨heq, -⟩ | ⟨t, ht, -, hsite, hsource⟩
  · exact absurd heq hne
  rcases hsource with ⟨heq, -⟩ | ⟨huntraced, path, hpath, t', value, ht', hliteral, hvalue⟩
  · exact absurd heq hne
  rw [List.mem_singleton.1 hpath] at ht'
  exact ⟨hload, result, h, hfirst, t, t', value, ht, hsite, huntraced, ht', hliteral, hvalue⟩

end NamedConstant

end Analysis

end CommandTrace
