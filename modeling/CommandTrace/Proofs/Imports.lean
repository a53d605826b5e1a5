/-
Which calls an import lets through.

A file that uses a method of another namespace imports that namespace by its full
name: the names of all declarations around the method. A reference carries the
name of the nearest declaration alone. `import_opens_namespace_iff` says when the
two meet: exactly if at most one declaration stands around the method, so that the
nearest name is the full one (`enclosing_eq_full_iff`). What is compared is text,
and of a caller nothing but its import is known, so where the texts differ there is
a caller that is kept out: `importer`, the file that is the import alone.
-/
import CommandTrace.Proofs.Line
import CommandTrace.Proofs.OwnCalls
import CommandTrace.Proofs.Utf8

namespace CommandTrace

namespace SyntaxTree

variable {t : SyntaxTree} {i : Nat} {space full : String}

/-! ## Names of namespaces -/

variable (t) in
/-- The declarations of namespaces around a node, the nearest first. -/
def namespacesAround (i : Nat) : List Nat :=
  (t.ancestors i).filter fun a => t.kind a = .namespaceDecl

variable (t) in
/-- The full name of the namespace a node is declared in: all names around it, the
outermost first, or that of the declaration for the whole file. -/
def fullNamespace (i : Nat) : Option String :=
  if t.namespacesAround i = [] then t.fileNamespace.map t.namespaceName
  else some (joinWith "." ((t.namespacesAround i).reverse.map t.namespaceName))

theorem enclosingNamespace_eq (t : SyntaxTree) (i : Nat) :
    t.enclosingNamespace i = ((t.namespacesAround i).head?.or t.fileNamespace).map t.namespaceName := by
  rw [enclosingNamespace, enclosing, namespacesAround, List.head?_filter]
  simp

theorem exists_enclosing_of_full (h : t.fullNamespace i = some full) :
    ∃ space, t.enclosingNamespace i = some space := by
  rw [enclosingNamespace_eq]
  rw [fullNamespace] at h
  cases haround : t.namespacesAround i with
  | nil =>
    rw [if_pos haround] at h
    exact ⟨full, h⟩
  | cons nearest outer => exact ⟨t.namespaceName nearest, rfl⟩

/-- The name of the nearest declaration is the full name exactly if there is no
other one around it. -/
theorem enclosing_eq_full_iff (hspace : t.enclosingNamespace i = some space) (hfull : t.fullNamespace i = some full) :
    space = full ↔ (t.namespacesAround i).length ≤ 1 := by
  rw [enclosingNamespace_eq] at hspace
  rw [fullNamespace] at hfull
  match haround : t.namespacesAround i with
  | [] =>
    rw [haround] at hspace hfull
    have hsame : some space = some full := hspace.symm.trans hfull
    simpa using hsame
  | [declaration] =>
    rw [haround] at hspace hfull
    have hsame : some space = some full := hspace.symm.trans hfull
    simpa using hsame
  | nearest :: next :: outer =>
    -- a dot and the outer names stand before the nearest name
    have hname : t.namespaceName nearest = space := by
      rw [haround] at hspace
      exact Option.some.inj hspace
    have hjoin : joinWith "." ((next :: outer).reverse.map t.namespaceName) ++ "." ++ space = full := by
      rw [if_neg (by simp [haround]), haround, List.reverse_cons, List.map_append, List.map_singleton, hname,
        joinWith_append_singleton _ _ (by simp)] at hfull
      exact Option.some.inj hfull
    have hne : space ≠ full := by
      intro heq
      have hlength := congrArg String.length hjoin
      rw [String.length_append, String.length_append, ← heq] at hlength
      have hdot : ".".length = 1 := rfl
      omega
    simp [hne]

/-! ## Files that import -/

/-- A parsed file whose top level imports a namespace. -/
structure Imports (caller : SyntaxTree) (space : String) : Prop where
  isParse : caller.IsParse
  kind_root : caller.kind root = .compilationUnit
  directive : ∃ c ∈ caller.children root, caller.kind c = .usingDirective ∧ caller.usingName c = some space

theorem mem_usings : space ∈ t.usings i ↔
    (∃ c ∈ t.children i, t.kind c = .usingDirective ∧ t.usingName c = some space) ∧ space ≠ "" := by
  simp [usings, and_assoc]

/-- What the top level imports is known everywhere in the file. -/
theorem Imports.namespaceReferenced {caller : SyntaxTree} (h : caller.Imports space) (hne : space ≠ "")
    (hi : i < caller.size) : caller.namespaceReferenced space i = true := by
  have hmem : space ∈ caller.usings root := mem_usings.2 ⟨h.directive, hne⟩
  rw [SyntaxTree.namespaceReferenced, List.any_eq_true]
  exact ⟨root, h.isParse.root_mem_scopes hi, by simp [opensNamespace, h.kind_root, hmem]⟩

/-- The file that holds an import and nothing else. -/
def importer (space : String) : SyntaxTree :=
  let bytes := Encoding.Utf8.encode space.toList
  .ofParseTree (.ofString "") bytes.toArray
    (.node ⟨"compilation_unit", none, 0, bytes.length, true⟩
      [.node ⟨"using_directive", none, 0, bytes.length, true⟩
        [.node ⟨"identifier", none, 0, bytes.length, true⟩ []]])
    false

theorem children_importer (space : String) : (importer space).children root = [1] := by
  rw [children, importer, node_ofParseTree rfl]
  rfl

theorem kind_root_importer (space : String) : (importer space).kind root = .compilationUnit := by
  rw [kind, type, isNamed, importer, node_ofParseTree rfl]
  rfl

theorem kind_directive_importer (space : String) : (importer space).kind 1 = .usingDirective := by
  rw [kind, type, isNamed, importer, node_ofParseTree rfl]
  rfl

theorem text_importer (space : String) : (importer space).text 2 = space := by
  rw [text, importer, node_ofParseTree rfl]
  simp [ofParseTree, Encoding.Utf8.decode_encode]

theorem usingName_importer (space : String) : (importer space).usingName 1 = some space := by
  have hname : (importer space).node 2 = ⟨⟨"identifier", none, 0, _, true⟩, some 1, []⟩ := node_ofParseTree rfl
  have hchildren : (importer space).children 1 = [2] := by
    rw [children, importer, node_ofParseTree rfl]
    rfl
  have hfirst : (importer space).firstName 1 = some 2 := by
    simp [firstName, namedChildren, hchildren, isNamed, type, hname, nameTypes]
  have halias : ((importer space).children 1).any (fun c => (importer space).type c = "=") = false := by
    simp [hchildren, type, hname]
  rw [usingName, halias, hfirst, Option.map_some, text_importer]
  rfl

theorem imports_importer (space : String) : (importer space).Imports space where
  isParse := ⟨_, _, _, _, rfl⟩
  kind_root := kind_root_importer space
  directive := ⟨1, by simp [children_importer], kind_directive_importer space, usingName_importer space⟩

/-- The file knows no other namespace, and none without a name. -/
theorem namespaceReferenced_importer :
    (importer full).namespaceReferenced space root = true ↔ space = full ∧ space ≠ "" := by
  have hscopes : (importer full).scopes root = [root] := by
    have hparent : (importer full).parent root = none := by
      rw [parent, importer, node_ofParseTree rfl]
    rw [scopes, ancestors]
    split
    · rfl
    · next p hp => simp [hparent] at hp
  have hfile : (importer full).fileNamespace = none := by
    have hdirective : (importer full).type 1 = "using_directive" := by
      rw [type, importer, node_ofParseTree rfl]
    simp [fileNamespace, children_importer, hdirective]
  have hmem : space ∈ (importer full).usings root ↔ space = full ∧ space ≠ "" := by
    simp [mem_usings, children_importer, kind_directive_importer, usingName_importer, eq_comm]
  rw [namespaceReferenced, hscopes, ← hmem]
  simp [opensNamespace, kind_root_importer, hfile]

/-- All files that import `full` know `space` exactly if it is the same name. -/
theorem known_to_importers_iff :
    (∀ caller : SyntaxTree, caller.Imports full → ∀ i < caller.size, caller.namespaceReferenced space i = true) ↔
      space = full ∧ space ≠ "" := by
  constructor
  · intro h
    have hlt : root < (importer full).size := lt_size_of_kind (by simp [kind_root_importer])
    exact namespaceReferenced_importer.1 (h (importer full) (imports_importer full) root hlt)
  · rintro ⟨rfl, hne⟩ caller himports i hi
    exact himports.namespaceReferenced hne hi

/-! ## References -/

theorem space_of_mem_ofReference {r : Reference} {rule : Rule} (h : rule ∈ Rule.ofReference r) :
    rule.space = r.space := by
  obtain ⟨type, -, rfl⟩ := List.mem_map.1 h
  rfl

theorem ofReference_eq_nil {r : Reference} : Rule.ofReference r = [] ↔ ∀ type ∈ r.typeNames, type = "" := by
  simp [Rule.ofReference]

theorem guardHolds_iff {call : Nat} {rule : Rule} (h : rule.space = some space) :
    t.guardHolds call rule = true ↔ space = "" ∨ t.namespaceReferenced space call = true := by
  by_cases hspace : space = "" <;> simp [guardHolds, h, Option.filter, hspace]

variable {method : Nat} {name : String} {r : Reference}

/-- **When an import lets the calls of a method through.** Let `r` refer to a
parameter of a method that is declared in a namespace with the full name `full`.
Then `r` has a namespace. It is known at every node of every file that imports
`full` exactly if no more than one declaration of a namespace stands around the
method, and it has a name. The rules made from `r` then pass their guard at every
node of such a file; otherwise some rule is kept out somewhere, unless `r` makes
no rules or its namespace has no name and is not asked for. -/
theorem import_opens_namespace_iff (hr : t.RefersTo method name r) (hfull : t.fullNamespace method = some full) :
    ∃ space, r.space = some space ∧
      ((∀ caller : SyntaxTree, caller.Imports full → ∀ i < caller.size, caller.namespaceReferenced space i = true) ↔
        (t.namespacesAround method).length ≤ 1 ∧ space ≠ "") ∧
      ((∀ caller : SyntaxTree, caller.Imports full → ∀ i < caller.size, ∀ rule ∈ Rule.ofReference r,
          caller.guardHolds i rule = true) ↔
        (t.namespacesAround method).length ≤ 1 ∨ space = "" ∨ ∀ type ∈ r.typeNames, type = "") := by
  obtain ⟨space, hspace⟩ := exists_enclosing_of_full hfull
  obtain ⟨-, -, -, -, hr⟩ := hr
  have hrules : ∀ rule ∈ Rule.ofReference r, rule.space = some space := fun rule hrule =>
    (space_of_mem_ofReference hrule).trans (hr.trans hspace)
  refine ⟨space, hr.trans hspace, ?known, ?guard⟩
  case known => rw [known_to_importers_iff, enclosing_eq_full_iff hspace hfull]
  case guard =>
    rw [← enclosing_eq_full_iff hspace hfull, ← ofReference_eq_nil]
    constructor
    · intro h
      by_contra! hnot
      obtain ⟨hother, hnamed, hsome⟩ := hnot
      obtain ⟨rule, hrule⟩ := List.exists_mem_of_ne_nil _ hsome
      refine hother (known_to_importers_iff.1 fun caller himports i hi => ?_).1
      exact ((guardHolds_iff (hrules rule hrule)).1 (h caller himports i hi rule hrule)).resolve_left hnamed
    · intro h caller himports i hi rule hrule
      rw [guardHolds_iff (hrules rule hrule)]
      by_cases hnamed : space = ""
      · exact .inl hnamed
      · rcases h with heq | hempty | hnone
        · exact .inr (known_to_importers_iff.2 ⟨heq, hnamed⟩ caller himports i hi)
        · exact absurd hempty hnamed
        · simp [hnone] at hrule

/-- A method in one namespace is known to every file that imports it. -/
theorem Recursive.known_to_importers :
    tree.RefersTo 5 "p" (parameterIn "N") ∧ tree.fullNamespace 5 = some "N" ∧
    ∀ caller : SyntaxTree, caller.Imports "N" → ∀ i < caller.size, caller.namespaceReferenced "N" i = true := by
  have hfull : tree.fullNamespace 5 = some "N" := by decide +kernel
  obtain ⟨space, hspace, hknown, -⟩ := import_opens_namespace_iff Recursive.refersTo hfull
  cases hspace
  exact ⟨Recursive.refersTo, hfull, hknown.2 ⟨by decide +kernel, by decide⟩⟩

namespace NestedNamespace

def identifier (field : Option String) (start stop : Nat) : ParseTree :=
  .node ⟨"identifier", field, start, stop, true⟩ []

/-- `namespace A { namespace B { class R { M(p) { } } } }`, where a name is one
character of the source. -/
def declaring : SyntaxTree :=
  let method := ParseTree.node ⟨"method_declaration", none, 3, 5, true⟩
    [identifier (some "name") 3 4,
      .node ⟨"parameter_list", some "parameters", 4, 5, true⟩
        [.node ⟨"parameter", none, 4, 5, true⟩ [identifier (some "name") 4 5]]]
  let type := ParseTree.node ⟨"class_declaration", none, 2, 5, true⟩ [identifier (some "name") 2 3, method]
  let inner := ParseTree.node ⟨"namespace_declaration", none, 1, 5, true⟩ [identifier (some "name") 1 2, type]
  .ofParseTree (.ofString "A.cs") "ABRMp".toUTF8.data
    (.node ⟨"compilation_unit", none, 0, 5, true⟩
      [.node ⟨"namespace_declaration", none, 0, 5, true⟩ [identifier (some "name") 0 1, inner]])
    false

/-- `using A.B; R.M(7);` -/
def calling : SyntaxTree :=
  let callee := ParseTree.node ⟨"member_access_expression", some "function", 3, 6, true⟩
    [identifier (some "expression") 3 4, identifier (some "name") 5 6]
  let call := ParseTree.node ⟨"invocation_expression", none, 3, 7, true⟩
    [callee, .node ⟨"argument_list", some "arguments", 6, 7, true⟩
      [.node ⟨"argument", none, 6, 7, true⟩ [.node ⟨"integer_literal", none, 6, 7, true⟩ []]]]
  .ofParseTree (.ofString "B.cs") "A.BR.M7".toUTF8.data
    (.node ⟨"compilation_unit", none, 0, 7, true⟩
      [.node ⟨"using_directive", none, 0, 3, true⟩ [.node ⟨"qualified_name", none, 0, 3, true⟩ []], call])
    false

def parameterIn (space : String) : Reference := ⟨["R"], "M", 0, some space⟩

/-- The method of a nested namespace is not known to a file that imports it by its
full name, and the call there is not found. It would be under the full name. -/
theorem full_import_keeps_call_out :
    declaring.RefersTo 7 "p" (parameterIn "B") ∧ declaring.fullNamespace 7 = some "A.B" ∧
    calling.Imports "A.B" ∧ calling.kind 3 = .invocation ∧
    calling.namespaceReferenced "B" 3 = false ∧
    (calling.scan {} (.ofReferences [parameterIn "B"])).outcome = .ok [] ∧
    (calling.scan {} (.ofReferences [parameterIn "A.B"])).outcome =
      .ok [{ file := .ofString "B.cs", line := 1, text := .ofString "7" }] := by
  have hr : (liftM (declaring.parameterReference 7 0) : Logged Reference).outcome = .ok (parameterIn "B") := by
    decide +kernel
  have himports : calling.Imports "A.B" :=
    ⟨⟨_, _, _, _, rfl⟩, by decide +kernel, 1, by decide +kernel, by decide +kernel, by decide +kernel⟩
  exact ⟨refersTo_of_parameterReference (by decide +kernel) (by decide +kernel) hr, by decide +kernel, himports,
    by decide +kernel, by decide +kernel, by decide +kernel, by decide +kernel⟩

end NestedNamespace

end SyntaxTree

end CommandTrace
