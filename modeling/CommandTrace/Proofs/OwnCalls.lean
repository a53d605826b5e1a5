/-
Calls of a method from inside its own type.

A parameter is traced further at the calls of its method. Inside the type that
declares it, a method is called by its name alone or as a member of `this`. The
rules for such a call are made at the method, and its keys at the call, but the
two meet: the types around both are the same, so the call has the key of the
rule (`key_mem_invocationKeys`), and the namespace that a node is declared in is
always known there, so the guard lets the call through
(`namespaceReferenced_of_enclosing`). `scan_finds_own_calls` says that a scan for
the parameter finds whatever the argument of the call gives.
-/
import CommandTrace.Proofs.CallSite
import CommandTrace.Proofs.Provenance

namespace CommandTrace.SyntaxTree

open Logged

variable {t : SyntaxTree}

/-! ## The guard -/

/-- The namespace that a node is declared in is known at the node. -/
theorem namespaceReferenced_of_enclosing (ht : t.IsParse) (hroot : t.kind root = .compilationUnit) {i : Nat}
    (hi : i < t.size) {space : String} (h : t.enclosingNamespace i = some space) :
    t.namespaceReferenced space i = true := by
  rw [namespaceReferenced, List.any_eq_true]
  cases hblock : t.enclosing i [.namespaceDecl] with
  | some declaration =>
    have hname : t.namespaceName declaration = space := by simpa [enclosingNamespace, hblock] using h
    have hkind : t.kind declaration = .namespaceDecl := by simpa using List.find?_some hblock
    refine ⟨declaration, List.mem_cons_of_mem _ (List.mem_of_find?_eq_some hblock), ?_⟩
    simp [opensNamespace, hkind, hname]
  | none =>
    -- the namespace is the one of the whole file, which the root opens
    obtain ⟨declaration, hfile, hname⟩ : ∃ f, t.fileNamespace = some f ∧ t.namespaceName f = space := by
      simpa [enclosingNamespace, hblock] using h
    refine ⟨root, ht.root_mem_scopes hi, ?_⟩
    simp [opensNamespace, hroot, hfile, hname]

/-! ## The keys -/

/-- What is called is a method of the object itself: its name alone, or the
name as a member of `this`. -/
inductive CallsOwn (t : SyntaxTree) (callee : Nat) (name : String) : Prop
  | plain : t.kind callee = .identifier → t.text callee = name → CallsOwn t callee name
  | member {receiver : Nat} : t.kind callee = .memberAccess → t.childByField callee "expression" = some receiver →
      t.kind receiver = .thisExpr ∨ t.text receiver = "this" →
      t.simpleName (t.childByField callee "name") = name → CallsOwn t callee name

theorem simpleName_of_identifier {i : Nat} (h : t.kind i = .identifier) : t.simpleName (some i) = t.text i := by
  have htype : t.type i ≠ "generic_name" := by
    intro htype
    rw [kind, htype] at h
    cases hn : t.isNamed i <;> rw [hn] at h <;> cases h
  rw [simpleName, if_neg htype]

/-- A call of the object's own method may be on the types around it. -/
theorem callTarget_of_own {call callee : Nat} {name : String} (h : t.CallsOwn callee name) (hname : name ≠ "")
    {types : List String} (htypes : t.enclosingTypeNames call = .ok types) (declarations : List Declaration) :
    t.callTarget declarations call callee = .ok (some (types, name)) := by
  cases h with
  | plain hk htext =>
    have hne : t.kind callee ≠ .memberAccess := by simp [hk]
    rw [callTarget, if_neg hne, if_pos (.inl hk), htypes, simpleName_of_identifier hk, htext]
    rfl
  | @member receiver hk hreceiver hself hmethod =>
    have hthis : t.isSelf receiver = true := by
      rcases hself with hself | hself
      · simp [isSelf, hself]
      · simp [isSelf, hself]
    rw [callTarget, if_pos hk, hreceiver, hmethod]
    simp only [if_neg hname, if_pos hthis, htypes]
    rfl

/-- The keys of such a call are those of the types around it. -/
theorem key_mem_invocationKeys {call callee : Nat} {name : String}
    (hcallee : t.childByField call "function" = some callee) (h : t.CallsOwn callee name) (hname : name ≠ "")
    {types : List String} (htypes : t.enclosingTypeNames call = .ok types) (declarations : List Declaration) :
    ∃ keys, t.invocationKeys declarations call = .ok keys ∧
      ∀ type ∈ types, type ≠ "" → type ++ "." ++ name ∈ keys := by
  refine ⟨union [t.text callee] ((types.filter (· ≠ "")).map fun type => type ++ "." ++ name), ?_, ?_⟩
  · rw [invocationKeys, hcallee]
    simp only [callTarget_of_own h hname htypes declarations]
    rfl
  · intro type hmem hne
    have hkept : type ∈ types.filter (· ≠ "") := List.mem_filter.2 ⟨hmem, by simpa using hne⟩
    exact mem_union.2 (.inr (List.mem_map_of_mem hkept))

/-! ## The records -/

/-- A call of a method by its name, from inside the type and the namespace
that the method is declared in. -/
structure IsOwnCall (t : SyntaxTree) (method call : Nat) : Prop where
  kind_call : t.kind call = .invocation
  same_type : t.enclosing call [.typeDecl] = t.enclosing method [.typeDecl]
  same_namespace : t.enclosing call [.namespaceDecl] = t.enclosing method [.namespaceDecl]
  calls : ∃ callee, t.childByField call "function" = some callee ∧ t.CallsOwn callee (t.methodName method)

variable {method call : Nat}

theorem IsOwnCall.enclosingTypeNames_eq (h : t.IsOwnCall method call) :
    t.enclosingTypeNames call = t.enclosingTypeNames method := by
  rw [enclosingTypeNames, enclosingTypeNames, h.same_type]

theorem IsOwnCall.enclosingNamespace_eq (h : t.IsOwnCall method call) :
    t.enclosingNamespace call = t.enclosingNamespace method := by
  rw [enclosingNamespace, enclosingNamespace, h.same_namespace]

theorem IsOwnCall.lt_size (h : t.IsOwnCall method call) : call < t.size :=
  lt_size_of_kind (by simp [h.kind_call])

/-- The namespace of the method is known at the call. -/
theorem IsOwnCall.guard (h : t.IsOwnCall method call) (ht : t.IsParse) (hroot : t.kind root = .compilationUnit)
    {space : String} (hspace : t.enclosingNamespace method = some space) :
    t.namespaceReferenced space call = true :=
  namespaceReferenced_of_enclosing ht hroot h.lt_size (h.enclosingNamespace_eq.trans hspace)

theorem enclosingTypeNames_head {i declaration : Nat} {types : List String}
    (hdecl : t.enclosing i [.typeDecl] = some declaration) (h : t.enclosingTypeNames i = .ok types) :
    t.typeName declaration ∈ types := by
  rw [enclosingTypeNames, hdecl] at h
  cases hbases : t.baseNames declaration with
  | error fault => simp [hbases, bind, Except.bind] at h
  | ok bases =>
    simp only [hbases, bind, Except.bind, pure, Except.pure, Except.ok.injEq] at h
    exact h ▸ List.mem_cons_self

theorem slotRecords_of_argument (hk : t.kind call = .invocation) {index argument : Nat}
    (h : (t.argumentExpressions (t.childByField call "arguments"))[index]? = some argument) (options : ScanOptions) :
    (t.slotRecords options call index).outcome =
      (t.argumentRecords options false argument (t.line call) call).outcome := by
  have hlt : index < (t.argumentExpressions (t.childByField call "arguments")).length :=
    (List.getElem?_eq_some_iff.1 h).1
  have hat : argumentAt (t.argumentExpressions (t.childByField call "arguments")) index = .ok (some argument) := by
    rw [argumentAt, if_neg (by omega), if_pos (by omega), Int.toNat_natCast, h]
  rw [slotRecords, hk]
  simp only [argumentSlot]
  exact outcome_bind_of_ok (a := some argument) hat _

/-- The call matches the rule that a reference to a parameter of the method
makes for the type that declares it. -/
theorem IsOwnCall.matches_rule (h : t.IsOwnCall method call) (ht : t.IsParse)
    (hroot : t.kind root = .compilationUnit) (hname : t.methodName method ≠ "") {declaration : Nat}
    (hdecl : t.enclosing method [.typeDecl] = some declaration) (htype : t.typeName declaration ≠ "")
    {name : String} {r : Reference} (hr : t.RefersTo method name r) {refs : List Reference} (hmem : r ∈ refs) :
    ∃ keys rule, t.callKeys call = .ok keys ∧ t.Matches (.ofReferences refs) call keys rule ∧
      rule.index = r.index := by
  obtain ⟨-, -, htypes, hmethod, hspace⟩ := hr
  have htypeMem := enclosingTypeNames_head hdecl htypes
  obtain ⟨callee, hcallee, howns⟩ := h.calls
  obtain ⟨keys, hkeys, hall⟩ := key_mem_invocationKeys hcallee howns hname
    (h.enclosingTypeNames_eq.trans htypes) t.declarations
  have hcallKeys : t.callKeys call = .ok keys := by simpa only [callKeys, h.kind_call] using hkeys
  refine ⟨keys, ⟨t.typeName declaration ++ "." ++ r.methodName, r.methodName, r.index, r.space, .pending⟩,
    hcallKeys, ⟨_, hall _ htypeMem htype, ?held, ?guard⟩, rfl⟩
  case held =>
    refine RuleMap.mem_lookup_ofReferences.2 ⟨r, hmem, RuleMap.mem_lookup_ofList.2 ⟨?_, by rw [hmethod]⟩⟩
    rw [List.flatMap_singleton]
    exact List.mem_map.2 ⟨t.typeName declaration, List.mem_filter.2 ⟨htypeMem, by simpa using htype⟩, rfl⟩
  case guard =>
    rw [guardHolds, Option.all_eq_true]
    intro space hguard
    exact h.guard ht hroot (hspace ▸ (Option.filter_eq_some_iff.1 hguard).1)

/-- **Calls from inside the declaring type are found.** Let a method with a name
have a type with a name as its nearest one, and let `r` refer to one of its
parameters, as tracing does. A scan that looks for `r`, among others, finds at
every call of the method from inside its type and namespace all records of the
argument at the parameter's place. The namespace of `r` never keeps such a call
out. -/
theorem scan_finds_own_calls (ht : t.IsParse) (hroot : t.kind root = .compilationUnit)
    (hname : t.methodName method ≠ "") {declaration : Nat}
    (hdecl : t.enclosing method [.typeDecl] = some declaration) (htype : t.typeName declaration ≠ "")
    {name : String} {r : Reference} (hr : t.RefersTo method name r) {refs : List Reference} (hmem : r ∈ refs)
    (hcall : t.IsOwnCall method call) {argument : Nat}
    (hargument : (t.argumentExpressions (t.childByField call "arguments"))[r.index.toNat]? = some argument)
    {options : ScanOptions} {records : List Record}
    (hscan : (t.scan options (.ofReferences refs)).outcome = .ok records) :
    (∃ found, (t.argumentRecords options false argument (t.line call) call).outcome = .ok found ∧
      ∀ record ∈ found, record ∈ records) ∧
    ∀ space, r.space = some space → t.namespaceReferenced space call = true := by
  obtain ⟨keys, rule, hkeys, hmatch, hslot⟩ := hcall.matches_rule ht hroot hname hdecl htype hr hmem
  obtain ⟨-, ⟨index, -, hindex, -⟩, -, -, hspace⟩ := hr
  have hbelow : call ∈ t.descendants root := by
    rcases List.mem_cons.1 (ht.mem_subtree_root hcall.lt_size) with hrootCall | hbelow
    · have hkind := hcall.kind_call
      rw [hrootCall, hroot] at hkind
      cases hkind
    · exact hbelow
  refine ⟨?found, fun space h => hcall.guard ht hroot (hspace ▸ h)⟩
  case found =>
    rw [hindex, Int.toNat_natCast] at hargument
    have hrecords := slotRecords_of_argument hcall.kind_call hargument options
    obtain ⟨keys', hkeys', hrules⟩ :=
      (or_iff_right (size_ne_zero_of_matches hmatch)).1 (scan_succeeds.1 ⟨records, hscan⟩) call hbelow
    rw [hkeys, Except.ok.injEq] at hkeys'
    obtain ⟨found, hfound⟩ := hrules rule (hkeys' ▸ hmatch)
    refine ⟨found, ?_, fun record hrecord => (contains_iff_mem hscan).1 ?_⟩
    · rw [← hrecords, ← hindex, ← hslot, hfound]
    · exact scan_contains.2
        ⟨⟨records, hscan⟩, call, hbelow, keys, hkeys, rule, hmatch, found, hfound, hrecord⟩

namespace Recursive

/-- `namespace N { class A { M(p) { this.M(7); } } }`, where a name or number is
one character of the source. -/
def tree : SyntaxTree :=
  let name (field : Option String) (i : Nat) := ParseTree.node ⟨"identifier", field, i, i + 1, true⟩ []
  let callee := ParseTree.node ⟨"member_access_expression", some "function", 2, 3, true⟩
    [.node ⟨"this", some "expression", 0, 0, true⟩ [], name (some "name") 2]
  let call := ParseTree.node ⟨"invocation_expression", none, 2, 5, true⟩
    [callee, .node ⟨"argument_list", some "arguments", 4, 5, true⟩
      [.node ⟨"argument", none, 4, 5, true⟩ [.node ⟨"integer_literal", none, 4, 5, true⟩ []]]]
  let method := ParseTree.node ⟨"method_declaration", none, 2, 5, true⟩
    [name (some "name") 2,
      .node ⟨"parameter_list", some "parameters", 3, 4, true⟩
        [.node ⟨"parameter", none, 3, 4, true⟩ [name (some "name") 3]],
      .node ⟨"block", some "body", 2, 5, true⟩ [call]]
  .ofParseTree (.ofString "A.cs") "NAMp7".toUTF8.data
    (.node ⟨"compilation_unit", none, 0, 5, true⟩
      [.node ⟨"namespace_declaration", none, 0, 5, true⟩
        [name (some "name") 0, .node ⟨"class_declaration", none, 1, 5, true⟩ [name (some "name") 1, method]]])
    false

/-- The parameter of `M`, as declared in a namespace. -/
def parameterIn (space : String) : Reference := ⟨["A"], "M", 0, some space⟩

theorem refersTo : tree.RefersTo 5 "p" (parameterIn "N") := by
  have hr : (liftM (tree.parameterReference 5 0) : Logged Reference).outcome = .ok (parameterIn "N") := by
    decide +kernel
  exact refersTo_of_parameterReference (by decide +kernel) (by decide +kernel) hr

theorem isOwnCall : tree.IsOwnCall 5 11 where
  kind_call := by decide +kernel
  same_type := by decide +kernel
  same_namespace := by decide +kernel
  calls := by
    have hreceiver : tree.childByField 12 "expression" = some 13 := by decide +kernel
    exact ⟨12, by decide +kernel, .member (by decide +kernel) hreceiver (by decide +kernel) (by decide +kernel)⟩

/-- The call is found, though a reference to a method of that name in another
namespace stands first. -/
theorem own_call_found :
    tree.RefersTo 5 "p" (parameterIn "N") ∧ tree.IsOwnCall 5 11 ∧
    (tree.scan {} (.ofReferences [parameterIn "X", parameterIn "N"])).outcome =
      .ok [{ file := .ofString "A.cs", line := 1, text := .ofString "7" }] ∧
    (∃ found, (tree.argumentRecords {} false 17 (tree.line 11) 11).outcome = .ok found ∧
      ∀ record ∈ found, record ∈ [({ file := .ofString "A.cs", line := 1, text := .ofString "7" } : Record)]) ∧
    ∀ space, (parameterIn "N").space = some space → tree.namespaceReferenced space 11 = true := by
  have hscan : (tree.scan {} (.ofReferences [parameterIn "X", parameterIn "N"])).outcome =
      .ok [{ file := .ofString "A.cs", line := 1, text := .ofString "7" }] := by
    decide +kernel
  have hdecl : tree.enclosing 5 [.typeDecl] = some 3 := by decide +kernel
  refine ⟨refersTo, isOwnCall, hscan, ?_⟩
  exact scan_finds_own_calls ⟨_, _, _, _, rfl⟩ (by decide +kernel) (by decide +kernel) hdecl (by decide +kernel)
    refersTo (by simp) isOwnCall (by decide +kernel) hscan

end Recursive

end CommandTrace.SyntaxTree
