/-
Where the findings of a trace come from.

Every value, reference and dead end that tracing returns is at the end of a
chain of copies in scope (`CopyPath`) that never comes back to a name:
`trace_justified`. The chain is built along the recursion: a scope that finds
something either says so itself or copies another name (`ScopeFinds`), and then
the chain of that name is extended by one copy (`Justified.copy`). A dead end
is a name about which no scope around says anything (`Silent`).
-/
import CommandTrace.Proofs.Tracing
import CommandTrace.Proofs.Tree

namespace CommandTrace.SyntaxTree

open Logged

variable {t : SyntaxTree}

/-! ## Chains of copies -/

/-- From a name used at `start`, copies lead over `names` to a last name and a
scope it is seen from. Each copy stands in a block around the place where the
name before was used. -/
inductive CopyPath (t : SyntaxTree) : Nat → String → List String → String → Nat → Prop
  | here {start : Nat} {name : String} {scope : Nat} : scope ∈ t.scopes start →
      CopyPath t start name [] name scope
  | copy {start block : Nat} {name other : String} {names : List String} {last : String} {scope : Nat} :
      block ∈ t.scopes start → t.kind block = .block → t.Copies block name other →
      CopyPath t block other names last scope → CopyPath t start name (other :: names) last scope

/-- The reference is to the parameter of a method that has the name. -/
def RefersTo (t : SyntaxTree) (method : Nat) (name : String) (reference : Reference) : Prop :=
  t.kind method = .methodDecl ∧
    (∃ (index : Nat) (p : Nat), reference.index = index ∧ (t.parameters method)[index]? = some p ∧
      t.parameterName p = some name) ∧
    t.enclosingTypeNames method = .ok reference.typeNames ∧
    reference.methodName = t.methodName method ∧ reference.space = t.enclosingNamespace method

/-- A scope says of a name what it stands for. -/
inductive Origin (t : SyntaxTree) (name : String) (scope : Nat) : Finding → Prop
  | literal {text : Text} : t.kind scope = .block → t.GivesLiteral scope name text → text ≠ [] →
      Origin t name scope (.value text)
  | field {value : Nat} {text : Text} : t.FieldLiteral scope name value → t.literalValue value = .ok text →
      text ≠ [] → Origin t name scope (.value text)
  | parameter {reference : Reference} : t.RefersTo scope name reference →
      Origin t name scope (.pending reference)

/-- A scope says nothing of a name: it gives it empty literals at most, copies
only names that are not to be followed, and has no parameter of that name. -/
structure Silent (t : SyntaxTree) (guarded : String → Prop) (name : String) (scope : Nat) : Prop where
  literals : t.kind scope = .block → ∀ text, t.GivesLiteral scope name text → text = []
  copies : t.kind scope = .block → ∀ other, t.Copies scope name other → guarded other
  fields : ∀ value, (t.scopeLiterals name scope).head? = some value → t.literalValue value = .ok []
  parameters : t.kind scope = .methodDecl → ∀ p ∈ t.parameters scope, t.parameterName p ≠ some name

theorem Silent.imp {guarded guarded' : String → Prop} {name : String} {scope : Nat}
    (h : t.Silent guarded name scope)
    (hg : ∀ other, t.Copies scope name other → guarded other → guarded' other) : t.Silent guarded' name scope where
  literals := h.literals
  copies := fun hk other hc => hg other hc (h.copies hk other hc)
  fields := h.fields
  parameters := h.parameters

theorem refersTo_of_parameterReference {name : String} {scope index : Nat} {reference : Reference}
    (hk : t.kind scope = .methodDecl) (hi : t.parameterIndex name scope = some index)
    (hr : t.parameterReference scope index = .ok reference) : t.RefersTo scope name reference := by
  obtain ⟨p, hp, hname⟩ : ∃ p, (t.parameters scope)[index]? = some p ∧ t.parameterName p = some name := by
    obtain ⟨hlt, hname, -⟩ := List.findIdx?_eq_some_iff_getElem.1 hi
    exact ⟨_, List.getElem?_eq_getElem hlt, by simpa using hname⟩
  rw [parameterReference] at hr
  cases htypes : t.enclosingTypeNames scope with
  | error fault => simp [htypes, bind, Except.bind] at hr
  | ok typeNames =>
    simp only [htypes, bind, Except.bind, pure, Except.pure, Except.ok.injEq] at hr
    subst hr
    exact ⟨hk, ⟨index, p, rfl, hp, hname⟩, htypes, rfl, rfl⟩

/-- A scope that finds nothing says nothing of the name. -/
theorem silent_of_searchScope {fresh : List String} {name : String} {scope : Nat}
    (h : (t.searchScope (t.follow fresh) name scope).outcome = .ok {}) : t.Silent (· ∉ fresh) name scope := by
  have nothing : ∀ f, ¬ t.ScopeFinds (t.follow fresh) name scope f :=
    fun f hf => Resolution.not_holds_empty f ((searchScope_holds h).2 hf)
  refine ⟨?literals, ?copies, ?fields, ?parameters⟩
  case literals =>
    intro hk text hg
    exact Classical.byContradiction fun hne => nothing _ (.literal hk hg hne)
  case copies =>
    -- a name that may be followed always leaves a finding, if only itself
    intro hk other hc hother
    obtain ⟨inner, hresult⟩ := exists_followed_of_copies hk h hc hother
    by_cases hempty : inner.isEmpty = true
    · exact nothing _ (.deadEnd hk hc hresult hempty)
    · rw [Resolution.isEmpty_iff, Classical.not_forall_not] at hempty
      obtain ⟨f, hf⟩ := hempty
      exact nothing f (.copied hk hc hresult hf)
  case fields =>
    intro value hvalue
    obtain ⟨rest, hl⟩ := List.head?_eq_some_iff.1 hvalue
    rw [searchScope_of_literal hl] at h
    obtain ⟨text, htext⟩ := literalResult_succeeds.1 ⟨_, h⟩
    by_cases hne : text = []
    · rw [htext, hne]
    · exact absurd (.field hl htext hne) (nothing _)
  case parameters =>
    intro hk p hp hname
    obtain ⟨index, hi⟩ : ∃ index, t.parameterIndex name scope = some index :=
      Option.isSome_iff_exists.1 (List.findIdx?_isSome ▸ List.any_eq_true.2 ⟨p, hp, by simpa using hname⟩)
    rw [searchScope_of_parameter hk hi, bind_eq_ok] at h
    obtain ⟨reference, hr, -⟩ := h
    exact nothing _ (.parameter hk hi hr)

/-- Where tracing ends without a finding, no scope says anything of the name. -/
theorem silent_of_traceWith {fresh : List String} {name : String} {start : Nat} {r : Resolution}
    (h : (t.traceWith fresh name start).outcome = .ok r) (he : r.isEmpty = true) :
    ∀ scope ∈ t.scopes start, t.Silent (· ∉ fresh) name scope := by
  rw [traceWith_eq] at h
  exact fun scope hscope => silent_of_searchScope ((walk_isEmpty h he).2 scope hscope)

/-! ## Justified findings -/

/-- A finding has a chain of copies over names that may be followed, each once,
and a scope at its end that accounts for it. -/
inductive Justified (t : SyntaxTree) (fresh : List String) (start : Nat) (name : String) : Finding → Prop
  | origin {names : List String} {last : String} {scope : Nat} {f : Finding} :
      t.CopyPath start name names last scope → names.Nodup → names ⊆ fresh → t.Origin last scope f →
      Justified t fresh start name f
  | deadEnd {names : List String} {last other : String} {block : Nat} :
      t.CopyPath start name names last block → t.kind block = .block → t.Copies block last other →
      (names ++ [other]).Nodup → names ++ [other] ⊆ fresh →
      (∀ scope ∈ t.scopes block, t.Silent (fun n => n ∈ fresh → n ∈ names ++ [other]) other scope) →
      Justified t fresh start name (.unresolved other)

/-- A chain is extended by a copy of a name that is not in it. -/
theorem Justified.copy {fresh : List String} {start block : Nat} {name other : String} {f : Finding}
    (hblock : block ∈ t.scopes start) (hk : t.kind block = .block) (hc : t.Copies block name other)
    (hfresh : other ∈ fresh) (h : t.Justified (without fresh other) block other f) :
    t.Justified fresh start name f := by
  have extend : ∀ {names : List String}, names.Nodup → names ⊆ without fresh other →
      (other :: names).Nodup ∧ other :: names ⊆ fresh := by
    intro names hnodup hsub
    constructor
    · exact List.nodup_cons.2 ⟨fun hmem => (mem_without.1 (hsub hmem)).2 rfl, hnodup⟩
    · exact List.cons_subset.2 ⟨hfresh, fun n hn => (mem_without.1 (hsub hn)).1⟩
  cases h with
  | origin hpath hnodup hsub horigin =>
    obtain ⟨hnodup, hsub⟩ := extend hnodup hsub
    exact .origin (.copy hblock hk hc hpath) hnodup hsub horigin
  | deadEnd hpath hk' hc' hnodup hsub hsilent =>
    obtain ⟨hnodup, hsub⟩ := extend hnodup hsub
    refine .deadEnd (.copy hblock hk hc hpath) hk' hc' hnodup hsub fun scope hscope => ?_
    refine (hsilent scope hscope).imp fun n _ hn hmem => ?_
    by_cases heq : n = other
    · exact heq ▸ List.mem_cons_self
    · exact List.mem_cons_of_mem _ (hn (mem_without.2 ⟨hmem, heq⟩))

/-- Whatever tracing finds is justified. -/
theorem justified_of_traceWith {fresh : List String} {name : String} {start : Nat} {r : Resolution}
    (h : (t.traceWith fresh name start).outcome = .ok r) {f : Finding} (hf : r.Holds f) :
    t.Justified fresh start name f := by
  -- the recursion follows a copied name with one name less
  induction fresh, name, start using traceWith.induct generalizing r f with
  | case1 fresh name start ih =>
    rw [traceWith_eq] at h
    have hfinds := (walk_holds h hf).resolve_left (Resolution.not_holds_empty f)
    obtain ⟨scope, hscope, hfinds⟩ := hfinds
    cases hfinds with
    | literal hk hg hne => exact .origin (.here hscope) List.nodup_nil (List.nil_subset _) (.literal hk hg hne)
    | field hl htext hne =>
      have hfield := mem_scopeLiterals.1 (hl ▸ List.mem_cons_self)
      exact .origin (.here hscope) List.nodup_nil (List.nil_subset _) (.field hfield htext hne)
    | parameter hk hi hr =>
      have hrefers := refersTo_of_parameterReference hk hi hr
      exact .origin (.here hscope) List.nodup_nil (List.nil_subset _) (.parameter hrefers)
    | copied hk hc hinner hf =>
      obtain ⟨hfresh, hinner⟩ := follow_eq_some.1 hinner
      exact .copy hscope hk hc hfresh (ih _ _ hfresh hinner hf)
    | deadEnd hk hc hinner hempty =>
      obtain ⟨hfresh, hinner⟩ := follow_eq_some.1 hinner
      refine .deadEnd (.here hscope) hk hc (by simp) ?_ fun outer houter => ?_
      · exact List.cons_subset.2 ⟨hfresh, List.nil_subset _⟩
      · refine (silent_of_traceWith hinner hempty outer houter).imp fun n _ hn hmem => ?_
        exact List.mem_singleton.2 (Classical.byContradiction fun hne => hn (mem_without.2 ⟨hmem, hne⟩))

/-- **Everything a trace returns is justified by a chain of copies in scope.**
The names of a chain are distinct. A value is a literal that the last scope
gives to the last name; a reference is to the parameter of that name of the
last scope; and an unresolved name is copied by the last scope, while no scope
from there on says anything of it, except for copies of names that are in the
chain. -/
theorem trace_justified (ht : t.IsParse) {name : String} {start : Nat} {r : Resolution}
    (h : (t.trace name start).outcome = .ok r) :
    (∀ text ∈ r.values, ∃ names last scope, t.CopyPath start name names last scope ∧ (name :: names).Nodup ∧
      text ≠ [] ∧ (t.kind scope = .block ∧ t.GivesLiteral scope last text ∨
        ∃ value, t.FieldLiteral scope last value ∧ t.literalValue value = .ok text)) ∧
    (∀ reference ∈ r.pending, ∃ names last scope, t.CopyPath start name names last scope ∧
      (name :: names).Nodup ∧ t.RefersTo scope last reference) ∧
    ∀ other ∈ r.unresolved, ∃ names last block, t.CopyPath start name names last block ∧
      t.kind block = .block ∧ t.Copies block last other ∧ (name :: (names ++ [other])).Nodup ∧
      ∀ scope ∈ t.scopes block, t.Silent (· ∈ name :: (names ++ [other])) other scope := by
  have nodup : ∀ {names : List String}, names.Nodup → names ⊆ without t.copyableNames name →
      (name :: names).Nodup :=
    fun hnodup hsub => List.nodup_cons.2 ⟨fun hmem => (mem_without.1 (hsub hmem)).2 rfl, hnodup⟩
  refine ⟨fun text htext => ?_, fun reference hreference => ?_, fun other hother => ?_⟩
  · cases justified_of_traceWith h (f := .value text) htext with
    | origin hpath hnodup hsub horigin =>
      refine ⟨_, _, _, hpath, nodup hnodup hsub, ?_⟩
      cases horigin with
      | literal hk hg hne => exact ⟨hne, .inl ⟨hk, hg⟩⟩
      | field hfield htext hne => exact ⟨hne, .inr ⟨_, hfield, htext⟩⟩
  · cases justified_of_traceWith h (f := .pending reference) hreference with
    | origin hpath hnodup hsub horigin =>
      cases horigin with
      | parameter hrefers => exact ⟨_, _, _, hpath, nodup hnodup hsub, hrefers⟩
  · cases justified_of_traceWith h (f := .unresolved other) hother with
    | origin hpath hnodup hsub horigin => cases horigin
    | deadEnd hpath hk hc hnodup hsub hsilent =>
      refine ⟨_, _, _, hpath, hk, hc, nodup hnodup hsub, fun scope hscope => ?_⟩
      refine (hsilent scope hscope).imp fun n hcopies hn => ?_
      -- a copied name stands in the file, so it may be followed unless it is the first
      by_cases heq : n = name
      · exact heq ▸ List.mem_cons_self
      · obtain ⟨value, -, hname, rfl⟩ := hcopies
        exact List.mem_cons_of_mem _ (hn (mem_without.2 ⟨ht.text_mem_copyableNames hname, heq⟩))

namespace Assignments

def leaf (field : Option String) (i : Nat) : ParseTree :=
  .node ⟨if i = 6 ∨ i = 7 then "integer_literal" else "identifier", field, i, i + 1, true⟩ []

/-- `M(p) { … }` with assignments between the characters of `Mpabcd78`, given
by their places; the last two are literals. -/
def declaration (assignments : List (Nat × Nat)) : ParseTree :=
  let body := assignments.map fun (left, right) =>
    ParseTree.node ⟨"assignment_expression", none, 0, 8, true⟩ [leaf (some "left") left, leaf (some "right") right]
  .node ⟨"method_declaration", none, 0, 8, true⟩
    [leaf (some "name") 0,
      .node ⟨"parameter_list", some "parameters", 1, 2, true⟩
        [.node ⟨"parameter", none, 1, 2, true⟩ [leaf (some "name") 1]],
      .node ⟨"block", some "body", 0, 8, true⟩ body]

def method (assignments : List (Nat × Nat)) : SyntaxTree :=
  .ofParseTree (.ofString "M.cs") "Mpabcd78".toUTF8.data (declaration assignments) false

theorem isParse (assignments : List (Nat × Nat)) : (method assignments).IsParse := ⟨_, _, _, _, rfl⟩

/-- `M(p) { a = b; b = a; b = 7; a = p; a = c; }` -/
def cyclic : SyntaxTree := method [(2, 3), (3, 2), (3, 6), (2, 1), (2, 4)]

/-- The same method in `namespace N { class A : B { … } }`. -/
def member : SyntaxTree :=
  let type := ParseTree.node ⟨"class_declaration", none, 0, 11, true⟩
    [leaf (some "name") 9, .node ⟨"base_list", none, 10, 11, true⟩ [leaf none 10],
      declaration [(2, 3), (3, 2), (3, 6), (2, 1), (2, 4)]]
  .ofParseTree (.ofString "M.cs") "Mpabcd78NAB".toUTF8.data
    (.node ⟨"compilation_unit", none, 0, 11, true⟩
      [.node ⟨"namespace_declaration", none, 0, 11, true⟩ [leaf (some "name") 8, type]]) false

/-- Of the names copied to `a`, one has a value, one is a parameter and one is
a dead end. -/
theorem cyclic_justified :
    member.IsParse ∧
    (member.trace "a" 12).outcome = .ok ⟨[.ofString "7"], [⟨["A", "B"], "M", 0, some "N"⟩], ["c"]⟩ ∧
    (∃ names last scope, member.CopyPath 12 "a" names last scope ∧ ("a" :: names).Nodup ∧
      Text.ofString "7" ≠ [] ∧ (member.kind scope = .block ∧ member.GivesLiteral scope last (.ofString "7") ∨
        ∃ value, member.FieldLiteral scope last value ∧ member.literalValue value = .ok (.ofString "7"))) ∧
    (∃ names last scope, member.CopyPath 12 "a" names last scope ∧ ("a" :: names).Nodup ∧
      member.RefersTo scope last ⟨["A", "B"], "M", 0, some "N"⟩) ∧
    ∃ names last block, member.CopyPath 12 "a" names last block ∧
      member.kind block = .block ∧ member.Copies block last "c" ∧ ("a" :: (names ++ ["c"])).Nodup ∧
      ∀ scope ∈ member.scopes block, member.Silent (· ∈ "a" :: (names ++ ["c"])) "c" scope := by
  have hparse : member.IsParse := ⟨_, _, _, _, rfl⟩
  have h : (member.trace "a" 12).outcome = .ok ⟨[.ofString "7"], [⟨["A", "B"], "M", 0, some "N"⟩], ["c"]⟩ := by
    decide +kernel
  obtain ⟨hvalues, hpending, hunresolved⟩ := trace_justified hparse h
  exact ⟨hparse, h, hvalues _ List.mem_cons_self, hpending _ List.mem_cons_self,
    hunresolved _ List.mem_cons_self⟩

end Assignments

end CommandTrace.SyntaxTree
