/-
Names that live in one block.

If a name is used inside one block only, and none of the names it is copied
from is a parameter or a field, then tracing finds exactly the literals given
to the names that copies lead to: `trace_local`. Tracing never follows a name
while it is being traced, so what it finds at a name depends on the names it
came over; nothing is lost, since a name that can be reached at all can be
reached without coming to a name twice (`exists_simple_chain`).
-/
import CommandTrace.Proofs.Provenance
import Mathlib.Data.List.Chain

namespace CommandTrace

open Logged

/-! ## Chains without repeats -/

/-- What can be reached can be reached over distinct elements: a loop is cut
out where it closes. -/
theorem exists_simple_chain {α : Type} {R : α → α → Prop} {a b : α} (h : Relation.ReflTransGen R a b) :
    ∃ l, (a :: l).Nodup ∧ (a :: l).IsChain R ∧ (a :: l).getLast? = some b := by
  induction h using Relation.ReflTransGen.head_induction_on with
  | refl => exact ⟨[], by simp⟩
  | @head a c hstep _ ih =>
    obtain ⟨l, hnodup, hchain, hlast⟩ := ih
    by_cases hmem : a ∈ c :: l
    · obtain ⟨before, after, heq⟩ := List.append_of_mem hmem
      rw [heq] at hnodup hchain hlast
      refine ⟨after, (List.nodup_append.1 hnodup).2.1, hchain.right_of_append, ?_⟩
      rwa [List.getLast?_append_of_ne_nil _ (List.cons_ne_nil _ _)] at hlast
    · exact ⟨c :: l, List.nodup_cons.2 ⟨hmem, hnodup⟩, .cons_cons hstep hchain, by simpa using hlast⟩

theorem exists_rel_of_mem_chain {α : Type} {R : α → α → Prop} {a b : α} {l : List α} (h : (a :: l).IsChain R)
    (hb : b ∈ l) : ∃ c, R c b := by
  induction l generalizing a with
  | nil => cases hb
  | cons c l ih =>
    obtain ⟨hstep, hrest⟩ := List.isChain_cons_cons.1 h
    rcases List.mem_cons.1 hb with rfl | hb
    · exact ⟨a, hstep⟩
    · exact ih hrest hb

namespace SyntaxTree

variable {t : SyntaxTree}

/-! ## Local names -/

/-- Copies in a block lead from one name to another. -/
def Reaches (t : SyntaxTree) (block : Nat) : String → String → Prop :=
  Relation.ReflTransGen (t.Copies block)

/-- A name used at `start` is local to a block: it is the only block around,
no name that copies lead to is a parameter or a field with a literal, and the
literals given to these names can be decoded. -/
structure IsLocal (t : SyntaxTree) (start block : Nat) (name : String) : Prop where
  mem_scopes : block ∈ t.scopes start
  kind_block : t.kind block = .block
  only : ∀ scope ∈ t.scopes start, t.kind scope = .block → scope = block
  not_parameter : ∀ other, t.Reaches block name other → ∀ scope ∈ t.scopes start,
    t.kind scope = .methodDecl → ∀ p ∈ t.parameters scope, t.parameterName p ≠ some other
  not_field : ∀ other, t.Reaches block name other → ∀ scope ∈ t.scopes start,
    ∀ value, ¬ t.FieldLiteral scope other value
  decodes : ∀ other, t.Reaches block name other → ∀ value, t.Gives block other value →
    t.kind value = .literal → ∃ text, t.literalValue value = .ok text

variable {start block : Nat} {name : String}

/-- A name that is copied to a local name is local too. -/
theorem IsLocal.copied (h : t.IsLocal start block name) {other : String} (hc : t.Copies block name other) :
    t.IsLocal block block other where
  mem_scopes := mem_scopes_self block
  kind_block := h.kind_block
  only := fun scope hscope => h.only scope (scopes_trans h.mem_scopes hscope)
  not_parameter := fun last hr scope hscope =>
    h.not_parameter last (.head hc hr) scope (scopes_trans h.mem_scopes hscope)
  not_field := fun last hr scope hscope =>
    h.not_field last (.head hc hr) scope (scopes_trans h.mem_scopes hscope)
  decodes := fun last hr => h.decodes last (.head hc hr)

theorem IsLocal.searchScope_of_ne (h : t.IsLocal start block name)
    (follow : String → Nat → Logged (Option Resolution)) {scope : Nat} (hscope : scope ∈ t.scopes start)
    (hne : scope ≠ block) : (t.searchScope follow name scope).outcome = .ok {} := by
  rw [searchScope_of_none (fun hk => hne (h.only scope hscope hk)), outcome_pure]
  · intro hk
    rw [parameterIndex, List.findIdx?_eq_none_iff]
    exact fun p hp => decide_eq_false (h.not_parameter name .refl scope hscope hk p hp)
  · exact List.eq_nil_iff_forall_not_mem.2 fun value hvalue =>
      h.not_field name .refl scope hscope value (mem_scopeLiterals.1 hvalue)

/-- A local name is traced, and what is found is what its block finds. -/
theorem IsLocal.traceWith_eq_ok (h : t.IsLocal start block name) (fresh : List String) :
    ∃ r, (t.traceWith fresh name start).outcome = .ok r ∧
      ∀ f, r.Holds f ↔ t.ScopeFinds (t.follow fresh) name block f := by
  induction fresh, name, start using traceWith.induct with
  | case1 fresh name start ih =>
    obtain ⟨found, hfound⟩ : (t.searchScope (t.follow fresh) name block).Succeeds := by
      rw [searchScope_of_block h.kind_block, searchBlock_succeeds]
      intro value hg
      by_cases hl : t.kind value = .literal
      · rw [contribution_of_literal hl, literalResult_succeeds]
        exact h.decodes name .refl value hg hl
      by_cases hn : t.IsName value
      · rw [contribution_succeeds_name hn, follow]
        split
        · next hfresh =>
          obtain ⟨r, hr, -⟩ := ih (t.text value) block hfresh (h.copied ⟨value, hg, hn, rfl⟩)
          exact ⟨some r, map_eq_ok.2 ⟨r, hr, rfl⟩⟩
        · exact pure_succeeds _
      · rw [contribution_of_other hl hn]
        exact pure_succeeds _
    have hother : ∀ scope ∈ t.scopes start, scope ≠ block →
        (t.searchScope (t.follow fresh) name scope).outcome = .ok {} :=
      fun _ hscope => h.searchScope_of_ne (t.follow fresh) hscope
    have hcarried : ∀ f, ({} : Resolution).Holds f → found.Holds f :=
      fun f hf => absurd hf (Resolution.not_holds_empty f)
    obtain ⟨r, hr, hholds⟩ := walk_of_scope hfound hother hcarried (.inl h.mem_scopes)
    rw [traceWith_eq]
    exact ⟨r, hr, fun f => (hholds f).trans (searchScope_holds hfound)⟩

/-! ## Completeness -/

/-- The literals at the end of a chain of fresh names are found. -/
theorem IsLocal.finds_of_chain {names fresh : List String} {last : String} {text : Text}
    (h : t.IsLocal start block name) (hnodup : names.Nodup) (hfresh : names ⊆ fresh)
    (hchain : (name :: names).IsChain (t.Copies block)) (hlast : (name :: names).getLast? = some last)
    (hg : t.GivesLiteral block last text) (hne : text ≠ []) :
    (t.traceWith fresh name start).Finds (.value text) := by
  induction names generalizing fresh name start with
  | nil =>
    obtain ⟨r, hr, hholds⟩ := h.traceWith_eq_ok fresh
    cases hlast
    exact ⟨r, hr, (hholds _).2 (.literal h.kind_block hg hne)⟩
  | cons other names ih =>
    obtain ⟨r, hr, hholds⟩ := h.traceWith_eq_ok fresh
    obtain ⟨hc, hchain⟩ := List.isChain_cons_cons.1 hchain
    obtain ⟨hnew, hnodup⟩ := List.nodup_cons.1 hnodup
    obtain ⟨hother, hfresh⟩ := List.cons_subset.1 hfresh
    have hfresh' : names ⊆ without fresh other :=
      fun n hn => mem_without.2 ⟨hfresh hn, fun heq => hnew (heq ▸ hn)⟩
    obtain ⟨inner, hinner, hf⟩ := ih (h.copied hc) hnodup hfresh' hchain (by simpa using hlast)
    exact ⟨r, hr, (hholds _).2 (.copied h.kind_block hc (follow_eq_some.2 ⟨hother, hinner⟩) hf)⟩

/-! ## Soundness -/

/-- From a local name, chains of copies stay in the block. -/
theorem IsLocal.reaches_of_copyPath {names : List String} {last : String} {scope : Nat}
    (h : t.IsLocal start block name) (hpath : t.CopyPath start name names last scope) :
    t.Reaches block name last ∧ scope ∈ t.scopes start := by
  induction hpath with
  | here hscope => exact ⟨.refl, hscope⟩
  | copy hblock hk hc _ ih =>
    cases h.only _ hblock hk
    obtain ⟨hr, hscope⟩ := ih (h.copied hc)
    exact ⟨.head hc hr, scopes_trans hblock hscope⟩

/-- What stands at the end of a chain from a local name is a literal of its
block. -/
theorem IsLocal.eq_value_of_origin {last : String} {scope : Nat} {f : Finding} (h : t.IsLocal start block name)
    (hr : t.Reaches block name last) (hscope : scope ∈ t.scopes start) (ho : t.Origin last scope f) :
    ∃ text, f = .value text ∧ text ≠ [] ∧ t.GivesLiteral block last text := by
  cases ho with
  | literal hk hg hne =>
    cases h.only scope hscope hk
    exact ⟨_, rfl, hne, hg⟩
  | field hfield _ _ => exact absurd hfield (h.not_field last hr scope hscope _)
  | parameter hrefers =>
    obtain ⟨hk, ⟨index, p, -, hp, hname⟩, -⟩ := hrefers
    exact absurd hname (h.not_parameter last hr scope hscope hk p (List.mem_of_getElem? hp))

/-- A local name is traced to literals of names that copies lead to, and to
names without a value. -/
theorem IsLocal.finding_cases {fresh : List String} {f : Finding} (h : t.IsLocal start block name)
    (hf : t.Justified fresh start name f) :
    (∃ other, f = .unresolved other) ∨ ∃ text other, f = .value text ∧ text ≠ [] ∧
      t.Reaches block name other ∧ t.GivesLiteral block other text := by
  cases hf with
  | origin hpath _ _ horigin =>
    obtain ⟨hreaches, hscope⟩ := h.reaches_of_copyPath hpath
    obtain ⟨text, hvalue, hne, hg⟩ := h.eq_value_of_origin hreaches hscope horigin
    exact .inr ⟨text, _, hvalue, hne, hreaches, hg⟩
  | deadEnd => exact .inl ⟨_, rfl⟩

/-- **The literals of a local name.** Tracing returns; it refers to no calls,
and the values are the non-empty literals given in the block to the names that
copies lead to, the name itself included, whatever cycles the copies form. -/
theorem trace_local (ht : t.IsParse) (h : t.IsLocal start block name) :
    ∃ r, (t.trace name start).outcome = .ok r ∧ r.pending = [] ∧
      ∀ text, text ∈ r.values ↔
        text ≠ [] ∧ ∃ other, t.Reaches block name other ∧ t.GivesLiteral block other text := by
  obtain ⟨r, hr, -⟩ := h.traceWith_eq_ok (without t.copyableNames name)
  refine ⟨r, hr, List.eq_nil_iff_forall_not_mem.2 fun reference hreference => ?_, fun text => ⟨?_, ?_⟩⟩
  · rcases h.finding_cases (justified_of_traceWith hr (f := .pending reference) hreference) with
      ⟨other, hf⟩ | ⟨text, other, hf, -⟩ <;> cases hf
  · intro htext
    rcases h.finding_cases (justified_of_traceWith hr (f := .value text) htext) with
      ⟨other, hf⟩ | ⟨text', other, hf, hne, hreaches, hg⟩
    · cases hf
    · cases hf
      exact ⟨hne, other, hreaches, hg⟩
  · rintro ⟨hne, other, hreaches, hg⟩
    obtain ⟨names, hnodup, hchain, hlast⟩ := exists_simple_chain hreaches
    obtain ⟨hnew, hnodup⟩ := List.nodup_cons.1 hnodup
    have hfresh : names ⊆ without t.copyableNames name := by
      intro n hn
      obtain ⟨_, value, -, hname, rfl⟩ := exists_rel_of_mem_chain hchain hn
      exact mem_without.2 ⟨ht.text_mem_copyableNames hname, fun heq => hnew (heq ▸ hn)⟩
    exact (finds_iff_holds hr).1 (h.finds_of_chain hnodup hfresh hchain hlast hg hne)

namespace Assignments

/-- `M(p) { a = b; b = a; b = 7; a = c; c = b; c = 8; }` -/
def looped : SyntaxTree := method [(2, 3), (3, 2), (3, 6), (2, 4), (4, 3), (4, 7)]

theorem looped_reaches {other : String} (h : looped.Reaches 5 "a" other) : other ∈ ["a", "b", "c"] := by
  have step : ∀ name ∈ ["a", "b", "c"], ∀ value ∈ looped.givenValues name 5,
      looped.IsName value → looped.text value ∈ ["a", "b", "c"] := by decide +kernel
  induction h with
  | refl => simp
  | tail _ hc ih =>
    obtain ⟨value, hg, hn, rfl⟩ := hc
    exact step _ ih value (mem_givenValues.2 hg) hn

theorem looped_isLocal : looped.IsLocal 5 5 "a" := by
  have only : ∀ scope ∈ looped.scopes 5, looped.kind scope = .block → scope = 5 := by decide +kernel
  have parameters : ∀ name ∈ ["a", "b", "c"], ∀ scope ∈ looped.scopes 5, looped.kind scope = .methodDecl →
      ∀ p ∈ looped.parameters scope, looped.parameterName p ≠ some name := by decide +kernel
  have fields : ∀ name ∈ ["a", "b", "c"], ∀ scope ∈ looped.scopes 5, looped.scopeLiterals name scope = [] := by
    decide +kernel
  have literals : ∀ name ∈ ["a", "b", "c"], ∀ value ∈ looped.givenValues name 5,
      looped.kind value = .literal → (looped.literalValue value).toOption.isSome := by decide +kernel
  refine ⟨by decide +kernel, by decide +kernel, only, fun other hr => parameters other (looped_reaches hr), ?_, ?_⟩
  · intro other hr scope hscope value hvalue
    have hmem := mem_scopeLiterals.2 hvalue
    rw [fields other (looped_reaches hr) scope hscope] at hmem
    cases hmem
  · intro other hr value hg hl
    have hsome := literals other (looped_reaches hr) value (mem_givenValues.2 hg) hl
    cases hvalue : looped.literalValue value with
    | ok text => exact ⟨text, rfl⟩
    | error fault => simp [hvalue, Except.toOption] at hsome

/-- Both literals are found, over the cycle of `a` and `b` and around it. -/
theorem looped_values :
    looped.IsParse ∧ looped.IsLocal 5 5 "a" ∧
      ∃ r, (looped.trace "a" 5).outcome = .ok r ∧ r.pending = [] ∧
        Text.ofString "7" ∈ r.values ∧ Text.ofString "8" ∈ r.values := by
  have copies : ∀ other ∈ ["b", "c"], looped.Copies 5 "a" other := by
    have h : ∀ other ∈ ["b", "c"], ∃ value ∈ looped.givenValues "a" 5,
      looped.IsName value ∧ looped.text value = other := by decide +kernel
    exact fun other hother => (h other hother).imp fun value hv => ⟨mem_givenValues.1 hv.1, hv.2⟩
  obtain ⟨r, hr, hpending, hvalues⟩ := trace_local (isParse _) looped_isLocal
  refine ⟨isParse _, looped_isLocal, r, hr, hpending, (hvalues _).2 ?_, (hvalues _).2 ?_⟩
  · exact ⟨by decide, "b", .single (copies "b" (by simp)), 14, mem_givenValues.1 (by decide +kernel), by decide +kernel⟩
  · exact ⟨by decide, "c", .single (copies "c" (by simp)), 23, mem_givenValues.1 (by decide +kernel), by decide +kernel⟩

end Assignments

end SyntaxTree

end CommandTrace
