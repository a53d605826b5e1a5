/-
What becomes of the dead ends that a walk comes across.

A block that a walk searches may report names that lead nowhere. They are
carried outward, but a scope that resolves the name ends the walk with its own
findings only (`walk_cases`). An outer block sees the copies of the inner ones,
so it comes to the same dead ends again (`dead_end_of_inner`); a field or a
parameter does not. `trace_keeps_dead_end_iff` says that a dead end is lost
exactly if the walk ends at one of these, and `parameter_loses_dead_end` is such
a case.
-/
import CommandTrace.Proofs.Provenance

namespace CommandTrace.SyntaxTree

open Logged

variable {t : SyntaxTree}

/-! ## The course of a walk -/

section

variable (t) in
/-- The scope is searched without resolving the name, so a walk goes on. -/
def Passes (follow : String → Nat → Logged (Option Resolution)) (name : String) (scope : Nat) : Prop :=
  ∃ found, (t.searchScope follow name scope).outcome = .ok found ∧ found.isResolved = false

variable (t) in
/-- A walk from `start` comes to the scope, since all scopes further in let it
pass. -/
def ComesTo (follow : String → Nat → Logged (Option Resolution)) (name : String) (start scope : Nat) : Prop :=
  ∃ inner outer, t.scopes start = inner ++ scope :: outer ∧ ∀ s ∈ inner, t.Passes follow name s

variable (t) in
/-- A walk from `start` comes to the scope, which resolves the name. -/
def EndsAt (follow : String → Nat → Logged (Option Resolution)) (name : String) (start scope : Nat)
    (r : Resolution) : Prop :=
  t.ComesTo follow name start scope ∧ (t.searchScope follow name scope).outcome = .ok r ∧ r.isResolved = true

variable {follow : String → Nat → Logged (Option Resolution)} {name : String}

theorem Passes.not_resolved {scope : Nat} {r : Resolution} (h : t.Passes follow name scope)
    (hr : (t.searchScope follow name scope).outcome = .ok r) : r.isResolved = false := by
  obtain ⟨found, hfound, hres⟩ := h
  rw [hfound, Except.ok.injEq] at hr
  rwa [← hr]

/-- A walk goes through all scopes and returns all that they found, or it ends
at the first one that resolves the name, with what that one found. -/
theorem walk_cases {carried r : Resolution} {scopes : List Nat}
    (h : (t.walk follow name carried scopes).outcome = .ok r) :
    (∀ scope ∈ scopes, t.Passes follow name scope) ∧
        (∀ f, r.Holds f ↔ carried.Holds f ∨ ∃ scope ∈ scopes, t.ScopeFinds follow name scope f) ∨
      ∃ inner scope outer, scopes = inner ++ scope :: outer ∧ (∀ s ∈ inner, t.Passes follow name s) ∧
        (t.searchScope follow name scope).outcome = .ok r ∧ r.isResolved = true := by
  induction scopes generalizing carried with
  | nil =>
    cases h
    exact .inl ⟨by simp, by simp⟩
  | cons scope rest ih =>
    rw [outcome_walk_cons, bind_eq_ok] at h
    obtain ⟨found, hfound, h⟩ := h
    split at h
    · next hres =>
      cases h
      exact .inr ⟨[], scope, rest, rfl, by simp, hfound, hres⟩
    · next hres =>
      have hpass : t.Passes follow name scope := ⟨found, hfound, by simpa using hres⟩
      rcases ih h with ⟨hall, hholds⟩ | ⟨inner, last, outer, rfl, hinner, hlast⟩
      · refine .inl ⟨List.forall_mem_cons.2 ⟨hpass, hall⟩, fun f => ?_⟩
        rw [hholds, Resolution.holds_merge, searchScope_holds hfound, or_assoc]
        simp
      · exact .inr ⟨scope :: inner, last, outer, rfl, List.forall_mem_cons.2 ⟨hpass, hinner⟩, hlast⟩

/-- A walk that all scopes let pass returns all that they found. -/
theorem walk_of_passes {carried r : Resolution} {scopes : List Nat}
    (hall : ∀ scope ∈ scopes, t.Passes follow name scope)
    (h : (t.walk follow name carried scopes).outcome = .ok r) {f : Finding} :
    r.Holds f ↔ carried.Holds f ∨ ∃ scope ∈ scopes, t.ScopeFinds follow name scope f := by
  rcases walk_cases h with ⟨-, hholds⟩ | ⟨inner, scope, outer, rfl, -, hscope, hres⟩
  · exact hholds f
  · have hpass := hall scope (by simp)
    rw [hpass.not_resolved hscope] at hres
    cases hres

/-- A walk that does not resolve the name went through all scopes. -/
theorem passes_of_walk {carried r : Resolution} {scopes : List Nat}
    (h : (t.walk follow name carried scopes).outcome = .ok r) (hr : r.isResolved = false) :
    ∀ scope ∈ scopes, t.Passes follow name scope := by
  rcases walk_cases h with ⟨hall, -⟩ | ⟨inner, scope, outer, -, -, -, hres⟩
  · exact hall
  · rw [hr] at hres
    cases hres

/-- Only blocks report dead ends. -/
theorem ScopeFinds.block_of_unresolved {scope : Nat} {u : String}
    (h : t.ScopeFinds follow name scope (.unresolved u)) : t.kind scope = .block := by
  cases h with
  | copied hk => exact hk
  | deadEnd hk => exact hk

end

/-! ## Dead ends seen from outer blocks -/

/-- What is copied below a block is copied below the blocks around it. -/
theorem Copies.outward (ht : t.IsParse) {inner outer : Nat} (houter : outer ∈ t.scopes inner)
    {name other : String} (h : t.Copies inner name other) : t.Copies outer name other := by
  obtain ⟨value, ⟨i, hi, hassigns⟩, hname⟩ := h
  exact ⟨value, ⟨i, descendants_trans (ht.mem_subtree_of_mem_scopes houter) hi, hassigns⟩, hname⟩

/-- If a block does not resolve the name, neither do the names that it copies. -/
theorem not_resolved_of_copied {follow : String → Nat → Logged (Option Resolution)} {name other : String}
    {block : Nat} {found inner : Resolution} (hk : t.kind block = .block)
    (h : (t.searchScope follow name block).outcome = .ok found) (hfound : found.isResolved = false)
    (hc : t.Copies block name other) (hinner : (follow other block).outcome = .ok (some inner)) :
    inner.isResolved = false := by
  have hholds : ∀ f, inner.Holds f → found.Holds f :=
    fun f hf => (searchScope_holds h).2 (.copied hk hc hinner hf)
  have hempty : found.values = [] ∧ found.pending = [] := by simpa [Resolution.isResolved] using hfound
  have hvalues : inner.values = [] :=
    List.eq_nil_iff_forall_not_mem.2 fun text hmem => by
      simpa [Resolution.Holds, hempty] using hholds (.value text) hmem
  have hpending : inner.pending = [] :=
    List.eq_nil_iff_forall_not_mem.2 fun reference hmem => by
      simpa [Resolution.Holds, hempty] using hholds (.pending reference) hmem
  simp [Resolution.isResolved, hvalues, hpending]

/-- **Outer blocks find the dead ends of inner ones.** A block that does not
resolve the name reports nothing that the blocks around it do not. -/
theorem dead_end_of_inner (ht : t.IsParse) {fresh : List String} {name : String} {inner outer : Nat}
    (hin : t.kind inner = .block) (hout : t.kind outer = .block) (houter : outer ∈ t.scopes inner)
    {found found' : Resolution}
    (hfound : (t.searchScope (t.follow fresh) name inner).outcome = .ok found)
    (hres : found.isResolved = false)
    (hfound' : (t.searchScope (t.follow fresh) name outer).outcome = .ok found')
    {u : String} (hu : u ∈ found.unresolved) : u ∈ found'.unresolved := by
  -- the recursion follows a copied name with one name less
  induction fresh, name, inner using traceWith.induct generalizing outer found found' with
  | case1 fresh name inner ih =>
    refine (searchScope_holds hfound' (f := .unresolved u)).2 ?_
    have hfinds : t.ScopeFinds (t.follow fresh) name inner (.unresolved u) := .of_holds hfound hu
    cases hfinds with
    | @copied other r _ _ hc hr hu =>
      obtain ⟨hother, htrace⟩ := follow_eq_some.1 hr
      have hc' := hc.outward ht houter
      obtain ⟨r', hr'⟩ := exists_followed_of_copies hout hfound' hc' hother
      refine .copied hout hc' hr' ?_
      -- the copied name is not resolved from the inner block, nor from further out
      have htrace' := (follow_eq_some.1 hr').2
      rw [traceWith_eq] at htrace htrace'
      have hpass := passes_of_walk htrace (not_resolved_of_copied hin hfound hres hc hr)
      have hpass' : ∀ scope ∈ t.scopes outer, t.Passes (t.follow (without fresh other)) other scope :=
        fun scope hscope => hpass scope (scopes_trans houter hscope)
      rw [walk_of_passes hpass' htrace']
      obtain ⟨scope, hscope, hfinds⟩ :=
        ((walk_of_passes hpass htrace).1 hu).resolve_left (Resolution.not_holds_empty _)
      rcases scopes_total houter hscope with hscope' | hscope'
      · exact .inr ⟨scope, hscope', hfinds⟩
      · -- the scope that finds the dead end is between the two blocks
        obtain ⟨s, hs, hsres⟩ := hpass scope hscope
        obtain ⟨s', hs', -⟩ := hpass outer houter
        have hu' : u ∈ s'.unresolved :=
          ih other scope hother hfinds.block_of_unresolved hout hscope' hs hsres hs' (hfinds.holds hs)
        exact .inr ⟨outer, mem_scopes_self outer, .of_holds hs' hu'⟩
    | @deadEnd _ r _ hc hr hempty =>
      obtain ⟨hother, htrace⟩ := follow_eq_some.1 hr
      have hc' := hc.outward ht houter
      obtain ⟨r', hr'⟩ := exists_followed_of_copies hout hfound' hc' hother
      refine .deadEnd hout hc' hr' (Resolution.isEmpty_iff.2 fun f hf => ?_)
      -- no scope says anything of the copied name
      have htrace' := (follow_eq_some.1 hr').2
      rw [traceWith_eq] at htrace htrace'
      have hnothing := (walk_isEmpty htrace hempty).2
      obtain ⟨scope, hscope, hfinds⟩ := (walk_holds htrace' hf).resolve_left (Resolution.not_holds_empty f)
      exact Resolution.not_holds_empty f (hfinds.holds (hnothing scope (scopes_trans houter hscope)))

/-! ## Dead ends of a trace -/

/-- Of two scopes that a walk comes to, the one further in lets it pass. -/
theorem ComesTo.passes_or {follow : String → Nat → Logged (Option Resolution)} {name : String} {start a b : Nat}
    (ha : t.ComesTo follow name start a) (hb : t.ComesTo follow name start b) :
    a = b ∨ b ∈ t.scopes a ∧ t.Passes follow name a ∨ a ∈ t.scopes b ∧ t.Passes follow name b := by
  obtain ⟨inner, outer, heq, hinner⟩ := ha
  obtain ⟨inner', outer', heq', hinner'⟩ := hb
  rw [scopes_eq_of_append heq, scopes_eq_of_append heq']
  rcases List.append_eq_append_iff.1 (heq.symm.trans heq') with ⟨between, h, h'⟩ | ⟨between, h, h'⟩
  · cases between with
    | nil => exact .inl (List.cons.inj h').1
    | cons _ between =>
      obtain ⟨rfl, rfl⟩ := List.cons.inj h'
      exact .inr (.inl ⟨by simp, hinner' a (by simp [h])⟩)
  · cases between with
    | nil => exact .inl (List.cons.inj h').1.symm
    | cons _ between =>
      obtain ⟨rfl, rfl⟩ := List.cons.inj h'
      exact .inr (.inr ⟨by simp, hinner b (by simp [h])⟩)

/-- **Which dead ends a trace keeps.** Let the walk of a trace search a block
that reports a name which leads nowhere. The name is in the result exactly if no
scope ends the walk or a block does; a field or a parameter that resolves the
name drops it. -/
theorem trace_keeps_dead_end_iff (ht : t.IsParse) {name : String} {start : Nat} {r : Resolution}
    (h : (t.trace name start).outcome = .ok r) {block : Nat}
    (hcomes : t.ComesTo (t.follow (without t.copyableNames name)) name start block)
    (hk : t.kind block = .block) {found : Resolution}
    (hfound : (t.searchBlock (t.follow (without t.copyableNames name)) name block).outcome = .ok found)
    {u : String} (hu : u ∈ found.unresolved) :
    u ∈ r.unresolved ↔
      ∀ scope, t.EndsAt (t.follow (without t.copyableNames name)) name start scope r → t.kind scope = .block := by
  rw [← searchScope_of_block hk] at hfound
  constructor
  · intro hkept scope hends
    exact (ScopeFinds.of_holds hends.2.1 (f := .unresolved u) hkept).block_of_unresolved
  intro hblocks
  rw [trace, traceWith_eq] at h
  rcases walk_cases h with ⟨-, hholds⟩ | ⟨inner, last, outer, heq, hinner, hlast⟩
  · -- no scope ends the walk, so all that was found is returned
    obtain ⟨inner, outer, heq, -⟩ := hcomes
    exact (hholds (.unresolved u)).2 (.inr ⟨block, by simp [heq], .of_holds hfound hu⟩)
  · have hends : t.EndsAt (t.follow (without t.copyableNames name)) name start last r :=
      ⟨⟨inner, outer, heq, hinner⟩, hlast⟩
    rcases hcomes.passes_or hends.1 with rfl | ⟨hscope, hpass⟩ | ⟨-, hpass⟩
    · rw [hfound, Except.ok.injEq] at hlast
      exact hlast.1 ▸ hu
    · exact dead_end_of_inner ht hk (hblocks last hends) hscope hfound (hpass.not_resolved hfound) hlast.1 hu
    · rw [hpass.not_resolved hlast.1] at hlast
      cases hlast.2

namespace Nested

/-- `M() { { a = b; b = c; } a = 7; }`, where a name or number is one character
of the source. -/
def tree : SyntaxTree :=
  let leaf (field : String) (i : Nat) :=
    ParseTree.node ⟨if i < 4 then "identifier" else "integer_literal", some field, i, i + 1, true⟩ []
  let assignment (left right : Nat) :=
    ParseTree.node ⟨"assignment_expression", none, 1, 5, true⟩ [leaf "left" left, leaf "right" right]
  .ofParseTree (.ofString "M.cs") "Mabc7".toUTF8.data
    (.node ⟨"method_declaration", none, 0, 5, true⟩
      [leaf "name" 0, .node ⟨"block", some "body", 1, 5, true⟩
        [.node ⟨"block", none, 1, 4, true⟩ [assignment 1 2, assignment 2 3], assignment 1 4]])
    false

/-- The outer block gives `a` a value, and the dead end of the inner block is
kept beside it. -/
theorem outer_block_keeps_dead_end :
    tree.IsParse ∧ (tree.trace "a" 3).outcome = .ok { values := [.ofString "7"], unresolved := ["c"] } ∧
    tree.ComesTo (tree.follow (without tree.copyableNames "a")) "a" 3 3 ∧ tree.kind 3 = .block ∧
    (tree.searchBlock (tree.follow (without tree.copyableNames "a")) "a" 3).outcome =
      .ok { unresolved := ["c"] } ∧
    ("c" ∈ ["c"] ↔ ∀ scope, tree.EndsAt (tree.follow (without tree.copyableNames "a")) "a" 3 scope
      { values := [.ofString "7"], unresolved := ["c"] } → tree.kind scope = .block) := by
  have hparse : tree.IsParse := ⟨_, _, _, _, rfl⟩
  have htrace : (tree.trace "a" 3).outcome = .ok { values := [.ofString "7"], unresolved := ["c"] } := by
    decide +kernel
  have hcomes : tree.ComesTo (tree.follow (without tree.copyableNames "a")) "a" 3 3 := ⟨[], _, rfl, by simp⟩
  have hk : tree.kind 3 = .block := by decide +kernel
  have hfound : (tree.searchBlock (tree.follow (without tree.copyableNames "a")) "a" 3).outcome =
      .ok { unresolved := ["c"] } := by
    decide +kernel
  exact ⟨hparse, htrace, hcomes, hk, hfound,
    trace_keeps_dead_end_iff hparse htrace hcomes hk hfound List.mem_cons_self⟩

end Nested

namespace Assignments

/-- `M(p) { p = c; }` -/
def overwritten : SyntaxTree := method [(1, 4)]

/-- The parameter ends the walk, and the dead end that the block reports is
lost. -/
theorem parameter_loses_dead_end :
    overwritten.IsParse ∧
    overwritten.ComesTo (overwritten.follow (without overwritten.copyableNames "p")) "p" 5 5 ∧
    overwritten.kind 5 = .block ∧
    (overwritten.searchBlock (overwritten.follow (without overwritten.copyableNames "p")) "p" 5).outcome =
      .ok { unresolved := ["c"] } ∧
    (overwritten.trace "p" 5).outcome = .ok { pending := [⟨[], "M", 0, none⟩] } := by
  exact ⟨isParse _, ⟨[], _, rfl, by simp⟩, by decide +kernel, by decide +kernel, by decide +kernel⟩

end Assignments

end CommandTrace.SyntaxTree
