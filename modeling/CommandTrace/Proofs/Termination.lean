/-
Tracing ends, however the copies in a file refer to each other.

A trace of a name follows a copied name unless that is being traced already,
and knows no other bound: `Traced` is this recursion, as the finite derivations
it has. A derivation needs one for every copy in every block around the place,
also where the walk would stop before it. `Nested` is the other view of the same
recursion, the traces that are inside one another at some time.

The names in progress are distinct, and all but the outermost are texts of
names in the file, so there are not many of them (`Nested.length_le`). The names
that are left for a trace to follow are just those that are not in progress
(`traced_traceWith`), so what a trace returns is what the recursion gives, and
there is nothing else that it gives (`Traced.unique`).
-/
import CommandTrace.Proofs.Provenance
import Mathlib.Data.Finset.Card

namespace CommandTrace.SyntaxTree

open Logged

/-! ## The recursion -/

/-- A trace of a name from a place, made while others are in progress, makes one
of a copied name from the block that copies it. -/
def Follows (t : SyntaxTree) (inProgress : List String) (name : String) (start : Nat) (copied : String)
    (block : Nat) : Prop :=
  block ∈ t.scopes start ∧ t.kind block = .block ∧ t.Copies block name copied ∧ copied ∉ name :: inProgress

/-- Follows a copied name by `inner`, unless it is in progress. -/
def followUnless (inProgress : List String) (inner : String → Nat → Logged Resolution) (copied : String)
    (block : Nat) : Logged (Option Resolution) :=
  if copied ∈ inProgress then pure none else some <$> inner copied block

/-- A trace of a name from a place, made while others are in progress, ends
with a result: all traces that it makes do, and it walks the scopes with what
they return. -/
inductive Traced (t : SyntaxTree) : (inProgress : List String) → (name : String) → (start : Nat) →
    Logged Resolution → Prop
  | walk {inProgress : List String} {name : String} {start : Nat} (inner : String → Nat → Logged Resolution) :
      (∀ copied block, t.Follows inProgress name start copied block →
        Traced t (name :: inProgress) copied block (inner copied block)) →
      Traced t inProgress name start
        (t.walk (followUnless (name :: inProgress) inner) name {} (t.scopes start))

/-- In the course of a trace of `first` from `origin`, a name is traced from a
place, inside the traces of the names in progress. -/
inductive Nested (t : SyntaxTree) (first : String) (origin : Nat) :
    (inProgress : List String) → (name : String) → (start : Nat) → Prop
  | outermost : Nested t first origin [] first origin
  | inner {inProgress : List String} {name copied : String} {start block : Nat} :
      Nested t first origin inProgress name start → t.Follows inProgress name start copied block →
      Nested t first origin (name :: inProgress) copied block

variable {t : SyntaxTree}

/-! ## What a walk depends on -/

section

variable {name : String}

theorem collect_congr {follow follow' : String → Logged (Option Resolution)} {value : Nat}
    (h : t.IsName value → follow (t.text value) = follow' (t.text value)) (found : Resolution) :
    t.collect follow found value = t.collect follow' found value := by
  unfold collect
  cases hk : t.kind value with
  | identifier => simp only [h (.inl hk)]
  | memberAccess => simp only [h (.inr hk)]
  | _ => rfl

theorem foldlM_collect_congr {follow follow' : String → Logged (Option Resolution)} {values : List Nat}
    (h : ∀ value ∈ values, t.IsName value → follow (t.text value) = follow' (t.text value)) (found : Resolution) :
    values.foldlM (t.collect follow) found = values.foldlM (t.collect follow') found := by
  induction values generalizing found with
  | nil => rfl
  | cons value values ih =>
    obtain ⟨hvalue, hrest⟩ := List.forall_mem_cons.1 h
    rw [List.foldlM_cons, List.foldlM_cons, collect_congr hvalue, funext (ih hrest)]

variable {follow follow' : String → Nat → Logged (Option Resolution)}

theorem searchBlock_congr {block : Nat}
    (h : ∀ copied, t.Copies block name copied → follow copied block = follow' copied block) :
    t.searchBlock follow name block = t.searchBlock follow' name block := by
  refine foldlM_collect_congr (fun value hvalue hname => ?_) {}
  exact h (t.text value) ⟨value, mem_givenValues.1 hvalue, hname, rfl⟩

/-- A walk asks only for names that a block among its scopes copies. -/
theorem walk_congr {scopes : List Nat}
    (h : ∀ block ∈ scopes, t.kind block = .block → ∀ copied, t.Copies block name copied →
      follow copied block = follow' copied block) (carried : Resolution) :
    t.walk follow name carried scopes = t.walk follow' name carried scopes := by
  induction scopes generalizing carried with
  | nil => rfl
  | cons scope rest ih =>
    obtain ⟨hscope, hrest⟩ := List.forall_mem_cons.1 h
    have hwalk := ih hrest
    unfold walk
    cases hk : t.kind scope with
    | block => simp only [searchBlock_congr (hscope hk), hwalk]
    | _ => simp only [hwalk]

end

/-! ## The result -/

/-- A trace has no two results. -/
theorem Traced.unique {inProgress : List String} {name : String} {start : Nat} {r r' : Logged Resolution}
    (h : t.Traced inProgress name start r) (h' : t.Traced inProgress name start r') : r = r' := by
  induction h generalizing r' with
  | @walk inProgress name start inner hinner ih =>
    cases h' with
    | walk inner' hinner' =>
      refine walk_congr (fun block hblock hk copied hcopies => ?_) {}
      unfold followUnless
      split
      · rfl
      · next hnew =>
        have hfollows : t.Follows inProgress name start copied block := ⟨hblock, hk, hcopies, hnew⟩
        rw [ih copied block hfollows (hinner' copied block hfollows)]

/-- With the names left that are not in progress, tracing is the recursion that
follows all names that are not in progress. -/
theorem traced_traceWith (ht : t.IsParse) {fresh inProgress : List String} {name : String} {start : Nat}
    (hfresh : ∀ copied ∈ t.copyableNames, copied ∈ fresh ↔ copied ∉ name :: inProgress) :
    t.Traced inProgress name start (t.traceWith fresh name start) := by
  -- the recursion follows a copied name with one name less
  induction fresh, name, start using traceWith.induct generalizing inProgress with
  | case1 fresh name start ih =>
    have hcopied : ∀ block copied, t.Copies block name copied → (copied ∈ fresh ↔ copied ∉ name :: inProgress) := by
      intro block copied hcopies
      obtain ⟨value, -, hname, rfl⟩ := hcopies
      exact hfresh _ (ht.text_mem_copyableNames hname)
    have hwalk : t.traceWith fresh name start =
        t.walk (followUnless (name :: inProgress) fun copied block => t.traceWith (without fresh copied) copied block)
          name {} (t.scopes start) := by
      rw [traceWith_eq]
      refine walk_congr (fun block _ _ copied hcopies => ?_) {}
      have hiff := hcopied block copied hcopies
      by_cases hmem : copied ∈ fresh
      · rw [follow, if_pos hmem, followUnless, if_neg (hiff.1 hmem)]
      · rw [follow, if_neg hmem, followUnless, if_pos (by_contra fun hnew => hmem (hiff.2 hnew))]
    rw [hwalk]
    refine .walk _ fun copied block hfollows => ?_
    obtain ⟨-, -, hcopies, hnew⟩ := hfollows
    refine ih copied block ((hcopied block copied hcopies).2 hnew) fun other hother => ?_
    rw [mem_without, hfresh other hother, List.mem_cons (a := other) (b := copied), not_or, and_comm]

/-! ## The depth -/

variable (t) in
/-- The texts of the names in a file. -/
def nameTexts : Finset String :=
  ((Finset.range t.size).filter fun i => t.IsName i).image t.text

theorem text_mem_nameTexts {value : Nat} (h : t.IsName value) : t.text value ∈ t.nameTexts := by
  have hlt : value < t.size := lt_size_of_kind (by rcases h with h | h <;> simp [h])
  exact Finset.mem_image_of_mem t.text (Finset.mem_filter.2 ⟨Finset.mem_range.2 hlt, h⟩)

/-- The names in progress are distinct and, but for the outermost, names of the
file. -/
theorem Nested.names {first name : String} {origin start : Nat} {inProgress : List String}
    (h : t.Nested first origin inProgress name start) :
    (name :: inProgress).Nodup ∧ ∀ n ∈ name :: inProgress, n = first ∨ n ∈ t.nameTexts := by
  induction h with
  | outermost => simp
  | @inner inProgress name copied start block _ hfollows ih =>
    obtain ⟨hnodup, hnames⟩ := ih
    obtain ⟨-, -, ⟨value, -, hname, rfl⟩, hnew⟩ := hfollows
    exact ⟨List.nodup_cons.2 ⟨hnew, hnodup⟩, List.forall_mem_cons.2 ⟨.inr (text_mem_nameTexts hname), hnames⟩⟩

theorem Nested.length_le {first name : String} {origin start : Nat} {inProgress : List String}
    (h : t.Nested first origin inProgress name start) : inProgress.length + 1 ≤ 1 + t.nameTexts.card := by
  obtain ⟨hnodup, hnames⟩ := h.names
  have hsubset : (name :: inProgress).toFinset ⊆ insert first t.nameTexts := by
    intro n hn
    exact Finset.mem_insert.2 (hnames n (List.mem_toFinset.1 hn))
  have hcard := Finset.card_le_card hsubset
  have hinsert := Finset.card_insert_le first t.nameTexts
  rw [List.toFinset_card_of_nodup hnodup, List.length_cons] at hcard
  omega

/-- **Tracing ends.** In every parsed file, from every place and for every
name, the recursion that follows each copied name unless it is being traced has
a result, which is what `trace` returns, and no other; and never are more
traces inside one another than the file has names, and one. -/
theorem trace_ends (ht : t.IsParse) (name : String) (start : Nat) :
    (∀ r, t.Traced [] name start r ↔ r = t.trace name start) ∧
      ∀ inProgress inner place, t.Nested name start inProgress inner place →
        inProgress.length + 1 ≤ 1 + t.nameTexts.card := by
  have htraced : t.Traced [] name start (t.trace name start) := by
    refine traced_traceWith ht fun copied hcopied => ?_
    simp [mem_without, hcopied]
  refine ⟨fun r => ⟨fun h => h.unique htraced, fun h => h ▸ htraced⟩, ?_⟩
  intro inProgress inner place h
  exact h.length_le

namespace Assignments

/-- The names `a` and `b` are copies of each other; five names stand in the
file, so no more than six traces are inside one another. -/
theorem cyclic_ends :
    cyclic.IsParse ∧ cyclic.Copies 5 "a" "b" ∧ cyclic.Copies 5 "b" "a" ∧
      cyclic.Traced [] "a" 5 (cyclic.trace "a" 5) ∧
      ∀ inProgress inner place, cyclic.Nested "a" 5 inProgress inner place → inProgress.length + 1 ≤ 1 + 5 := by
  have hcard : cyclic.nameTexts.card = 5 := by decide +kernel
  have hab : ∃ value ∈ cyclic.givenValues "a" 5, cyclic.IsName value ∧ cyclic.text value = "b" := by decide +kernel
  have hba : ∃ value ∈ cyclic.givenValues "b" 5, cyclic.IsName value ∧ cyclic.text value = "a" := by decide +kernel
  obtain ⟨hresult, hdepth⟩ := trace_ends (isParse _) "a" 5 (t := cyclic)
  rw [hcard] at hdepth
  refine ⟨isParse _, ?_, ?_, (hresult _).2 rfl, hdepth⟩
  · exact hab.imp fun value hv => ⟨mem_givenValues.1 hv.1, hv.2⟩
  · exact hba.imp fun value hv => ⟨mem_givenValues.1 hv.1, hv.2⟩

end Assignments

end CommandTrace.SyntaxTree
