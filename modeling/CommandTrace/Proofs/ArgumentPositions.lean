/-
Positions of arguments.

A rule says by a number which argument of a call it is for, and the number is
taken among the expressions of the arguments. An argument has no expression if
all its named children are comments; one whose expression is a mere token, such
as `this`, is of that kind, since tokens are not named. Such an argument is left
out, and each one after it counts as one before: `token_moves_arguments`.

`getElem?_argumentExpressions` says at which place the expression of an argument
stands, namely after those of the arguments before it that have one. No
expression stands at two places, so it stands at its own place exactly if none
before is left out: `argument_positions_kept_iff`.
-/
import CommandTrace.Proofs.CallSite
import CommandTrace.Proofs.FaithfulCopy
import Mathlib.Data.List.Nodup

namespace CommandTrace.SyntaxTree

open Logged

variable (t : SyntaxTree)

/-- The arguments of an argument list. -/
def arguments (list : Nat) : List Nat :=
  (t.children list).filter fun c => t.kind c = .argument

/-- An argument has a named child that is no comment. -/
def HasExpression (argument : Nat) : Prop :=
  ∃ c ∈ t.children argument, t.isNamed c = true ∧ t.type c ≠ "comment"

instance (argument : Nat) : Decidable (t.HasExpression argument) :=
  inferInstanceAs (Decidable (∃ c ∈ t.children argument, _))

variable {t}

/-! ## Single arguments -/

theorem argumentExpression_isSome {argument : Nat} :
    (t.argumentExpression argument).isSome = true ↔ t.HasExpression argument := by
  rw [argumentExpression, List.getLast?_isSome, ne_eq, List.filter_eq_nil_iff]
  simp [namedChildren, HasExpression]

theorem mem_children_of_argumentExpression {argument expression : Nat}
    (h : t.argumentExpression argument = some expression) : expression ∈ t.children argument := by
  have hmem := List.mem_of_getLast? h
  exact (List.mem_filter.1 (List.mem_filter.1 hmem).1).1

theorem argumentAt_natCast (expressions : List Nat) (i : Nat) : argumentAt expressions i = .ok expressions[i]? := by
  unfold argumentAt
  split
  · next hle => rw [List.getElem?_eq_none (by omega)]
  · rw [if_pos (by omega), Int.toNat_natCast]

/-! ## The places of expressions -/

theorem argumentExpressions_eq (list : Nat) :
    t.argumentExpressions (some list) = (t.arguments list).filterMap t.argumentExpression := rfl

/-- The expressions are those of the arguments that have one, in their order. -/
theorem forall₂_argumentExpressions (arguments : List Nat) :
    List.Forall₂ (fun expression argument => expression ∈ t.children argument)
      (arguments.filterMap t.argumentExpression) (arguments.filter fun argument => t.HasExpression argument) := by
  induction arguments with
  | nil => exact .nil
  | cons argument arguments ih =>
    cases he : t.argumentExpression argument with
    | none =>
      have hnot : ¬ t.HasExpression argument := by simp [← argumentExpression_isSome, he]
      rw [List.filterMap_cons_none he, List.filter_cons_of_neg (by simpa using hnot)]
      exact ih
    | some expression =>
      have hhas : t.HasExpression argument := by simp [← argumentExpression_isSome, he]
      rw [List.filterMap_cons_some he, List.filter_cons_of_pos (by simpa using hhas)]
      exact .cons (mem_children_of_argumentExpression he) ih

theorem IsParse.nodup_children (ht : t.IsParse) (i : Nat) : (t.children i).Nodup := by
  obtain ⟨path, source, tree, hasError, rfl⟩ := ht
  rw [children]
  cases hget : (tree.number none 0)[i]? with
  | some n =>
    rw [node_ofParseTree hget]
    exact (ParseTree.children_number tree n (List.mem_of_getElem? hget)).imp Nat.ne_of_lt
  | none =>
    have hle : (ofParseTree path source tree hasError).size ≤ i := by
      simpa [size, ofParseTree, Walk.copy_eq] using hget
    rw [node_eq_default hle]
    exact List.nodup_nil

/-- No two arguments have the same expression. -/
theorem IsParse.nodup_argumentExpressions (ht : t.IsParse) (list : Nat) :
    (t.argumentExpressions (some list)).Nodup := by
  refine List.Nodup.filterMap (fun a a' e he he' => ?_) ((ht.nodup_children list).filter _)
  have ha := ht.parent_of_mem_children (mem_children_of_argumentExpression he)
  have ha' := ht.parent_of_mem_children (mem_children_of_argumentExpression he')
  exact Option.some.inj (ha.symm.trans ha')

/-- An expression that is a child of an argument is the expression of it. -/
theorem IsParse.argumentExpression_of_mem (ht : t.IsParse) {list argument expression : Nat}
    (h : expression ∈ t.argumentExpressions (some list)) (hc : expression ∈ t.children argument) :
    t.argumentExpression argument = some expression := by
  obtain ⟨other, -, he⟩ := List.mem_filterMap.1 h
  have hother := ht.parent_of_mem_children (mem_children_of_argumentExpression he)
  rw [ht.parent_of_mem_children hc, Option.some.injEq] at hother
  rw [hother, he]

/-- The expression of an argument stands after those of the arguments before. -/
theorem getElem?_argumentExpressions {list i argument expression : Nat} (hi : (t.arguments list)[i]? = some argument)
    (he : t.argumentExpression argument = some expression) :
    (t.argumentExpressions (some list))[(((t.arguments list).take i).filterMap t.argumentExpression).length]? =
      some expression := by
  obtain ⟨hlt, hget⟩ := List.getElem?_eq_some_iff.1 hi
  have hsplit : t.arguments list = (t.arguments list).take i ++ argument :: (t.arguments list).drop (i + 1) := by
    rw [← hget, List.getElem_cons_drop, List.take_append_drop]
  have hexpressions : t.argumentExpressions (some list) =
      ((t.arguments list).take i).filterMap t.argumentExpression ++
        expression :: ((t.arguments list).drop (i + 1)).filterMap t.argumentExpression := by
    rw [argumentExpressions_eq, ← List.filterMap_cons_some he, ← List.filterMap_append, ← hsplit]
  rw [hexpressions, List.getElem?_append_right (Nat.le_refl _), Nat.sub_self, List.getElem?_cons_zero]

/-- There are as many expressions as arguments exactly if each has one. -/
theorem length_filterMap_argumentExpression {arguments : List Nat} :
    (arguments.filterMap t.argumentExpression).length = arguments.length ↔
      ∀ argument ∈ arguments, t.HasExpression argument := by
  simp only [List.filterMap_length_eq_length, argumentExpression_isSome]

/-- The expression of an argument is at the argument's own place exactly if all
arguments before have one. -/
theorem IsParse.getElem?_iff (ht : t.IsParse) {list i argument expression : Nat}
    (hi : (t.arguments list)[i]? = some argument) (he : t.argumentExpression argument = some expression) :
    (t.argumentExpressions (some list))[i]? = some expression ↔
      ∀ before ∈ (t.arguments list).take i, t.HasExpression before := by
  have hplace := getElem?_argumentExpressions hi he
  have hlt := (List.getElem?_eq_some_iff.1 hi).1
  have hlength : ((t.arguments list).take i).length = i := List.length_take_of_le (Nat.le_of_lt hlt)
  rw [← length_filterMap_argumentExpression, hlength]
  constructor
  · intro h
    -- an expression stands at one place only
    have hbound := (List.getElem?_eq_some_iff.1 hplace).1
    exact (List.getElem?_inj hbound (ht.nodup_argumentExpressions list)).1 (hplace.trans h.symm)
  · intro h
    rw [h] at hplace
    exact hplace

/-- A rule's index selects the argument written at that place exactly if that
argument and all before have an expression. -/
theorem IsParse.selects_iff (ht : t.IsParse) (list i : Nat) :
    (∃ expression argument, argumentAt (t.argumentExpressions (some list)) i = .ok (some expression) ∧
        (t.arguments list)[i]? = some argument ∧ expression ∈ t.children argument) ↔
      i < (t.arguments list).length ∧ ∀ argument ∈ (t.arguments list).take (i + 1), t.HasExpression argument := by
  simp only [argumentAt_natCast, Except.ok.injEq]
  constructor
  · rintro ⟨expression, argument, hexpression, hargument, hc⟩
    have he := ht.argumentExpression_of_mem (List.mem_of_getElem? hexpression) hc
    have hhas : t.HasExpression argument := by simp [← argumentExpression_isSome, he]
    refine ⟨(List.getElem?_eq_some_iff.1 hargument).1, ?_⟩
    rw [List.take_add_one, hargument, List.forall_mem_append]
    exact ⟨(ht.getElem?_iff hargument he).1 hexpression, by simpa using hhas⟩
  · rintro ⟨hlt, hall⟩
    have hargument := List.getElem?_eq_getElem hlt
    rw [List.take_add_one, hargument, List.forall_mem_append] at hall
    obtain ⟨hbefore, hhas⟩ := hall
    have hsome := argumentExpression_isSome.2 (hhas _ (Option.mem_toList.2 rfl))
    obtain ⟨expression, he⟩ := Option.isSome_iff_exists.1 hsome
    exact ⟨expression, _, (ht.getElem?_iff hargument he).2 hbefore, hargument, mem_children_of_argumentExpression he⟩

/-- **When argument positions are kept.** The expressions of an argument list
are one for each argument that has a named child other than a comment, in the
order of these arguments, each a child of its own. So there is one for each
argument, in order, exactly if all arguments have such a child; and the index of
a rule selects the argument written there exactly if that one has, and all that
are written before it. -/
theorem argument_positions_kept_iff (ht : t.IsParse) (list : Nat) :
    List.Forall₂ (fun expression argument => expression ∈ t.children argument) (t.argumentExpressions (some list))
        ((t.arguments list).filter fun argument => t.HasExpression argument) ∧
      (List.Forall₂ (fun expression argument => expression ∈ t.children argument)
          (t.argumentExpressions (some list)) (t.arguments list) ↔
        ∀ argument ∈ t.arguments list, t.HasExpression argument) ∧
      ∀ i : Nat, (∃ expression argument, argumentAt (t.argumentExpressions (some list)) i = .ok (some expression) ∧
          (t.arguments list)[i]? = some argument ∧ expression ∈ t.children argument) ↔
        i < (t.arguments list).length ∧
          ∀ argument ∈ (t.arguments list).take (i + 1), t.HasExpression argument := by
  have hparts := forall₂_argumentExpressions (t := t) (t.arguments list)
  refine ⟨hparts, ⟨fun h => ?_, fun h => ?_⟩, ht.selects_iff list⟩
  · rw [← length_filterMap_argumentExpression, ← argumentExpressions_eq]
    exact h.length_eq
  · rwa [List.filter_eq_self.2 (by simpa using h)] at hparts

namespace Arguments

/-- A call of `F` with the given arguments, over the source `F(this,/**/n:7)`;
the argument list is node 3. -/
def call (arguments : List ParseTree) : SyntaxTree :=
  .ofParseTree (.ofString "F.cs") "F(this,/**/n:7)".toUTF8.data
    (.node ⟨"compilation_unit", none, 0, 15, true⟩
      [.node ⟨"invocation_expression", none, 0, 15, true⟩
        [.node ⟨"identifier", some "function", 0, 1, true⟩ [],
          .node ⟨"argument_list", some "arguments", 1, 15, true⟩ arguments]]) false

/-- The argument `this`, whose only child is a token, or with `named` a node. -/
def self (named : Bool) : ParseTree :=
  .node ⟨"argument", none, 2, 6, true⟩ [.node ⟨"this", none, 2, 6, named⟩ []]

/-- The argument `7` under the name `n`, after a comment. -/
def seven : ParseTree :=
  .node ⟨"argument", none, 7, 14, true⟩
    [.node ⟨"comment", none, 7, 11, true⟩ [], .node ⟨"identifier", some "name", 11, 12, true⟩ [],
      .node ⟨":", none, 12, 13, false⟩ [], .node ⟨"integer_literal", none, 13, 14, true⟩ []]

/-- The rule for the argument of `F` at an index. -/
def rule (index : Nat) : RuleMap := .ofList [{ key := "F", methodName := "F", index }]

theorem isParse (arguments : List ParseTree) : (call arguments).IsParse := ⟨_, _, _, _, rfl⟩

/-- `F(this,/**/n:7)` with `this` as a node. -/
def withNode : SyntaxTree := call [self true, seven]

/-- `F(this,/**/n:7)` with `this` as a token. -/
def withToken : SyntaxTree := call [self false, seven]

/-- Where `this` is a node, both arguments are at their places; of the second,
the name and the comment do not count. -/
theorem node_keeps_positions :
    withNode.IsParse ∧ (∀ argument ∈ withNode.arguments 3, withNode.HasExpression argument) ∧
      List.Forall₂ (fun expression argument => expression ∈ withNode.children argument)
        (withNode.argumentExpressions (some 3)) (withNode.arguments 3) ∧
      ∃ expression argument, argumentAt (withNode.argumentExpressions (some 3)) 1 = .ok (some expression) ∧
        (withNode.arguments 3)[1]? = some argument ∧ expression ∈ withNode.children argument := by
  have hall : ∀ argument ∈ withNode.arguments 3, withNode.HasExpression argument := by decide +kernel
  have hlength : 1 < (withNode.arguments 3).length := by decide +kernel
  obtain ⟨-, hkept, hselects⟩ := argument_positions_kept_iff (isParse [self true, seven]) 3
  refine ⟨isParse _, hall, hkept.2 hall, (hselects 1).2 ⟨hlength, fun argument h => ?_⟩⟩
  exact hall argument (List.mem_of_mem_take h)

/-- Where `this` is a token, the second argument is found by the rule for the
first one, and not by its own. -/
theorem token_moves_arguments :
    ¬ List.Forall₂ (fun expression argument => expression ∈ withToken.children argument)
        (withToken.argumentExpressions (some 3)) (withToken.arguments 3) ∧
      (withToken.scan {} (rule 1)).outcome = .ok [] ∧
      (withToken.scan {} (rule 0)).outcome =
        .ok [{ file := .ofString "F.cs", line := 1, text := .ofString "7" }] := by
  decide +kernel

end Arguments

end CommandTrace.SyntaxTree
