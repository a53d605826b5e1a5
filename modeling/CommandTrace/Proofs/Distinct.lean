/-
Laws of lists that are built without repeats.

`union` only looks at which elements its second list adds, and in which
order: `union_distinct`. So a list may be cleared of repeats before or after
it is put to another one. What `distinct` leaves is each element at its first
occurrence (`distinct_eq_eraseDups`), and what `union` puts to a list is the
rest of the other one (`union_eq_append`).
-/
import CommandTrace.Distinct
import Mathlib.Data.List.Induction

namespace CommandTrace

variable {α : Type} [DecidableEq α]

theorem addNew_of_mem {l : List α} {a : α} (h : a ∈ l) : addNew l a = l := if_pos h

theorem addNew_of_not_mem {l : List α} {a : α} (h : a ∉ l) : addNew l a = l ++ [a] := if_neg h

theorem nodup_addNew {l : List α} {a : α} (h : l.Nodup) : (addNew l a).Nodup := by
  by_cases ha : a ∈ l
  · rwa [addNew_of_mem ha]
  · rw [addNew_of_not_mem ha, List.nodup_append]
    refine ⟨h, by simp, fun b hb c hc => ?_⟩
    rw [List.mem_singleton.1 hc]
    exact fun he => ha (he ▸ hb)

@[simp]
theorem union_nil (l : List α) : union l [] = l := rfl

theorem union_cons (l l' : List α) (a : α) : union l (a :: l') = union (addNew l a) l' := rfl

theorem union_append (l l₁ l₂ : List α) : union l (l₁ ++ l₂) = union (union l l₁) l₂ :=
  List.foldl_append

theorem union_of_subset {l l' : List α} (h : ∀ a ∈ l', a ∈ l) : union l l' = l := by
  induction l' with
  | nil => rfl
  | cons a l' ih =>
    rw [union_cons, addNew_of_mem (h a (by simp))]
    exact ih fun b hb => h b (by simp [hb])

theorem nodup_union {l l' : List α} (h : l.Nodup) : (union l l').Nodup := by
  induction l' generalizing l with
  | nil => exact h
  | cons a l' ih => exact ih (nodup_addNew h)

theorem nodup_distinct (l : List α) : (distinct l).Nodup := nodup_union List.nodup_nil

theorem distinct_append (l l' : List α) : distinct (l ++ l') = union (distinct l) l' := union_append _ _ _

theorem distinct_concat (l : List α) (a : α) : distinct (l ++ [a]) = addNew (distinct l) a :=
  distinct_append l [a]

theorem union_distinct (l l' : List α) : union l (distinct l') = union l l' := by
  -- On the end of `l'`, since that is where `distinct` adds.
  induction l' using List.reverseRecOn with
  | nil => rfl
  | append_singleton l' a ih =>
    rw [distinct_concat, union_append, ← ih]
    by_cases ha : a ∈ distinct l'
    · rw [addNew_of_mem ha, union_cons, union_nil, addNew_of_mem (mem_union.2 (.inr ha))]
    · rw [addNew_of_not_mem ha, union_append]

theorem distinct_distinct (l : List α) : distinct (distinct l) = distinct l := union_distinct [] l

theorem distinct_eq_eraseDups (l : List α) : distinct l = l.eraseDups := by
  induction l using List.reverseRecOn with
  | nil => rfl
  | append_singleton l a ih =>
    rw [distinct_concat, List.eraseDups_append, ih]
    by_cases ha : a ∈ l
    · have hold : [a].removeAll l = [] := by simp [List.removeAll, ha]
      rw [addNew_of_mem (List.mem_eraseDups.2 ha), hold, List.eraseDups_nil, List.append_nil]
    · have hnew : [a].removeAll l = [a] := by simp [List.removeAll, ha]
      rw [addNew_of_not_mem fun h => ha (List.mem_eraseDups.1 h), hnew]
      rfl

theorem union_eq_append (l l' : List α) : union l l' = l ++ (distinct l').filter (· ∉ l) := by
  induction l' using List.reverseRecOn with
  | nil => simp [distinct]
  | append_singleton l' a ih =>
    rw [union_append, union_cons, union_nil, distinct_concat, ih]
    by_cases hl : a ∈ l
    · -- an element of `l` is new on neither side, whether or not `l'` had it before
      rw [addNew_of_mem (List.mem_append_left _ hl)]
      by_cases hl' : a ∈ distinct l'
      · rw [addNew_of_mem hl']
      · rw [addNew_of_not_mem hl', List.filter_append]
        simp [hl]
    · by_cases hl' : a ∈ distinct l'
      · rw [addNew_of_mem hl', addNew_of_mem (by simp [hl, hl'])]
      · rw [addNew_of_not_mem hl', addNew_of_not_mem (by simp [hl, hl']), List.filter_append, ← List.append_assoc]
        simp [hl]

/-- Lists with the same elements are the same without repeats, up to order. -/
theorem distinct_perm {l l' : List α} (h : ∀ a, a ∈ l ↔ a ∈ l') : (distinct l).Perm (distinct l') := by
  rw [List.perm_ext_iff_of_nodup (nodup_distinct l) (nodup_distinct l')]
  intro a
  rw [mem_distinct, mem_distinct, h]

end CommandTrace
