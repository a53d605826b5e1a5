/-
Lists without repeats, in order of first occurrence.
-/

namespace CommandTrace

variable {α : Type} [DecidableEq α]

/-- Puts `a` at the end of the list, unless it is in it. -/
def addNew (l : List α) (a : α) : List α :=
  if a ∈ l then l else l ++ [a]

/-- The list `l` followed by what is new in `l'`, once each. -/
def union (l l' : List α) : List α :=
  l'.foldl addNew l

/-- The elements of a list, each where it occurs first. -/
def distinct (l : List α) : List α :=
  union [] l

/-- The list `l` with `a` taken out. -/
def without (l : List α) (a : α) : List α :=
  l.filter (· ≠ a)

theorem mem_addNew {l : List α} {a b : α} : b ∈ addNew l a ↔ b ∈ l ∨ b = a := by
  unfold addNew
  split
  · constructor
    · exact .inl
    · rintro (h | rfl) <;> assumption
  · simp

theorem mem_union {l l' : List α} {b : α} : b ∈ union l l' ↔ b ∈ l ∨ b ∈ l' := by
  induction l' generalizing l with
  | nil => simp [union]
  | cons a l' ih =>
    rw [union, List.foldl_cons, ← union, ih, mem_addNew, List.mem_cons, or_assoc]

theorem mem_distinct {l : List α} {b : α} : b ∈ distinct l ↔ b ∈ l := by
  simp [distinct, mem_union]

theorem mem_without {l : List α} {a b : α} : b ∈ without l a ↔ b ∈ l ∧ b ≠ a := by
  simp [without]

theorem length_without_lt {l : List α} {a : α} (h : a ∈ l) : (without l a).length < l.length := by
  rw [without, List.length_filter_lt_length_iff_exists]
  exact ⟨a, h, by simp⟩

end CommandTrace
