/-
Taking the blanks off the ends of a line.

What is left has no blank at either end (`isTrimmed_trim`), and a line without one
stays as it is (`trim_eq_self_iff`), also when it is put together from such lines
(`IsTrimmed.append`). Blanks that are put before or after a line are taken off
again (`trim_blank_append`, `trim_append_blank`).
-/
import CommandTrace.Text.Blank

namespace CommandTrace

/-- Neither end is a blank. -/
def IsTrimmed (cs : List Char) : Prop :=
  cs.head?.any isBlank = false ∧ cs.getLast?.any isBlank = false

instance (cs : List Char) : Decidable (IsTrimmed cs) := inferInstanceAs (Decidable (_ ∧ _))

theorem head?_dropWhile_isBlank (cs : List Char) : (cs.dropWhile isBlank).head?.any isBlank = false := by
  have h := List.head?_dropWhile_not isBlank cs
  cases hhead : (cs.dropWhile isBlank).head? with
  | none => rfl
  | some c =>
    rw [hhead] at h
    exact h

theorem dropWhile_isBlank_eq_self {cs : List Char} (h : cs.head?.any isBlank = false) : cs.dropWhile isBlank = cs := by
  cases cs with
  | nil => rfl
  | cons c cs =>
    have hc : isBlank c = false := h
    simp [hc]

theorem isTrimmed_trim (cs : List Char) : IsTrimmed (trim cs) := by
  constructor
  · -- what is left is the start of what is left after the first step
    have hstart : trim cs <+: trimLeft cs := by
      rw [← List.reverse_suffix, trim, trimRight, List.reverse_reverse]
      exact List.dropWhile_suffix isBlank
    obtain ⟨rest, hrest⟩ := hstart
    cases htrim : trim cs with
    | nil => rfl
    | cons c others =>
      have hhead := head?_dropWhile_isBlank cs
      rw [htrim, trimLeft] at hrest
      rwa [← hrest] at hhead
  · rw [trim, trimRight, List.getLast?_reverse]
    exact head?_dropWhile_isBlank _

theorem trim_eq_self_iff {cs : List Char} : trim cs = cs ↔ IsTrimmed cs := by
  refine ⟨fun h => h ▸ isTrimmed_trim cs, fun ⟨hfirst, hlast⟩ => ?_⟩
  rw [← List.head?_reverse] at hlast
  rw [trim, trimLeft, dropWhile_isBlank_eq_self hfirst, trimRight, dropWhile_isBlank_eq_self hlast,
    List.reverse_reverse]

theorem isTrimmed_of_forall {cs : List Char} (h : ∀ c ∈ cs, isBlank c = false) : IsTrimmed cs := by
  constructor
  · cases hhead : cs.head? with
    | none => rfl
    | some c => exact h c (List.mem_of_mem_head? hhead)
  · cases hlast : cs.getLast? with
    | none => rfl
    | some c => exact h c (List.mem_of_mem_getLast? hlast)

/-- What stands between the two ends does not matter. -/
theorem IsTrimmed.append {cs ds : List Char} (hcs : IsTrimmed cs) (hds : IsTrimmed ds) (hcs' : cs ≠ []) (hds' : ds ≠ [])
    (between : List Char) : IsTrimmed (cs ++ between ++ ds) := by
  obtain ⟨hfirst, -⟩ := hcs
  obtain ⟨-, hlast⟩ := hds
  constructor
  · rw [List.head?_eq_some_head hcs'] at hfirst
    rwa [List.append_assoc, List.head?_append, List.head?_eq_some_head hcs', Option.some_or]
  · rw [List.getLast?_eq_some_getLast hds'] at hlast
    rwa [List.getLast?_append, List.getLast?_eq_some_getLast hds', Option.some_or]

variable {blanks : List Char}

theorem trim_blank_append (h : ∀ c ∈ blanks, isBlank c = true) (cs : List Char) : trim (blanks ++ cs) = trim cs := by
  rw [trim, trimLeft, List.dropWhile_append_of_pos h, trim, trimLeft]

theorem trim_append_blank (h : ∀ c ∈ blanks, isBlank c = true) (cs : List Char) : trim (cs ++ blanks) = trim cs := by
  have hright : ∀ cs, trimRight (cs ++ blanks) = trimRight cs := by
    intro cs
    rw [trimRight, List.reverse_append, List.dropWhile_append_of_pos fun c hc => h c (List.mem_reverse.1 hc), trimRight]
  rw [trim, trimLeft, List.dropWhile_append]
  split
  case isTrue hblank =>
    have hnone : blanks.dropWhile isBlank = [] := by
      rw [← List.append_nil blanks, List.dropWhile_append_of_pos h, List.dropWhile_nil]
    rw [hnone, trim, trimLeft, List.isEmpty_iff.1 hblank]
  case isFalse => rw [hright, trim, trimLeft]

end CommandTrace
