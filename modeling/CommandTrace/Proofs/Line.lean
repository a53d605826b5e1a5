/-
Parts of a line.

A separator ends one part and starts another (`fields_append`), and what has no
separator in it is one part (`fields_of_not_mem`); so the parts of a line are what
it was put together from (`fields_intercalate`). For the last separator,
`splitLast?_append` says where it stands.
-/
import CommandTrace.Text.Line

namespace CommandTrace

section

variable {α : Type} [DecidableEq α] {sep : α}

theorem fields_ne_nil (sep : α) (l : List α) : fields sep l ≠ [] := by
  fun_cases fields sep l <;> simp [*]

theorem fields_of_not_mem {l : List α} (h : sep ∉ l) : fields sep l = [l] := by
  induction l with
  | nil => rfl
  | cons c l ih =>
    rw [fields, ih fun hl => h (List.mem_cons_of_mem c hl)]
    exact if_neg fun hc => h (by simp [hc])

/-- A separator ends one part and starts another. -/
theorem fields_append (l l' : List α) : fields sep (l ++ sep :: l') = fields sep l ++ fields sep l' := by
  induction l with
  | nil =>
    obtain ⟨first, others, hl'⟩ := List.exists_cons_of_ne_nil (fields_ne_nil sep l')
    simp [fields, hl']
  | cons c l ih =>
    obtain ⟨first, others, hl⟩ := List.exists_cons_of_ne_nil (fields_ne_nil sep l)
    rw [List.cons_append, fields, ih, fields, hl]
    by_cases hc : c = sep <;> simp [hc]

theorem fields_intercalate {parts : List (List α)} (hne : parts ≠ []) (h : ∀ part ∈ parts, sep ∉ part) :
    fields sep ([sep].intercalate parts) = parts := by
  induction parts with
  | nil => exact absurd rfl hne
  | cons part parts ih =>
    have hpart := fields_of_not_mem (h part (by simp))
    cases parts with
    | nil => rw [List.intercalate_singleton, hpart]
    | cons next parts =>
      have hrest := ih (List.cons_ne_nil next parts) fun part hmem => h part (by simp [hmem])
      rw [List.intercalate_cons_cons, List.append_assoc, List.singleton_append, fields_append, hpart, hrest,
        List.singleton_append]

theorem mem_of_mem_fields {a : α} {l part : List α} (hpart : part ∈ fields sep l) (ha : a ∈ part) : a ∈ l := by
  induction l generalizing part with
  | nil =>
    rw [fields, List.mem_singleton] at hpart
    rwa [hpart] at ha
  | cons c rest ih =>
    obtain ⟨first, others, hfields⟩ := List.exists_cons_of_ne_nil (fields_ne_nil sep rest)
    have hrest : ∀ part ∈ first :: others, a ∈ part → a ∈ c :: rest := fun part hpart ha =>
      List.mem_cons_of_mem c (ih (hfields ▸ hpart) ha)
    simp only [fields, hfields] at hpart
    split at hpart
    · rcases List.mem_cons.1 hpart with rfl | hpart
      · cases ha
      · exact hrest part hpart ha
    · rcases List.mem_cons.1 hpart with rfl | hpart
      · rcases List.mem_cons.1 ha with rfl | ha
        · exact List.mem_cons_self
        · exact hrest first List.mem_cons_self ha
      · exact hrest part (List.mem_cons_of_mem first hpart) ha

end

theorem splitLast?_of_not_mem {sep : Char} {cs : List Char} (h : sep ∉ cs) : splitLast? sep cs = none := by
  induction cs with
  | nil => rfl
  | cons c cs ih =>
    rw [splitLast?, ih fun hcs => h (List.mem_cons_of_mem c hcs)]
    exact if_neg fun hc => h (by simp [hc])

theorem splitLast?_append {sep : Char} {after : List Char} (h : sep ∉ after) (before : List Char) :
    splitLast? sep (before ++ sep :: after) = some (before, after) := by
  induction before with
  | nil => simp [splitLast?, splitLast?_of_not_mem h]
  | cons c before ih => rw [List.cons_append, splitLast?, ih]

theorem joinWith_append_singleton (sep last : String) {names : List String} (h : names ≠ []) :
    joinWith sep (names ++ [last]) = joinWith sep names ++ sep ++ last := by
  fun_induction joinWith sep names with
  | case1 => exact absurd rfl h
  | case2 name => rfl
  | case3 name next rest ih =>
    rw [List.cons_append, List.cons_append, joinWith, ← List.cons_append, ih (by simp)]
    simp only [String.append_assoc]

theorem mem_joinWith {sep : String} {names : List String} {c : Char} (h : c ∈ (joinWith sep names).toList) :
    c ∈ sep.toList ∨ ∃ name ∈ names, c ∈ name.toList := by
  fun_induction joinWith sep names with
  | case1 => simp at h
  | case2 name => exact .inr ⟨name, by simp, h⟩
  | case3 name next names ih =>
    rw [String.toList_append, String.toList_append, List.mem_append, List.mem_append] at h
    rcases h with (h | h) | h
    · exact .inr ⟨name, by simp, h⟩
    · exact .inl h
    · exact (ih h).imp_right fun ⟨other, hother, hc⟩ => ⟨other, List.mem_cons_of_mem name hother, hc⟩

end CommandTrace
