/-
Patterns that are for names.

What a name has to be is said once more without the table that `fits` fills
(`Matches`, `fits_iff`). A pattern without wildcards matches itself only
(`matches_plain_iff`), so it is for the same names whether it is compared or
matched, and the steps of a pattern that is one component are `**` and the
pattern (`parse_of_isNamePattern`).
-/
import CommandTrace.Glob
import CommandTrace.Proofs.Line

namespace CommandTrace

namespace Glob

/-- A `*` stands for any characters, and every other element for one that it
accepts. -/
inductive Matches : List Element → List Char → Prop
  | nil : Matches [] []
  | one {e : Element} {c : Char} {es : List Element} {cs : List Char} (hc : e.accepts c = true)
    (h : Matches es cs) : Matches (e :: es) (c :: cs)
  | any {es : List Element} {cs : List Char} (skipped : List Char) (h : Matches es cs) :
    Matches (.anyChars :: es) (skipped ++ cs)

theorem ne_anyChars_of_accepts {e : Element} {c : Char} (h : e.accepts c = true) : e ≠ .anyChars := by
  rintro rfl
  simp [Element.accepts] at h

theorem fits_anyChars_append {es : List Element} {cs : List Char} (h : fits es cs = true) (skipped : List Char) :
    fits (.anyChars :: es) (skipped ++ cs) = true := by
  induction skipped with
  | nil => cases cs <;> simp [h]
  | cons c skipped ih => simp [ih]

theorem fits_of_matches {es : List Element} {cs : List Char} (h : Matches es cs) : fits es cs = true := by
  induction h with
  | nil => rfl
  | one hc _ ih => simp [fits_cons_cons (ne_anyChars_of_accepts hc), hc, ih]
  | any skipped _ ih => exact fits_anyChars_append ih skipped

theorem matches_of_fits {es : List Element} {cs : List Char} (h : fits es cs = true) : Matches es cs := by
  induction es generalizing cs with
  | nil =>
    rw [fits_nil, List.isEmpty_iff] at h
    exact h ▸ .nil
  | cons e es ih =>
    by_cases he : e = .anyChars
    · subst he
      induction cs with
      | nil => exact .any [] (ih (by simpa using h))
      | cons c cs ihcs =>
        rw [fits_anyChars_cons, Bool.or_eq_true] at h
        rcases h with h | h
        · exact .any [] (ih h)
        · -- The star takes `c` and what it takes of the rest.
          cases ihcs h with
          | one hc _ => exact absurd rfl (ne_anyChars_of_accepts hc)
          | any skipped hrest => exact .any (c :: skipped) hrest
    · cases cs with
      | nil => simp [fits_cons_nil he] at h
      | cons c cs =>
        rw [fits_cons_cons he, Bool.and_eq_true] at h
        exact .one h.1 (ih h.2)

theorem fits_iff {es : List Element} {cs : List Char} : fits es cs = true ↔ Matches es cs :=
  ⟨matches_of_fits, fits_of_matches⟩

/-! ## Patterns of one component -/

/-- No character of the pattern is a wildcard. -/
def isPlain (pattern : String) : Bool :=
  !pattern.toList.any fun c => c = '*' || c = '?' || c = '['

/-- A pattern for the name of a file: one component, and not one that leads to
other folders. -/
structure IsNamePattern (pattern : String) : Prop where
  ne_empty : pattern ≠ ""
  no_separator : '/' ∉ pattern.toList
  no_folders : ¬['*', '*'] <:+: pattern.toList
  ne_here : pattern ≠ "."
  ne_above : pattern ≠ ".."

theorem elements_of_no_wildcard {cs : List Char} (h : ∀ c ∈ cs, c ≠ '*' ∧ c ≠ '?' ∧ c ≠ '[') :
    elements cs = cs.map .char := by
  induction cs with
  | nil => simp [elements]
  | cons c cs ih =>
    obtain ⟨hstar, hone, hset⟩ := h c (by simp)
    rw [elements]
    · rw [ih fun d hd => h d (by simp [hd]), List.map_cons]
    · exact hstar
    · exact hone
    · exact hset

theorem matches_map_char_iff {cs name : List Char} : Matches (cs.map .char) name ↔ name = cs := by
  induction cs generalizing name with
  | nil =>
    constructor
    · rintro ⟨⟩
      rfl
    · rintro rfl
      exact .nil
  | cons c cs ih =>
    constructor
    · rintro (_ | ⟨hc, h⟩)
      obtain rfl := of_decide_eq_true hc
      rw [ih.1 h]
    · rintro rfl
      exact .one (by simp [Element.accepts]) (ih.2 rfl)

theorem matches_plain_iff {pattern name : String} (h : isPlain pattern = true) :
    Matches (elements pattern.toList) name.toList ↔ name = pattern := by
  have hplain : ∀ c ∈ pattern.toList, c ≠ '*' ∧ c ≠ '?' ∧ c ≠ '[' := by
    simpa [isPlain, not_or, and_assoc] using h
  rw [elements_of_no_wildcard hplain, matches_map_char_iff, String.toList_inj]

theorem infix_of_hasFoldersMark {cs : List Char} (h : hasFoldersMark cs = true) : ['*', '*'] <:+: cs := by
  fun_induction hasFoldersMark cs with
  | case1 rest => exact ⟨[], rest, rfl⟩
  | case2 c rest _ ih => exact (ih h).trans (List.suffix_cons c rest).isInfix
  | case3 => simp at h

theorem components_of_isNamePattern {pattern : String} (h : IsNamePattern pattern) :
    Path.components pattern = [pattern] := by
  simp [Path.components, fields_of_not_mem h.no_separator, h.ne_empty, h.ne_here]

theorem anchorOf_of_not_mem {cs : List Char} (h : '/' ∉ cs) : Path.anchorOf cs = .here := by
  unfold Path.anchorOf
  split <;> simp_all

/-- The step that a pattern of one component makes in a folder. -/
def nameStep (pattern : String) : Step :=
  if isPlain pattern then .named pattern else .fitting (elements pattern.toList)

theorem step_of_isNamePattern {pattern : String} (h : IsNamePattern pattern) :
    step pattern = .ok (nameStep pattern) := by
  have hmark : hasFoldersMark pattern.toList = false :=
    Bool.eq_false_iff.2 fun hmark => h.no_folders (infix_of_hasFoldersMark hmark)
  have hfolders : pattern ≠ "**" := by
    rintro rfl
    exact h.no_folders List.infix_rfl
  simp only [step, if_neg hfolders, hmark, nameStep, isPlain]
  by_cases hwild : (pattern.toList.any fun c => c = '*' || c = '?' || c = '[') = true <;> simp only [hwild] <;> rfl

theorem parse_of_isNamePattern {pattern : String} (h : IsNamePattern pattern) :
    parse pattern = .ok [.folders, nameStep pattern] := by
  have hrelative : (Path.ofString pattern).isAbsolute = false := by
    simp [Path.ofString, Path.isAbsolute, anchorOf_of_not_mem h.no_separator]
  have hending : pattern.toList.getLast? ≠ some '/' := fun hlast =>
    h.no_separator (List.mem_of_getLast? hlast)
  rw [parse, hrelative, components_of_isNamePattern h]
  simp only [Bool.false_eq_true, if_false, List.mapM_cons, List.mapM_nil, step_of_isNamePattern h, if_neg hending]
  rfl

end Glob

end CommandTrace
