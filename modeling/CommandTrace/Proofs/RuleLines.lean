/-
Rules read line by line.

What a line comes to is decided by the line alone: it is ignored, rejected or
accepted (`RuleLine.read_of_ignored`, `read_of_error`, `read_of_ok`), and its
number only shows in the error. So the rules of lines are those of each line in
turn (`RuleLine.flatMap_rules_readAll`), and the errors are those of each line with
its number (`rejectedLines_append`). A map of rules takes no notice of lines that
have none.
-/
import CommandTrace.Proofs.Logged
import CommandTrace.Proofs.RuleMap
import CommandTrace.Rule.File

namespace CommandTrace

/-! ## A line -/

/-- The same line, `n` lines further down. -/
def RejectedLine.shift (n : Nat) (r : RejectedLine) : RejectedLine :=
  { r with number := r.number + n }

namespace Rule

theorem ne_nil_of_forTypes {types : List Char} {methodName : String} {index : Int} {space : Option String}
    {origin : Origin} {rules : List Rule} (h : forTypes types methodName index space origin = .ok rules) :
    rules ≠ [] := by
  unfold forTypes at h
  split at h
  · cases h
    exact List.cons_ne_nil _ _
  · split at h
    · cases h
    · next hnames =>
      cases h
      simpa using hnames

theorem ne_nil_of_ofFields {call index : List Char} {space : Option String} {rules : List Rule}
    (h : ofFields call index space = .ok rules) : rules ≠ [] := by
  unfold ofFields at h
  split at h
  · cases h
  · dsimp only at h
    split at h
    · cases h
    split at h
    · cases h
    unfold forQualifier at h
    split at h <;> exact ne_nil_of_forTypes h

/-- A line that is a rule has at least one. -/
theorem ne_nil_of_parse {line : String} {rules : List Rule} (h : parse line = .ok rules) : rules ≠ [] := by
  unfold parse at h
  split at h
  · exact ne_nil_of_ofFields h
  · exact ne_nil_of_ofFields h
  · cases h

end Rule

namespace RuleLine

/-- Nothing but blanks, or a comment. -/
def IsIgnored (line : String) : Prop :=
  strip line = "" ∨ ['/', '/'] <+: (strip line).toList

instance (line : String) : Decidable (IsIgnored line) := inferInstanceAs (Decidable (_ ∨ _))

variable {line : String}

theorem isIgnored_iff :
    IsIgnored line ↔ trim line.toList = [] ∨ ['/', '/'].isPrefixOf (trim line.toList) = true := by
  simp [IsIgnored, strip]

theorem read_of_ignored (h : IsIgnored line) (number : Int) : read number line = .ignored :=
  if_pos (isIgnored_iff.1 h)

theorem read_of_error (h : ¬ IsIgnored line) {error : RuleError} (herror : Rule.parse (strip line) = .error error)
    (number : Int) : read number line = .rejected ⟨number, strip line, error⟩ := by
  rw [strip] at herror
  simp only [read, if_neg (isIgnored_iff.not.1 h), herror, strip]

theorem read_of_ok (h : ¬ IsIgnored line) {rules : List Rule} (hok : Rule.parse (strip line) = .ok rules)
    (number : Int) : read number line = .accepted rules := by
  rw [strip] at hok
  simp only [read, if_neg (isIgnored_iff.not.1 h), hok]

/-- The number of a line only shows in its error. -/
theorem read_add (number : Int) (n : Nat) (line : String) :
    (read (number + n) line).rules = (read number line).rules ∧
      (read (number + n) line).rejection? = (read number line).rejection?.map (RejectedLine.shift n) := by
  by_cases h : IsIgnored line
  · rw [read_of_ignored h, read_of_ignored h]
    exact ⟨rfl, rfl⟩
  · cases hparse : Rule.parse (strip line) with
    | error error =>
      rw [read_of_error h hparse, read_of_error h hparse]
      exact ⟨rfl, rfl⟩
    | ok rules =>
      rw [read_of_ok h hparse, read_of_ok h hparse]
      exact ⟨rfl, rfl⟩

/-! ## Lines one after another -/

theorem readFrom_append (number : Int) (lines lines' : List String) :
    readFrom number (lines ++ lines') = readFrom number lines ++ readFrom (number + lines.length) lines' := by
  induction lines generalizing number with
  | nil => simp [readFrom]
  | cons line lines ih =>
    have hnumber : number + 1 + (lines.length : Int) = number + (line :: lines).length := by
      simp only [List.length_cons]
      omega
    simp only [List.cons_append, readFrom, ih, hnumber]

theorem readFrom_add (number : Int) (n : Nat) (lines : List String) :
    (readFrom (number + n) lines).flatMap rules = (readFrom number lines).flatMap rules ∧
      (readFrom (number + n) lines).filterMap rejection? =
        ((readFrom number lines).filterMap rejection?).map (RejectedLine.shift n) := by
  induction lines generalizing number with
  | nil => exact ⟨rfl, rfl⟩
  | cons line lines ih =>
    obtain ⟨hrules, hrejection⟩ := read_add number n line
    have hnext : number + n + 1 = number + 1 + n := by omega
    obtain ⟨hrest, herrors⟩ := ih (number + 1)
    rw [readFrom, readFrom, hnext]
    refine ⟨by simp only [List.flatMap_cons, hrules, hrest], ?_⟩
    rw [List.filterMap_cons, List.filterMap_cons, hrejection, herrors]
    cases (read number line).rejection? <;> rfl

theorem readAll_append (lines lines' : List String) :
    (readAll (lines ++ lines')).flatMap rules = (readAll lines).flatMap rules ++ (readAll lines').flatMap rules ∧
      (readAll (lines ++ lines')).filterMap rejection? =
        (readAll lines).filterMap rejection? ++
          ((readAll lines').filterMap rejection?).map (RejectedLine.shift lines.length) := by
  obtain ⟨hrules, herrors⟩ := readFrom_add 1 lines.length lines'
  rw [readAll, readFrom_append, List.flatMap_append, List.filterMap_append, hrules, herrors]
  exact ⟨rfl, rfl⟩

theorem flatMap_rules_readAll (lines : List String) :
    (readAll lines).flatMap rules = lines.flatMap fun line => (read 1 line).rules := by
  induction lines with
  | nil => rfl
  | cons line lines ih =>
    rw [← List.singleton_append, (readAll_append [line] lines).1, ih, List.flatMap_append]
    simp [readAll, readFrom]

end RuleLine

theorem RuleMap.ofLines_append (lines lines' : List String) :
    ofLines (lines ++ lines') = (ofLines lines).merge (ofLines lines') := by
  rw [ofLines, (RuleLine.readAll_append lines lines').1, ← merge_ofList, ofLines, ofLines]

theorem rejectedLines_append (lines lines' : List String) :
    rejectedLines (lines ++ lines') =
      rejectedLines lines ++ (rejectedLines lines').map (RejectedLine.shift lines.length) :=
  (RuleLine.readAll_append lines lines').2

namespace RuleLine

/-! ## A line among others -/

/-- The line puts these rules into the map and these errors to the others, each at
its place. -/
def Adds (before : List String) (line : String) (after : List String) (rules : List Rule)
    (errors : List RejectedLine) : Prop :=
  RuleMap.ofLines (before ++ line :: after) =
      ((RuleMap.ofLines before).addAll rules).merge (RuleMap.ofLines after) ∧
    rejectedLines (before ++ line :: after) =
      rejectedLines before ++ errors ++ (rejectedLines after).map (RejectedLine.shift (before.length + 1))

/-- What a line among others is, with what it does there. -/
inductive ComesTo (before : List String) (line : String) (after : List String) : RuleLine → Prop
  | ignored (h : IsIgnored line) (hadds : Adds before line after [] []) : ComesTo before line after .ignored
  | rejected {error : RuleError} (h : ¬ IsIgnored line) (herror : Rule.parse (strip line) = .error error)
      (hadds : Adds before line after [] [⟨before.length + 1, strip line, error⟩]) :
      ComesTo before line after (.rejected ⟨before.length + 1, strip line, error⟩)
  | accepted {rules : List Rule} (h : ¬ IsIgnored line) (hok : Rule.parse (strip line) = .ok rules)
      (hne : rules ≠ []) (hadds : Adds before line after rules []) : ComesTo before line after (.accepted rules)

theorem adds_read (before : List String) (line : String) (after : List String) :
    Adds before line after (read (before.length + 1) line).rules
      (read (before.length + 1) line).rejection?.toList := by
  have hsplit : before ++ line :: after = before ++ [line] ++ after := by simp
  have hnumber : (before.length : Int) + 1 = 1 + before.length := by omega
  obtain ⟨hrules, hrejection⟩ := read_add 1 before.length line
  constructor
  · have hbefore : RuleMap.ofLines (before ++ [line]) =
        (RuleMap.ofLines before).addAll (read (before.length + 1) line).rules := by
      rw [RuleMap.ofLines, (readAll_append before [line]).1, RuleMap.ofList_append, RuleMap.ofLines, hnumber, hrules]
      simp [readAll, readFrom]
    rw [hsplit, RuleMap.ofLines_append, hbefore]
  · have herrors : rejectedLines (before ++ [line]) =
        rejectedLines before ++ (read (before.length + 1) line).rejection?.toList := by
      rw [rejectedLines_append, hnumber, hrejection]
      cases herror : (read 1 line).rejection? <;> simp [rejectedLines, readAll, readFrom, herror]
    rw [hsplit, rejectedLines_append, herrors, List.length_append, List.length_singleton]

theorem comesTo_read (before : List String) (line : String) (after : List String) :
    ComesTo before line after (read (before.length + 1) line) := by
  have hadds := adds_read before line after
  by_cases h : IsIgnored line
  · rw [read_of_ignored h] at hadds ⊢
    exact .ignored h hadds
  · cases hparse : Rule.parse (strip line) with
    | error error =>
      rw [read_of_error h hparse] at hadds ⊢
      exact .rejected h hparse hadds
    | ok rules =>
      rw [read_of_ok h hparse] at hadds ⊢
      exact .accepted h hparse (Rule.ne_nil_of_parse hparse) hadds

theorem ComesTo.eq_read {before after : List String} {outcome : RuleLine} (h : ComesTo before line after outcome) :
    outcome = read (before.length + 1) line := by
  cases h with
  | ignored h => rw [read_of_ignored h]
  | rejected h herror => rw [read_of_error h herror]
  | accepted h hok => rw [read_of_ok h hok]

/-! ## Lines without rules -/

/-- A rule, or several. -/
def IsAccepted (line : String) : Prop :=
  ¬ IsIgnored line ∧ ∃ rules, Rule.parse (strip line) = .ok rules

theorem isAccepted_iff : IsAccepted line ↔ (read 1 line).rules ≠ [] := by
  by_cases h : IsIgnored line
  · simp [IsAccepted, h, read_of_ignored h, rules]
  · cases hparse : Rule.parse (strip line) with
    | error error => simp [IsAccepted, hparse, read_of_error h hparse, rules]
    | ok rules =>
      have hne := Rule.ne_nil_of_parse hparse
      simp [IsAccepted, h, hparse, read_of_ok h hparse, RuleLine.rules, hne]

instance (line : String) : Decidable (IsAccepted line) := decidable_of_iff _ isAccepted_iff.symm

theorem rules_of_not_isAccepted (h : ¬ IsAccepted line) : (read 1 line).rules = [] :=
  not_not.1 (isAccepted_iff.not.1 h)

end RuleLine

theorem RuleMap.ofLines_eq (lines : List String) :
    ofLines lines = ofList (lines.flatMap fun line => (RuleLine.read 1 line).rules) := by
  rw [ofLines, RuleLine.flatMap_rules_readAll]

/-- Only the accepted lines count. -/
theorem RuleMap.ofLines_filter (lines : List String) :
    ofLines (lines.filter RuleLine.IsAccepted) = ofLines lines := by
  rw [ofLines_eq, ofLines_eq]
  congr 1
  induction lines with
  | nil => rfl
  | cons line lines ih =>
    by_cases h : RuleLine.IsAccepted line
    · rw [List.filter_cons_of_pos (by simpa using h), List.flatMap_cons, ih, List.flatMap_cons]
    · rw [List.filter_cons_of_neg (by simpa using h), ih, List.flatMap_cons, RuleLine.rules_of_not_isAccepted h,
        List.nil_append]

/-- Rules are loaded from every file that can be read. -/
theorem Item.outcome_loadRules (root : Item) (path : Path) (encoding : String) :
    (root.loadRules path encoding).outcome =
      (root.ruleLines path encoding).map fun lines => (RuleMap.ofLines lines, rejectedLines lines) := by
  rw [loadRules, Logged.outcome_bind]
  cases root.ruleLines path encoding <;> rfl

namespace RuleLine

/-- **A bad line costs only itself.** Rules are loaded from any lines, in whatever
pieces: the map of lines and more lines is the maps of both merged, and the errors
are those of both, with the numbers that the lines have in the whole. A line is
exactly one of ignored, rejected and accepted; it adds nothing, one error with its
number, or all its rules. So lines that are not accepted may stand anywhere: the
map is that of the accepted ones. -/
theorem loaded_line_by_line (lines lines' : List String) :
    (∀ root path encoding, (Item.loadRules root path encoding).outcome =
      (Item.ruleLines root path encoding).map fun lines => (RuleMap.ofLines lines, rejectedLines lines)) ∧
    RuleMap.ofLines (lines ++ lines') = (RuleMap.ofLines lines).merge (RuleMap.ofLines lines') ∧
    rejectedLines (lines ++ lines') =
      rejectedLines lines ++ (rejectedLines lines').map (RejectedLine.shift lines.length) ∧
    (∀ line, ∃! outcome, ComesTo lines line lines' outcome) ∧
    RuleMap.ofLines (lines.filter IsAccepted) = RuleMap.ofLines lines ∧
    ∀ more, (∀ line ∈ more, ¬ IsAccepted line) →
      RuleMap.ofLines (lines ++ more ++ lines') = RuleMap.ofLines (lines ++ lines') := by
  refine ⟨Item.outcome_loadRules, RuleMap.ofLines_append lines lines', rejectedLines_append lines lines', ?each,
    RuleMap.ofLines_filter lines, ?more⟩
  case each =>
    intro line
    exact ⟨read (lines.length + 1) line, comesTo_read lines line lines', fun outcome h => h.eq_read⟩
  case more =>
    intro more hmore
    have hnone : more.filter IsAccepted = [] := by simpa [List.filter_eq_nil_iff] using hmore
    rw [← RuleMap.ofLines_filter, List.filter_append, List.filter_append, hnone, List.append_nil, ← List.filter_append,
      RuleMap.ofLines_filter]

namespace Samples

/-- A comment and a line of blanks. -/
def skipped : List String := ["\u3000// one", " \t\u3000"]

/-- A line that is no rule, and one with an index that is no number. -/
def malformed : List String := ["A.Run", " A.Run,x "]

/-- Lines of every kind between and inside lists of rules. -/
theorem noise_adds_nothing :
    (∀ line ∈ skipped, IsIgnored line) ∧ (∀ line ∈ malformed, ¬ IsIgnored line ∧ ¬ IsAccepted line) ∧
    RuleMap.ofLines (["A|B.Run,0"] ++ (skipped ++ malformed) ++ ["", "B.Run, 0 , N"]) =
      RuleMap.ofLines ["A|B.Run,0", "", "B.Run, 0 , N"] ∧
    rejectedLines (["A|B.Run,0"] ++ (skipped ++ malformed)) =
      [⟨4, "A.Run", .fieldCount 1⟩, ⟨5, "A.Run,x", .noInteger "x"⟩] ∧
    ∃! outcome, ComesTo ["A|B.Run,0"] " A.Run,x " ["", "B.Run, 0 , N"] outcome := by
  obtain ⟨-, -, -, heach, -, hmore⟩ := loaded_line_by_line ["A|B.Run,0"] ["", "B.Run, 0 , N"]
  obtain ⟨-, -, hrejected, -, -, -⟩ := loaded_line_by_line ["A|B.Run,0"] (skipped ++ malformed)
  have hskipped : ∀ line ∈ skipped, IsIgnored line := by decide +kernel
  have hmalformed : ∀ line ∈ malformed, ¬ IsIgnored line ∧ ¬ IsAccepted line := by decide +kernel
  have hnoise : ∀ line ∈ skipped ++ malformed, ¬ IsAccepted line := by
    intro line hline haccepted
    rcases List.mem_append.1 hline with hline | hline
    · exact haccepted.1 (hskipped line hline)
    · exact (hmalformed line hline).2 haccepted
  refine ⟨hskipped, hmalformed, hmore _ hnoise, hrejected.trans ?_, heach " A.Run,x "⟩
  decide +kernel

end Samples

end RuleLine

end CommandTrace
