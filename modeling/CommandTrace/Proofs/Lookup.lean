/-
The look-up pass, record by record.

The pass goes through the files once, fills in what each of them defines and
stops when no open record is left. `declarations_eq_lookup` says that each
record ends up as if it had been looked up on its own: an open record gets the
value of the first readable file that defines its text (`valueOf`), and the
value a file gives to a name is the literal of the first declarator that
defines it (`SyntaxTree.constantOf`). `tableValue_constants` ties the table of a
file to the latter; `LooksUp` is what the loop over the files does, with one
lemma for each way a file can be passed.
-/
import CommandTrace.Analysis.Pass
import CommandTrace.Proofs.Logged

namespace CommandTrace

open Logged

namespace SyntaxTree

variable {t : SyntaxTree}

/-! ## The constants of a file -/

/-- The literal with which a declarator defines a qualified name. Neither the
declarator's own name nor the literal may be empty. -/
def definition? (t : SyntaxTree) (text : Text) (i : Nat) : Option Text :=
  match t.declaratorName i, t.declaratorValue i with
  | some name, some value =>
    if name ≠ "" ∧ t.kind value = .literal ∧ Text.ofString (t.qualifiedName name i) = text then
      (t.literalValue value).toOption.filter (· ≠ [])
    else none
  | _, _ => none

/-- The value a file gives to a qualified name: that of the first declarator in
document order that defines it. -/
def constantOf (t : SyntaxTree) (text : Text) : Option Text :=
  (t.ofKind .declarator root).findSome? (t.definition? text)

/-- The entry of a declarator, if it is for the name, is what defines it. -/
theorem definition?_of_constant? {i : Nat} {entry : Option (String × Text)} (h : t.constant? i = .ok entry)
    (text : Text) :
    t.definition? text i = entry.bind fun e => if Text.ofString e.1 = text then some e.2 else none := by
  unfold constant? at h
  unfold definition?
  cases hvalue : t.declaratorValue i with
  | none =>
    rw [hvalue] at h
    cases h
    cases t.declaratorName i <;> rfl
  | some value =>
    by_cases hl : t.kind value = .literal
    · rw [hvalue, Option.filter_some_pos (by simpa using hl)] at h
      cases hliteral : t.literalValue value with
      | error fault => simp [hliteral, bind, Except.bind] at h
      | ok literal =>
        simp only [hliteral, bind, Except.bind, pure, Except.pure, Except.ok.injEq] at h
        subst h
        cases hname : t.declaratorName i with
        | none => rfl
        | some name =>
          by_cases hempty : name = ""
          · simp [hempty]
          · by_cases hne : literal = [] <;> by_cases htext : Text.ofString (t.qualifiedName name i) = text <;>
              simp [hempty, hl, hne, htext, hliteral, Except.toOption]
    · rw [hvalue, Option.filter_some_neg (by simpa using hl)] at h
      cases h
      cases t.declaratorName i <;> simp [hl]

/-- The value a table gives to a qualified name. -/
def tableValue (table : List (String × Text)) (text : Text) : Option Text :=
  (table.find? fun entry => decide (Text.ofString entry.1 = text)).map Prod.snd

/-- A new entry counts only where the table has none yet. -/
theorem tableValue_add (table : List (String × Text)) (name : String) (value text : Text) :
    tableValue (if table.any fun entry => entry.1 = name then table else table ++ [(name, value)]) text =
      (tableValue table text).or (if Text.ofString name = text then some value else none) := by
  split
  · next hany =>
    by_cases htext : Text.ofString name = text
    · obtain ⟨entry, hentry, hname⟩ := List.any_eq_true.1 hany
      have hsome : (tableValue table text).isSome := by
        rw [tableValue, Option.isSome_map, List.find?_isSome]
        exact ⟨entry, hentry, by simpa [of_decide_eq_true hname] using htext⟩
      rw [Option.or_of_isSome hsome]
    · rw [if_neg htext, Option.or_none]
  · rw [tableValue, List.find?_append, Option.map_or, ← tableValue]
    by_cases htext : Text.ofString name = text <;> simp [htext]

theorem tableValue_constantsFrom {table result : List (String × Text)} {declarators : List Nat}
    (h : t.constantsFrom table declarators = .ok result) (text : Text) :
    tableValue result text = (tableValue table text).or (declarators.findSome? (t.definition? text)) := by
  induction declarators generalizing table with
  | nil =>
    cases h
    simp
  | cons i rest ih =>
    rw [constantsFrom] at h
    cases hentry : t.constant? i with
    | error fault => simp [hentry, bind, Except.bind] at h
    | ok entry =>
      have hdef := definition?_of_constant? hentry text
      simp only [hentry, bind, Except.bind] at h
      cases entry with
      | none => rw [ih h, List.findSome?_cons, hdef, Option.bind_none]
      | some entry =>
        obtain ⟨name, value⟩ := entry
        rw [ih h, tableValue_add, Option.or_assoc, List.findSome?_cons, hdef, Option.bind_some]
        by_cases htext : Text.ofString name = text <;> simp [htext]

/-- **The table of a file** gives each name the literal of the first declarator
that defines it. -/
theorem tableValue_constants {table : List (String × Text)} (h : t.constants = .ok table) (text : Text) :
    tableValue table text = t.constantOf text := by
  rw [tableValue_constantsFrom h text]
  rfl

end SyntaxTree

namespace Pass

variable {load : Loader}

/-! ## Looking up one record -/

/-- The value of a qualified name: that of the first readable file that defines
it. -/
def valueOf (load : Loader) (files : List Path) (text : Text) : Option Text :=
  files.findSome? fun path => (load path).outcome.toOption.bind fun t => t.constantOf text

/-- The value for a record: only one that is variable and not pending is looked
up. -/
def valueFor (load : Loader) (files : List Path) (r : Record) : Option Text :=
  if r.isVariable ∧ ¬ r.isPending then valueOf load files r.text else none

/-- The record with its value, where there is one. All other fields are
kept. -/
def lookedUp (load : Loader) (files : List Path) (r : Record) : Record :=
  match valueFor load files r with
  | some value => { r with text := value, isVariable := false }
  | none => r

theorem isOpen_iff {r : Record} : r.isOpen = true ↔ r.isVariable ∧ ¬ r.isPending := by
  simp [Record.isOpen]

theorem isOpen_of_valueFor {files : List Path} {r : Record} {value : Text}
    (h : valueFor load files r = some value) : r.isOpen = true := by
  unfold valueFor at h
  split at h
  · next hopen => exact isOpen_iff.2 hopen
  · cases h

theorem valueFor_of_not_isOpen {files : List Path} {r : Record} (h : ¬ r.isOpen = true) :
    valueFor load files r = none :=
  if_neg (mt isOpen_iff.2 h)

theorem lookedUp_of_none {files : List Path} {r : Record} (h : valueFor load files r = none) :
    lookedUp load files r = r := by
  rw [lookedUp, h]

theorem lookedUp_of_some {files : List Path} {r : Record} {value : Text}
    (h : valueFor load files r = some value) : lookedUp load files r = r.resolved value := by
  rw [lookedUp, h]
  rfl

theorem not_isOpen_resolved (r : Record) (value : Text) : ¬ (r.resolved value).isOpen = true := by
  simp [Record.isOpen, Record.resolved]

/-- A record is changed by a look-up exactly if it has a value. -/
theorem lookedUp_ne_iff {files : List Path} {r : Record} :
    lookedUp load files r ≠ r ↔ (valueFor load files r).isSome = true := by
  cases h : valueFor load files r with
  | none => simp [lookedUp_of_none h]
  | some value =>
    have hne : lookedUp load files r ≠ r := by
      intro heq
      refine not_isOpen_resolved r value ?_
      rw [← lookedUp_of_some h, heq]
      exact isOpen_of_valueFor h
    simpa using hne

/-! ## One file -/

variable {path : Path} (rest : List Path)

/-- The file cannot be read, or its constants can be listed. -/
def Usable (load : Loader) (path : Path) : Prop :=
  (∃ error, (load path).outcome = .error (.file error)) ∨
    ∃ t table, (load path).outcome = .ok t ∧ t.constants = .ok table

theorem usable_iff : Usable load path ↔
    (match (load path).outcome with
      | .error (.file _) => true
      | .error _ => false
      | .ok t => t.constants.toOption.isSome) = true := by
  unfold Usable
  cases (load path).outcome with
  | error fault => cases fault <;> simp
  | ok t => cases h : t.constants <;> simp [h, Except.toOption]

instance : Decidable (Usable load path) := decidable_of_iff _ usable_iff.symm

theorem valueFor_cons_of_error {fault : Fault} (h : (load path).outcome = .error fault) (r : Record) :
    valueFor load (path :: rest) r = valueFor load rest r := by
  simp [valueFor, valueOf, h, Except.toOption]

theorem valueFor_cons_of_ok {t : SyntaxTree} {table : List (String × Text)} (h : (load path).outcome = .ok t)
    (htable : t.constants = .ok table) (r : Record) :
    valueFor load (path :: rest) r = (lookup? table r).or (valueFor load rest r) := by
  have hlookup : lookup? table r = if r.isOpen then t.constantOf r.text else none := by
    rw [← SyntaxTree.tableValue_constants htable]
    rfl
  by_cases hopen : r.isOpen = true
  · rw [hlookup, if_pos hopen, valueFor, valueFor, if_pos (isOpen_iff.1 hopen), if_pos (isOpen_iff.1 hopen),
      valueOf, List.findSome?_cons, h]
    cases hvalue : t.constantOf r.text <;> simp [Except.toOption, hvalue, valueOf]
  · rw [hlookup, if_neg hopen, valueFor_of_not_isOpen hopen, valueFor_of_not_isOpen hopen, Option.or_none]

theorem lookedUp_cons_of_error {fault : Fault} (h : (load path).outcome = .error fault) (r : Record) :
    lookedUp load (path :: rest) r = lookedUp load rest r := by
  rw [lookedUp, lookedUp, valueFor_cons_of_error rest h]

/-- A record after one file has been looked through. -/
def filled (table : List (String × Text)) (r : Record) : Record :=
  match lookup? table r with
  | some value => r.resolved value
  | none => r

theorem fillIn_eq (table : List (String × Text)) (records : List Record) :
    fillIn table records = records.map (filled table) := rfl

theorem filled_of_none {table : List (String × Text)} {r : Record} (h : lookup? table r = none) :
    filled table r = r := by
  rw [filled, h]

theorem filled_of_some {table : List (String × Text)} {r : Record} {value : Text}
    (h : lookup? table r = some value) : filled table r = r.resolved value := by
  rw [filled, h]

section

variable {t : SyntaxTree} {table : List (String × Text)} (h : (load path).outcome = .ok t)
  (htable : t.constants = .ok table)
include h htable

/-- Looking a record up in one file and then in the rest is looking it up in
all of them: once it has a value it is not looked up again. -/
theorem lookedUp_filled (r : Record) :
    lookedUp load rest (filled table r) = lookedUp load (path :: rest) r := by
  have hcons := valueFor_cons_of_ok rest h htable r
  cases hlookup : lookup? table r with
  | none =>
    rw [hlookup, Option.none_or] at hcons
    rw [filled_of_none hlookup, lookedUp, lookedUp, hcons]
  | some value =>
    rw [hlookup, Option.some_or] at hcons
    rw [filled_of_some hlookup, lookedUp_of_some hcons]
    exact lookedUp_of_none (valueFor_of_not_isOpen (not_isOpen_resolved r value))

theorem map_lookedUp_fillIn (records : List Record) :
    (fillIn table records).map (lookedUp load rest) = records.map (lookedUp load (path :: rest)) := by
  rw [fillIn_eq, List.map_map]
  exact List.map_congr_left fun r _ => lookedUp_filled rest h htable r

/-- The records filled in by one file and those filled in by the rest are
counted once each. -/
theorem countP_filled (records : List Record) :
    records.countP (fun r => (lookup? table r).isSome) +
        (records.map (filled table)).countP (fun r => (valueFor load rest r).isSome) =
      records.countP fun r => (valueFor load (path :: rest) r).isSome := by
  induction records with
  | nil => rfl
  | cons r records ih =>
    simp only [List.map_cons, List.countP_cons]
    have hcons := valueFor_cons_of_ok rest h htable r
    cases hlookup : lookup? table r with
    | none =>
      rw [hlookup, Option.none_or] at hcons
      rw [filled_of_none hlookup, hcons, ← ih]
      simp only [Option.isSome_none, Bool.false_eq_true, if_false]
      omega
    | some value =>
      rw [hlookup, Option.some_or] at hcons
      rw [filled_of_some hlookup, valueFor_of_not_isOpen (not_isOpen_resolved r value), hcons, ← ih]
      simp only [Option.isSome_none, Option.isSome_some, Bool.false_eq_true, if_false, if_true]
      omega

end

theorem map_lookedUp_of_none {files : List Path} {records : List Record}
    (h : ∀ r ∈ records, valueFor load files r = none) : records.map (lookedUp load files) = records := by
  calc records.map (lookedUp load files)
    _ = records.map id := List.map_congr_left fun r hr => lookedUp_of_none (h r hr)
    _ = records := List.map_id records

theorem countP_of_none {files : List Path} {records : List Record}
    (h : ∀ r ∈ records, valueFor load files r = none) :
    records.countP (fun r => (valueFor load files r).isSome) = 0 :=
  List.countP_eq_zero.2 fun r hr => by simp [h r hr]

/-! ## All files -/

section

variable {records : List Record} (hopen : records.any Record.isOpen = true) (stats : PassStats)
include hopen

theorem outcome_lookupFrom_of_unreadable {error : FileError} (h : (load path).outcome = .error (.file error)) :
    (lookupFrom load records stats (path :: rest)).outcome =
      (lookupFrom load records { stats with failed := stats.failed + 1 } rest).outcome := by
  rw [lookupFrom, if_pos hopen, outcome_bind_of_ok (outcome_report _), outcome_bind_of_ok (outcome_attempt _), h]
  exact outcome_bind_of_ok (outcome_report _) _

theorem outcome_lookupFrom_of_readable {t : SyntaxTree} {table : List (String × Text)}
    (h : (load path).outcome = .ok t) (htable : t.constants = .ok table) :
    (lookupFrom load records stats (path :: rest)).outcome =
      (lookupFrom load (fillIn table records)
        { stats with
          scanned := stats.scanned + 1
          found := stats.found + records.countP fun r => (lookup? table r).isSome } rest).outcome := by
  rw [lookupFrom, if_pos hopen, outcome_bind_of_ok (outcome_report _), outcome_bind_of_ok (outcome_attempt _), h]
  exact outcome_bind_of_ok (a := table) htable _

end

variable {rest}

/-- The loop over the files looks every record up, counts what it finds, and
goes through all files unless nothing is left to look for. -/
def LooksUp (load : Loader) (files : List Path) (records : List Record) (stats : PassStats) : Prop :=
  ∃ stats', (lookupFrom load records stats files).outcome = .ok (records.map (lookedUp load files), stats') ∧
    stats'.number = stats.number ∧
    stats'.found = stats.found + records.countP (fun r => (valueFor load files r).isSome) ∧
    ((records.map (lookedUp load files)).any Record.isOpen = true →
      stats'.scanned + stats'.failed = stats.scanned + stats.failed + files.length)

theorem looksUp_nil (records : List Record) (stats : PassStats) : LooksUp load [] records stats := by
  have hnone : ∀ r ∈ records, valueFor load [] r = none := by simp [valueFor, valueOf]
  rw [LooksUp, map_lookedUp_of_none hnone, countP_of_none hnone]
  exact ⟨stats, rfl, rfl, rfl, fun _ => rfl⟩

theorem looksUp_of_closed {records : List Record} (h : ¬ records.any Record.isOpen = true) (stats : PassStats) :
    LooksUp load (path :: rest) records stats := by
  have hnone : ∀ r ∈ records, valueFor load (path :: rest) r = none := fun r hr =>
    valueFor_of_not_isOpen fun ho => h (List.any_eq_true.2 ⟨r, hr, ho⟩)
  have hout : (lookupFrom load records stats (path :: rest)).outcome = .ok (records, stats) := by
    rw [lookupFrom, if_neg h]
    rfl
  rw [LooksUp, map_lookedUp_of_none hnone, countP_of_none hnone]
  exact ⟨stats, hout, rfl, rfl, fun hstill => absurd hstill h⟩

theorem looksUp_of_unreadable {records : List Record} {stats : PassStats}
    (hopen : records.any Record.isOpen = true) {error : FileError}
    (h : (load path).outcome = .error (.file error))
    (hrest : LooksUp load rest records { stats with failed := stats.failed + 1 }) :
    LooksUp load (path :: rest) records stats := by
  obtain ⟨stats', hout, hnumber, hfound, hall⟩ := hrest
  rw [LooksUp, outcome_lookupFrom_of_unreadable rest hopen stats h, funext (lookedUp_cons_of_error rest h)]
  simp only [valueFor_cons_of_error rest h]
  refine ⟨stats', hout, hnumber, hfound, fun hstill => ?_⟩
  have hlength := hall hstill
  simp only [List.length_cons] at hlength ⊢
  omega

theorem looksUp_of_readable {records : List Record} {stats : PassStats}
    (hopen : records.any Record.isOpen = true) {t : SyntaxTree} {table : List (String × Text)}
    (h : (load path).outcome = .ok t) (htable : t.constants = .ok table)
    (hrest : LooksUp load rest (fillIn table records)
      { stats with
        scanned := stats.scanned + 1
        found := stats.found + records.countP fun r => (lookup? table r).isSome }) :
    LooksUp load (path :: rest) records stats := by
  obtain ⟨stats', hout, hnumber, hfound, hall⟩ := hrest
  rw [map_lookedUp_fillIn rest h htable] at hout hall
  refine ⟨stats', ?_, hnumber, ?_, fun hstill => ?_⟩
  · rw [outcome_lookupFrom_of_readable rest hopen stats h htable, hout]
  · rw [hfound, fillIn_eq, Nat.add_assoc, countP_filled rest h htable]
  · have hlength := hall hstill
    simp only [List.length_cons] at hlength ⊢
    omega

theorem looksUp {files : List Path} (h : ∀ path ∈ files, Usable load path) (records : List Record)
    (stats : PassStats) : LooksUp load files records stats := by
  induction files generalizing records stats with
  | nil => exact looksUp_nil records stats
  | cons path rest ih =>
    obtain ⟨hpath, hrest⟩ := List.forall_mem_cons.1 h
    by_cases hopen : records.any Record.isOpen = true
    · rcases hpath with ⟨error, herror⟩ | ⟨t, table, hload, htable⟩
      · exact looksUp_of_unreadable hopen herror (ih hrest records _)
      · exact looksUp_of_readable hopen hload htable (ih hrest (fillIn table records) _)
    · exact looksUp_of_closed hopen stats

/-- **The look-up pass looks up each record on its own.** It returns the
records in their order, each unchanged or with the value of the first readable
file that defines its text. The changed records are counted, and as long as a
variable record stays without a value, every file is either scanned or
counted as failed. -/
theorem declarations_eq_lookup {files : List Path} (h : ∀ path ∈ files, Usable load path) (number : Int)
    (records : List Record) :
    ∃ stats, (declarations load number records files).outcome = .ok (records.map (lookedUp load files), stats) ∧
      stats.number = number ∧
      stats.found = records.countP (fun r => lookedUp load files r ≠ r) ∧
      ((∃ r ∈ records.map (lookedUp load files), r.isVariable ∧ ¬ r.isPending) →
        stats.scanned + stats.failed = files.length) := by
  have hcount : records.countP (fun r => lookedUp load files r ≠ r) =
      records.countP fun r => (valueFor load files r).isSome := by
    refine List.countP_congr fun r _ => ?_
    rw [decide_eq_true_iff, lookedUp_ne_iff]
  rw [hcount]
  by_cases hopen : records.any Record.isOpen = true
  · obtain ⟨stats, hout, hnumber, hfound, hall⟩ := looksUp h records { number }
    refine ⟨stats, ?_, hnumber, by simpa using hfound, fun hstill => ?_⟩
    · rw [declarations, if_pos hopen, hout]
    · obtain ⟨r, hr, hr'⟩ := hstill
      simpa using hall (List.any_eq_true.2 ⟨r, hr, isOpen_iff.2 hr'⟩)
  · have hnone : ∀ r ∈ records, valueFor load files r = none := fun r hr =>
      valueFor_of_not_isOpen fun ho => hopen (List.any_eq_true.2 ⟨r, hr, ho⟩)
    rw [declarations, if_neg hopen, map_lookedUp_of_none hnone, countP_of_none hnone]
    refine ⟨{ number }, rfl, rfl, rfl, ?_⟩
    rintro ⟨r, hr, hr'⟩
    exact absurd (List.any_eq_true.2 ⟨r, hr, isOpen_iff.2 hr'⟩) hopen

namespace Duplicates

/-- A class `C` with fields and their values, given by places in
`Ckm78`. -/
def parse (fields : List (Nat × Nat)) : ParseTree :=
  let leaf (type : String) (field : Option String) (i : Nat) := ParseTree.node ⟨type, field, i, i + 1, true⟩ []
  let declarator := fun (name, value) => ParseTree.node ⟨"variable_declarator", none, 0, 5, true⟩
    [leaf "identifier" (some "name") name, .node ⟨"=", none, 0, 0, false⟩ [], leaf "integer_literal" none value]
  .node ⟨"class_declaration", none, 0, 5, true⟩ (leaf "identifier" (some "name") 0 :: fields.map declarator)

/-- File `A` is missing, `B` defines `C.k` twice, and `D` once more. -/
def loader : Loader := fun path =>
  if path = .ofString "A" then Logged.ofExcept (.error (.file (.notFound path)))
  else
    let fields := if path = .ofString "B" then [(1, 3), (1, 4)] else [(1, 4), (2, 4)]
    pure (.ofParseTree path "Ckm78".toUTF8.data (parse fields) false)

def files : List Path := [.ofString "A", .ofString "B", .ofString "D"]

/-- A record with the text of a variable. -/
def untraced (text : String) : Record :=
  { file := .ofString "B", line := 1, text := .ofString text, isVariable := true }

def records : List Record :=
  [untraced "C.k", { untraced "C.k" with pending := some ⟨[], "M", 0, none⟩ }, untraced "C.m", untraced "C"]

def results : List Record :=
  [(untraced "C.k").resolved (.ofString "7"), { untraced "C.k" with pending := some ⟨[], "M", 0, none⟩ },
    (untraced "C.m").resolved (.ofString "8"), untraced "C"]

/-- The first definition of `C.k` counts, for the record that is not pending;
`C.m` is defined by the last file and `C` by none. -/
theorem looked_up :
    (∀ path ∈ files, Usable loader path) ∧
      ∃ stats, (declarations loader 3 records files).outcome = .ok (results, stats) ∧
        stats.number = 3 ∧ stats.found = 2 ∧ stats.scanned + stats.failed = 3 := by
  have usable : ∀ path ∈ files, Usable loader path := by decide +kernel
  obtain ⟨stats, hout, hnumber, hfound, hall⟩ := declarations_eq_lookup usable 3 records
  have hresults : records.map (lookedUp loader files) = results := by decide +kernel
  rw [hresults] at hout hall
  refine ⟨usable, stats, hout, hnumber, hfound.trans (by decide +kernel), hall ⟨untraced "C", ?_, ?_⟩⟩
  · simp [results]
  · decide

end Duplicates

end Pass

end CommandTrace
