/-
Tracing, step by step.

A resolution is read as a set of findings. What a block finds is what the
expressions given to the name contribute (`outcome_collect`,
`searchBlock_holds`); what a walk does with a scope is said once, for all kinds
of scopes, by `outcome_walk_cons`: the scope is searched, and either ends the
walk or what it found is carried on. What a scope can find is `ScopeFinds`
(`searchScope_holds`). The lemmas about walks follow from these by induction on
the scopes, and `traceWith_eq` makes a trace a walk that follows copied names.
-/
import CommandTrace.Proofs.Logged
import CommandTrace.Tracing

namespace CommandTrace

open Logged

/-- What a name can be traced to. -/
inductive Finding where
  | value (text : Text)
  | pending (reference : Reference)
  | unresolved (name : String)

namespace Resolution

/-- The finding is listed in the resolution. -/
def Holds (r : Resolution) : Finding → Prop
  | .value text => text ∈ r.values
  | .pending reference => reference ∈ r.pending
  | .unresolved name => name ∈ r.unresolved

theorem not_holds_empty (f : Finding) : ¬ ({} : Resolution).Holds f := by
  cases f <;> exact List.not_mem_nil

@[simp]
theorem holds_value {text : Text} {f : Finding} :
    ({ values := [text] } : Resolution).Holds f ↔ f = .value text := by
  cases f <;> simp [Holds]

@[simp]
theorem holds_pending {reference : Reference} {f : Finding} :
    ({ pending := [reference] } : Resolution).Holds f ↔ f = .pending reference := by
  cases f <;> simp [Holds]

@[simp]
theorem holds_unresolved {name : String} {f : Finding} :
    ({ unresolved := [name] } : Resolution).Holds f ↔ f = .unresolved name := by
  cases f <;> simp [Holds]

@[simp]
theorem holds_merge {r r' : Resolution} {f : Finding} : (r.merge r').Holds f ↔ r.Holds f ∨ r'.Holds f := by
  cases f <;> exact mem_union

theorem eq_empty_of_isEmpty {r : Resolution} (h : r.isEmpty = true) : r = {} := by
  obtain ⟨values, pending, unresolved⟩ := r
  simp_all [isEmpty, isResolved]

theorem isEmpty_iff {r : Resolution} : r.isEmpty = true ↔ ∀ f, ¬ r.Holds f := by
  constructor
  · intro h f
    rw [eq_empty_of_isEmpty h]
    exact not_holds_empty f
  · intro h
    have hv : r.values = [] := List.eq_nil_iff_forall_not_mem.2 fun text => h (.value text)
    have hp : r.pending = [] := List.eq_nil_iff_forall_not_mem.2 fun reference => h (.pending reference)
    have hu : r.unresolved = [] := List.eq_nil_iff_forall_not_mem.2 fun name => h (.unresolved name)
    simp [isEmpty, isResolved, hv, hp, hu]

theorem not_isEmpty_of_isResolved {r : Resolution} (h : r.isResolved = true) : r.isEmpty = false := by
  simp [isEmpty, h]

end Resolution

/-- The computation returns a resolution that lists the finding. -/
def Logged.Finds (x : Logged Resolution) (f : Finding) : Prop :=
  ∃ r, x.outcome = .ok r ∧ r.Holds f

theorem Logged.finds_iff_holds {x : Logged Resolution} {r : Resolution} (h : x.outcome = .ok r) {f : Finding} :
    x.Finds f ↔ r.Holds f := by
  simp [Finds, h]

namespace SyntaxTree

variable (t : SyntaxTree)

/-! ## What is given to a name -/

/-- A declarator or a simple assignment gives an expression to a name. -/
inductive Assigns (i : Nat) (name : String) (value : Nat) : Prop
  | declarator : t.kind i = .declarator → t.declaratorName i = some name → t.declaratorValue i = some value →
      Assigns i name value
  | assignment {left : Nat} : t.isSimpleAssignment i = true → t.childByField i "left" = some left →
      t.text left = name → t.childByField i "right" = some value → Assigns i name value

/-- Below a block, an expression is given to a name. -/
def Gives (block : Nat) (name : String) (value : Nat) : Prop :=
  ∃ i ∈ t.descendants block, t.Assigns i name value

/-- The expression is a name, whose value is copied. -/
def IsName (value : Nat) : Prop :=
  t.kind value = .identifier ∨ t.kind value = .memberAccess

instance (value : Nat) : Decidable (t.IsName value) := inferInstanceAs (Decidable (_ ∨ _))

/-- Below a block, a name is given the value of another name. -/
def Copies (block : Nat) (name other : String) : Prop :=
  ∃ value, t.Gives block name value ∧ t.IsName value ∧ t.text value = other

/-- Below a block, a name is given a literal. -/
def GivesLiteral (block : Nat) (name : String) (text : Text) : Prop :=
  ∃ value, t.Gives block name value ∧ t.kind value = .literal ∧ t.literalValue value = .ok text

variable {t}

theorem givenValue_eq_some {name : String} {i value : Nat} :
    t.givenValue name i = some value ↔ t.Assigns i name value := by
  constructor
  · intro h
    unfold givenValue at h
    split at h
    · next hk =>
      split at h
      · next hname => exact .declarator hk hname h
      · cases h
    split at h
    · next ha =>
      split at h
      · next left hleft =>
        split at h
        · next htext => exact .assignment ha hleft htext h
        · cases h
      · cases h
    · cases h
  · intro h
    cases h with
    | declarator hk hname hvalue => simp [givenValue, hk, hname, hvalue]
    | assignment ha hleft htext hright =>
      have hk : t.kind i ≠ .declarator := by
        simp only [isSimpleAssignment, Bool.and_eq_true, decide_eq_true_eq] at ha
        simp [ha.1]
      simp [givenValue, hk, ha, hleft, htext, hright]

theorem mem_givenValues {name : String} {block value : Nat} :
    value ∈ t.givenValues name block ↔ t.Gives block name value := by
  simp only [givenValues, List.mem_filterMap, givenValue_eq_some, Gives]

/-! ## Searching a block -/

/-- What a literal finds: its value, unless that is empty. -/
def literalResult (t : SyntaxTree) (value : Nat) : Logged Resolution := do
  let text ← t.literalValue value
  return if text = [] then {} else { values := [text] }

theorem literalResult_finds {value : Nat} {f : Finding} :
    (t.literalResult value).Finds f ↔ ∃ text, t.literalValue value = .ok text ∧ text ≠ [] ∧ f = .value text := by
  constructor
  · rintro ⟨r, hr, hf⟩
    obtain ⟨text, htext, hr⟩ := bind_eq_ok.1 hr
    cases hr
    by_cases hne : text = []
    · rw [if_pos hne] at hf
      exact absurd hf (Resolution.not_holds_empty f)
    · rw [if_neg hne, Resolution.holds_value] at hf
      exact ⟨text, htext, hne, hf⟩
  · rintro ⟨text, htext, hne, rfl⟩
    refine ⟨_, outcome_bind_of_ok (a := text) htext _, ?_⟩
    rw [if_neg hne, Resolution.holds_value]

theorem literalResult_succeeds {value : Nat} :
    (t.literalResult value).Succeeds ↔ ∃ text, t.literalValue value = .ok text := by
  simp only [literalResult, bind_succeeds, outcome_lift, pure_succeeds, and_true]

section

variable {follow : String → Logged (Option Resolution)} {value : Nat}

/-- What one expression given to a name contributes. -/
def contribution (t : SyntaxTree) (follow : String → Logged (Option Resolution)) (value : Nat) :
    Logged Resolution :=
  match t.kind value with
  | .literal => t.literalResult value
  | .identifier | .memberAccess => do
    match ← follow (t.text value) with
    | none => return {}
    | some inner => return if inner.isEmpty then { unresolved := [t.text value] } else inner
  | _ => pure {}

/-- Collecting merges a contribution into what has been found. -/
theorem outcome_collect (follow : String → Logged (Option Resolution)) (found : Resolution) (value : Nat) :
    (t.collect follow found value).outcome =
      (t.contribution follow value >>= fun part => pure (found.merge part)).outcome := by
  have copied : (do
      match ← follow (t.text value) with
      | none => return found
      | some inner =>
        let merged := found.merge inner
        return if inner.isEmpty then merged.addUnresolved (t.text value) else merged : Logged Resolution).outcome =
      ((do
        match ← follow (t.text value) with
        | none => return {}
        | some inner => return if inner.isEmpty then { unresolved := [t.text value] } else inner :
          Logged Resolution) >>= fun part => pure (found.merge part)).outcome := by
    simp only [outcome_bind]
    cases (follow (t.text value)).outcome with
    | error fault => rfl
    | ok result =>
      cases result with
      | none => rfl
      | some inner =>
        by_cases hempty : inner.isEmpty = true
        · rw [Resolution.eq_empty_of_isEmpty hempty]
          rfl
        · simp [Except.bind, hempty]
  unfold collect contribution
  cases t.kind value with
  | literal =>
    simp only [literalResult, outcome_bind, outcome_lift]
    cases t.literalValue value with
    | error fault => rfl
    | ok text => by_cases htext : text = [] <;> simp [Except.bind, htext] <;> rfl
  | identifier => exact copied
  | memberAccess => exact copied
  | _ => rfl

theorem contribution_of_literal (h : t.kind value = .literal) :
    t.contribution follow value = t.literalResult value := by
  rw [contribution, h]

theorem contribution_of_name (h : t.IsName value) :
    t.contribution follow value = (do
      match ← follow (t.text value) with
      | none => return {}
      | some inner => return if inner.isEmpty then { unresolved := [t.text value] } else inner) := by
  rcases h with h | h <;> rw [contribution, h]

theorem contribution_of_other (hl : t.kind value ≠ .literal) (hn : ¬ t.IsName value) :
    t.contribution follow value = pure {} := by
  cases hk : t.kind value with
  | literal => exact absurd hk hl
  | identifier => exact absurd (.inl hk) hn
  | memberAccess => exact absurd (.inr hk) hn
  | _ => rw [contribution, hk]

/-- A name contributes what it is traced to, or itself if that is nothing. -/
theorem contribution_finds_name (h : t.IsName value) {f : Finding} :
    (t.contribution follow value).Finds f ↔ ∃ inner, (follow (t.text value)).outcome = .ok (some inner) ∧
      (inner.Holds f ∨ inner.isEmpty = true ∧ f = .unresolved (t.text value)) := by
  have holds_inner : ∀ inner : Resolution,
      (if inner.isEmpty = true then { unresolved := [t.text value] } else inner : Resolution).Holds f ↔
        inner.Holds f ∨ inner.isEmpty = true ∧ f = .unresolved (t.text value) := by
    intro inner
    by_cases hempty : inner.isEmpty = true
    · simp [hempty, Resolution.isEmpty_iff.1 hempty f]
    · simp [hempty]
  rw [contribution_of_name h]
  constructor
  · rintro ⟨r, hr, hf⟩
    obtain ⟨result, hresult, hr⟩ := bind_eq_ok.1 hr
    cases result with
    | none =>
      cases hr
      exact absurd hf (Resolution.not_holds_empty f)
    | some inner =>
      cases hr
      exact ⟨inner, hresult, (holds_inner inner).1 hf⟩
  · rintro ⟨inner, hinner, hf⟩
    exact ⟨_, outcome_bind_of_ok hinner _, (holds_inner inner).2 hf⟩

theorem contribution_succeeds_name (h : t.IsName value) :
    (t.contribution follow value).Succeeds ↔ (follow (t.text value)).Succeeds := by
  rw [contribution_of_name h, bind_succeeds]
  refine exists_congr fun result => and_iff_left ?_
  cases result <;> exact pure_succeeds _

theorem foldlM_collect {values : List Nat} {found r : Resolution}
    (h : (values.foldlM (t.collect follow) found).outcome = .ok r) :
    (∀ value ∈ values, (t.contribution follow value).Succeeds) ∧
      ∀ f, r.Holds f ↔ found.Holds f ∨ ∃ value ∈ values, (t.contribution follow value).Finds f := by
  induction values generalizing found with
  | nil =>
    simp only [List.foldlM_nil, outcome_pure, Except.ok.injEq] at h
    subst h
    simp
  | cons value values ih =>
    rw [List.foldlM_cons, bind_eq_ok] at h
    obtain ⟨next, hnext, h⟩ := h
    rw [outcome_collect, bind_eq_ok] at hnext
    obtain ⟨part, hpart, hnext⟩ := hnext
    cases hnext
    obtain ⟨hsucc, hholds⟩ := ih h
    refine ⟨List.forall_mem_cons.2 ⟨⟨part, hpart⟩, hsucc⟩, fun f => ?_⟩
    rw [hholds, Resolution.holds_merge, ← finds_iff_holds hpart, or_assoc]
    simp

theorem foldlM_collect_succeeds {values : List Nat}
    (h : ∀ value ∈ values, (t.contribution follow value).Succeeds) (found : Resolution) :
    (values.foldlM (t.collect follow) found).Succeeds := by
  induction values generalizing found with
  | nil => exact pure_succeeds _
  | cons value values ih =>
    obtain ⟨⟨part, hpart⟩, hrest⟩ := List.forall_mem_cons.1 h
    obtain ⟨r, hr⟩ := ih hrest (found.merge part)
    refine ⟨r, ?_⟩
    rw [List.foldlM_cons, bind_eq_ok]
    exact ⟨found.merge part, by rw [outcome_collect, outcome_bind_of_ok hpart, outcome_pure], hr⟩

end

section

variable {follow : String → Nat → Logged (Option Resolution)} {name : String} {scope : Nat}

/-- A block is searched if every expression given to the name contributes
something. -/
theorem searchBlock_succeeds :
    (t.searchBlock follow name scope).Succeeds ↔
      ∀ value, t.Gives scope name value → (t.contribution (fun copied => follow copied scope) value).Succeeds := by
  simp only [← mem_givenValues]
  constructor
  · rintro ⟨r, hr⟩
    exact (foldlM_collect hr).1
  · exact fun h => foldlM_collect_succeeds h _

/-- A block finds what the expressions given to the name contribute. -/
theorem searchBlock_holds {found : Resolution} (h : (t.searchBlock follow name scope).outcome = .ok found)
    {f : Finding} :
    found.Holds f ↔
      ∃ value, t.Gives scope name value ∧ (t.contribution (fun copied => follow copied scope) value).Finds f := by
  simp only [← mem_givenValues]
  rw [(foldlM_collect h).2, or_iff_right (Resolution.not_holds_empty f)]

/-! ## Searching a scope -/

/-- The field declarations a scope consists of: a field itself, the fields of
a type. -/
def scopeFields (t : SyntaxTree) (scope : Nat) : List Nat :=
  match t.kind scope with
  | .fieldDecl => [scope]
  | .typeDecl =>
    (t.children ((t.childByField scope "body").getD scope)).filter fun c => t.kind c = .fieldDecl
  | _ => []

/-- The literals that the fields of a scope start a name with, in document
order. -/
def scopeLiterals (t : SyntaxTree) (name : String) (scope : Nat) : List Nat :=
  (t.scopeFields scope).flatMap (t.fieldLiterals name)

/-- What the first of some literals finds. -/
def firstResult (t : SyntaxTree) : List Nat → Logged Resolution
  | [] => pure {}
  | value :: _ => t.literalResult value

/-- What one scope finds for a name. -/
def searchScope (t : SyntaxTree) (follow : String → Nat → Logged (Option Resolution)) (name : String)
    (scope : Nat) : Logged Resolution :=
  match t.kind scope with
  | .block => t.searchBlock follow name scope
  | .methodDecl =>
    match t.parameterIndex name scope with
    | none => pure {}
    | some index => do
      let reference ← t.parameterReference scope index
      return { pending := [reference] }
  | _ => t.firstResult (t.scopeLiterals name scope)

/-- The value of the first of some literals. -/
def firstLiteral (t : SyntaxTree) : List Nat → Except Fault (Option Text)
  | [] => .ok none
  | value :: _ => some <$> t.literalValue value

/-- A value ends a walk; without one it goes on. -/
def endWith (walkOn : Logged Resolution) : Option Text → Logged Resolution
  | none | some [] => walkOn
  | some value => return { values := [value] }

theorem typeFieldValue_eq (hk : t.kind scope = .typeDecl) :
    t.typeFieldValue name scope = t.firstLiteral (t.scopeLiterals name scope) := by
  rw [scopeLiterals, scopeFields, hk]
  rfl

theorem fieldValue_eq (hk : t.kind scope = .fieldDecl) :
    t.fieldValue name scope = t.firstLiteral (t.scopeLiterals name scope) := by
  rw [scopeLiterals, scopeFields, hk, List.flatMap_singleton]
  rfl

/-- With a first literal a walk does the same as with what that finds. -/
theorem outcome_firstLiteral (walkOn : Resolution → Logged Resolution) (carried : Resolution) (values : List Nat) :
    (do let value ← t.firstLiteral values
        endWith (walkOn carried) value : Logged Resolution).outcome =
      (do let found ← t.firstResult values
          if found.isResolved then return found
          walkOn (carried.merge found) : Logged Resolution).outcome := by
  cases values with
  | nil => rfl
  | cons value _ =>
    simp only [firstLiteral, firstResult, literalResult, outcome_bind, outcome_lift]
    cases t.literalValue value with
    | error fault => rfl
    | ok text => cases text <;> rfl

/-- **One step of a walk.** The scope is searched; if that resolves the name
the walk ends, else it goes on with what was found. -/
theorem outcome_walk_cons (carried : Resolution) (rest : List Nat) :
    (t.walk follow name carried (scope :: rest)).outcome = (do
      let found ← t.searchScope follow name scope
      if found.isResolved then return found
      t.walk follow name (carried.merge found) rest : Logged Resolution).outcome := by
  rw [walk, searchScope]
  cases hk : t.kind scope with
  | block => rfl
  | methodDecl =>
    simp only
    cases t.parameterIndex name scope with
    | none => rfl
    | some index =>
      simp only [outcome_bind, outcome_lift, outcome_report]
      cases t.parameterReference scope index <;> rfl
  | typeDecl =>
    simp only [typeFieldValue_eq hk]
    exact outcome_firstLiteral (fun carried => t.walk follow name carried rest) carried _
  | fieldDecl =>
    simp only [fieldValue_eq hk]
    exact outcome_firstLiteral (fun carried => t.walk follow name carried rest) carried _
  | _ =>
    simp only [scopeLiterals, scopeFields, hk, List.flatMap_nil]
    rfl

variable (t) in
/-- A field of the scope starts the name with a literal. A leading `this.` of
the name does not count. -/
def FieldLiteral (scope : Nat) (name : String) (value : Nat) : Prop :=
  ∃ field ∈ t.scopeFields scope, ∃ d ∈ t.declarators field,
    t.declaratorName d = some (withoutThis name) ∧ t.declaratorValue d = some value ∧ t.kind value = .literal

theorem mem_scopeLiterals {value : Nat} :
    value ∈ t.scopeLiterals name scope ↔ t.FieldLiteral scope name value := by
  simp [scopeLiterals, fieldLiterals, FieldLiteral, Option.filter_eq_some_iff, and_assoc]

theorem searchScope_of_block (hk : t.kind scope = .block) :
    t.searchScope follow name scope = t.searchBlock follow name scope := by
  rw [searchScope, hk]

theorem searchScope_of_parameter {index : Nat} (hk : t.kind scope = .methodDecl)
    (hi : t.parameterIndex name scope = some index) :
    t.searchScope follow name scope = (do
      let reference ← t.parameterReference scope index
      return { pending := [reference] }) := by
  rw [searchScope, hk]
  simp only [hi]

theorem searchScope_of_literal {value : Nat} {rest : List Nat} (hl : t.scopeLiterals name scope = value :: rest) :
    t.searchScope follow name scope = t.literalResult value := by
  cases hk : t.kind scope with
  | block => simp [scopeLiterals, scopeFields, hk] at hl
  | methodDecl => simp [scopeLiterals, scopeFields, hk] at hl
  | _ => simp only [searchScope, hk, hl, firstResult]

theorem searchScope_of_none (hk : t.kind scope ≠ .block)
    (hi : t.kind scope = .methodDecl → t.parameterIndex name scope = none)
    (hl : t.scopeLiterals name scope = []) : t.searchScope follow name scope = pure {} := by
  cases hs : t.kind scope with
  | block => exact absurd hs hk
  | methodDecl => simp only [searchScope, hs, hi hs]
  | _ => simp only [searchScope, hs, hl, firstResult]

/-- What a scope can find for a name. -/
inductive ScopeFinds (t : SyntaxTree) (follow : String → Nat → Logged (Option Resolution)) (name : String)
    (scope : Nat) : Finding → Prop
  | literal {text : Text} : t.kind scope = .block → t.GivesLiteral scope name text → text ≠ [] →
      ScopeFinds t follow name scope (.value text)
  | copied {other : String} {inner : Resolution} {f : Finding} : t.kind scope = .block →
      t.Copies scope name other → (follow other scope).outcome = .ok (some inner) → inner.Holds f →
      ScopeFinds t follow name scope f
  | deadEnd {other : String} {inner : Resolution} : t.kind scope = .block →
      t.Copies scope name other → (follow other scope).outcome = .ok (some inner) → inner.isEmpty = true →
      ScopeFinds t follow name scope (.unresolved other)
  | field {value : Nat} {rest : List Nat} {text : Text} : t.scopeLiterals name scope = value :: rest →
      t.literalValue value = .ok text → text ≠ [] → ScopeFinds t follow name scope (.value text)
  | parameter {index : Nat} {reference : Reference} : t.kind scope = .methodDecl →
      t.parameterIndex name scope = some index → t.parameterReference scope index = .ok reference →
      ScopeFinds t follow name scope (.pending reference)

theorem scopeFinds_of_contribution {value : Nat} {f : Finding} (hk : t.kind scope = .block)
    (hg : t.Gives scope name value)
    (hf : (t.contribution (fun copied => follow copied scope) value).Finds f) :
    t.ScopeFinds follow name scope f := by
  by_cases hl : t.kind value = .literal
  · rw [contribution_of_literal hl, literalResult_finds] at hf
    obtain ⟨text, htext, hne, rfl⟩ := hf
    exact .literal hk ⟨value, hg, hl, htext⟩ hne
  by_cases hn : t.IsName value
  · rw [contribution_finds_name hn] at hf
    obtain ⟨inner, hinner, hf | ⟨hempty, rfl⟩⟩ := hf
    · exact .copied hk ⟨value, hg, hn, rfl⟩ hinner hf
    · exact .deadEnd hk ⟨value, hg, hn, rfl⟩ hinner hempty
  · rw [contribution_of_other hl hn, finds_iff_holds (outcome_pure _)] at hf
    exact absurd hf (Resolution.not_holds_empty f)

theorem ScopeFinds.of_holds {found : Resolution} (h : (t.searchScope follow name scope).outcome = .ok found)
    {f : Finding} (hf : found.Holds f) : t.ScopeFinds follow name scope f := by
  by_cases hk : t.kind scope = .block
  · rw [searchScope_of_block hk] at h
    obtain ⟨value, hg, hc⟩ := (searchBlock_holds h).1 hf
    exact scopeFinds_of_contribution hk hg hc
  cases hl : t.scopeLiterals name scope with
  | cons value rest =>
    rw [searchScope_of_literal hl] at h
    obtain ⟨text, htext, hne, rfl⟩ := literalResult_finds.1 ⟨found, h, hf⟩
    exact .field hl htext hne
  | nil =>
    by_cases hi : t.kind scope = .methodDecl → t.parameterIndex name scope = none
    · rw [searchScope_of_none hk hi hl] at h
      cases h
      exact absurd hf (Resolution.not_holds_empty f)
    · obtain ⟨hm, hi⟩ := Classical.not_imp.1 hi
      obtain ⟨index, hi⟩ := Option.ne_none_iff_exists'.1 hi
      rw [searchScope_of_parameter hm hi] at h
      obtain ⟨reference, hr, h⟩ := bind_eq_ok.1 h
      cases h
      rw [Resolution.holds_pending.1 hf]
      exact .parameter hm hi hr

theorem ScopeFinds.holds {found : Resolution} (h : (t.searchScope follow name scope).outcome = .ok found)
    {f : Finding} (hf : t.ScopeFinds follow name scope f) : found.Holds f := by
  cases hf with
  | literal hk hg hne =>
    obtain ⟨value, hg, hl, htext⟩ := hg
    rw [searchScope_of_block hk] at h
    refine (searchBlock_holds h).2 ⟨value, hg, ?_⟩
    rw [contribution_of_literal hl]
    exact literalResult_finds.2 ⟨_, htext, hne, rfl⟩
  | copied hk hc hinner hf =>
    obtain ⟨value, hg, hn, rfl⟩ := hc
    rw [searchScope_of_block hk] at h
    exact (searchBlock_holds h).2 ⟨value, hg, (contribution_finds_name hn).2 ⟨_, hinner, .inl hf⟩⟩
  | deadEnd hk hc hinner hempty =>
    obtain ⟨value, hg, hn, rfl⟩ := hc
    rw [searchScope_of_block hk] at h
    exact (searchBlock_holds h).2 ⟨value, hg, (contribution_finds_name hn).2 ⟨_, hinner, .inr ⟨hempty, rfl⟩⟩⟩
  | field hl htext hne =>
    rw [searchScope_of_literal hl] at h
    exact (finds_iff_holds h).1 (literalResult_finds.2 ⟨_, htext, hne, rfl⟩)
  | parameter hk hi hr =>
    rw [searchScope_of_parameter hk hi, outcome_bind_of_ok hr] at h
    cases h
    exact Resolution.holds_pending.2 rfl

/-- Searching a scope finds exactly what the scope can find. -/
theorem searchScope_holds {found : Resolution} (h : (t.searchScope follow name scope).outcome = .ok found)
    {f : Finding} :
    found.Holds f ↔ t.ScopeFinds follow name scope f :=
  ⟨.of_holds h, ScopeFinds.holds h⟩

/-! ## Walking the scopes -/

/-- A walk finds nothing that no scope finds. -/
theorem walk_holds {carried r : Resolution} {scopes : List Nat}
    (h : (t.walk follow name carried scopes).outcome = .ok r) {f : Finding} (hf : r.Holds f) :
    carried.Holds f ∨ ∃ scope ∈ scopes, t.ScopeFinds follow name scope f := by
  induction scopes generalizing carried with
  | nil =>
    cases h
    exact .inl hf
  | cons scope rest ih =>
    rw [outcome_walk_cons, bind_eq_ok] at h
    obtain ⟨found, hfound, h⟩ := h
    split at h
    · cases h
      exact .inr ⟨scope, List.mem_cons_self, .of_holds hfound hf⟩
    · rcases ih h with hc | ⟨outer, houter, hs⟩
      · rcases Resolution.holds_merge.1 hc with hc | hs
        · exact .inl hc
        · exact .inr ⟨scope, List.mem_cons_self, .of_holds hfound hs⟩
      · exact .inr ⟨outer, List.mem_cons_of_mem _ houter, hs⟩

/-- A walk that finds nothing went through all scopes, and none found
anything. -/
theorem walk_isEmpty {carried r : Resolution} {scopes : List Nat}
    (h : (t.walk follow name carried scopes).outcome = .ok r) (he : r.isEmpty = true) :
    carried.isEmpty = true ∧ ∀ scope ∈ scopes, (t.searchScope follow name scope).outcome = .ok {} := by
  induction scopes generalizing carried with
  | nil =>
    cases h
    exact ⟨he, fun _ h => absurd h List.not_mem_nil⟩
  | cons scope rest ih =>
    rw [outcome_walk_cons, bind_eq_ok] at h
    obtain ⟨found, hfound, h⟩ := h
    split at h
    · next hres =>
      cases h
      rw [Resolution.not_isEmpty_of_isResolved hres] at he
      cases he
    · obtain ⟨hmerged, hrest⟩ := ih h
      simp only [Resolution.isEmpty_iff, Resolution.holds_merge, not_or] at hmerged
      have hempty : found.isEmpty = true := Resolution.isEmpty_iff.2 fun f => (hmerged f).2
      refine ⟨Resolution.isEmpty_iff.2 fun f => (hmerged f).1, List.forall_mem_cons.2 ⟨?_, hrest⟩⟩
      rw [hfound, Resolution.eq_empty_of_isEmpty hempty]

/-- If only one scope can find anything, the walk finds what that one does. -/
theorem walk_of_scope {only : Nat} {found : Resolution}
    (hfound : (t.searchScope follow name only).outcome = .ok found) {scopes : List Nat}
    (hother : ∀ scope ∈ scopes, scope ≠ only → (t.searchScope follow name scope).outcome = .ok {})
    {carried : Resolution} (hcarried : ∀ f, carried.Holds f → found.Holds f)
    (hmem : only ∈ scopes ∨ ∀ f, found.Holds f → carried.Holds f) :
    ∃ r, (t.walk follow name carried scopes).outcome = .ok r ∧ ∀ f, r.Holds f ↔ found.Holds f := by
  induction scopes generalizing carried with
  | nil =>
    have hback := hmem.resolve_left List.not_mem_nil
    exact ⟨carried, rfl, fun f => ⟨hcarried f, hback f⟩⟩
  | cons scope rest ih =>
    obtain ⟨hscope, hrest⟩ := List.forall_mem_cons.1 hother
    rw [outcome_walk_cons]
    by_cases heq : scope = only
    · rw [heq, outcome_bind_of_ok hfound]
      split
      · exact ⟨found, rfl, fun f => Iff.rfl⟩
      · refine ih hrest (fun f hf => ?_) (.inr fun f hf => Resolution.holds_merge.2 (.inr hf))
        exact (Resolution.holds_merge.1 hf).elim (hcarried f) id
    · rw [outcome_bind_of_ok (hscope heq)]
      exact ih hrest hcarried (hmem.imp_left fun h => (List.mem_cons.1 h).resolve_left (Ne.symm heq))

end

/-! ## Following names -/

/-- How a copied name is followed: into the block that copies it, unless it is
being traced. -/
def follow (t : SyntaxTree) (fresh : List String) (copied : String) (block : Nat) : Logged (Option Resolution) :=
  if copied ∈ fresh then some <$> t.traceWith (without fresh copied) copied block else pure none

theorem traceWith_eq (fresh : List String) (name : String) (start : Nat) :
    t.traceWith fresh name start = t.walk (t.follow fresh) name {} (t.scopes start) := by
  rw [traceWith]
  rfl

theorem follow_eq_some {fresh : List String} {copied : String} {block : Nat} {inner : Resolution} :
    (t.follow fresh copied block).outcome = .ok (some inner) ↔
      copied ∈ fresh ∧ (t.traceWith (without fresh copied) copied block).outcome = .ok inner := by
  unfold follow
  split
  · next h => simp [map_eq_ok, h]
  · next h => simp [h]

/-- A searched block has followed the names it copies, as far as they may be. -/
theorem exists_followed_of_copies {fresh : List String} {name other : String} {block : Nat} {found : Resolution}
    (hk : t.kind block = .block) (h : (t.searchScope (t.follow fresh) name block).outcome = .ok found)
    (hc : t.Copies block name other) (hother : other ∈ fresh) :
    ∃ inner, (t.follow fresh other block).outcome = .ok (some inner) := by
  obtain ⟨value, hg, hn, rfl⟩ := hc
  rw [searchScope_of_block hk] at h
  obtain ⟨result, hresult⟩ := (contribution_succeeds_name hn).1 (searchBlock_succeeds.1 ⟨_, h⟩ value hg)
  obtain ⟨inner, rfl⟩ : ∃ inner, result = some inner := by
    rw [follow, if_pos hother, map_eq_ok] at hresult
    obtain ⟨inner, -, rfl⟩ := hresult
    exact ⟨inner, rfl⟩
  exact ⟨inner, hresult⟩

end SyntaxTree

end CommandTrace
