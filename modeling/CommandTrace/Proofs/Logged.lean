/-
Outcomes of reporting computations.

What a computation reports never decides what it returns, so its outcome can
be read step by step: `bind_eq_ok` says what a successful sequence went
through. For computations that return lists, `Succeeds` and `Contains` speak
of the result as a set, and `Joins` says that one computation puts together
what several others return. `SameElements` is finer: it says how often each
element is returned, and only the order is left open.
-/
import CommandTrace.Logged

namespace CommandTrace.Logged

variable {α β : Type}

/-- The computation returns a result. -/
def Succeeds (x : Logged α) : Prop :=
  ∃ a, x.outcome = .ok a

/-- The computation returns a list that `a` is in. -/
def Contains (x : Logged (List α)) (a : α) : Prop :=
  ∃ l, x.outcome = .ok l ∧ a ∈ l

theorem succeeds_iff_isOk {x : Logged α} : x.Succeeds ↔ x.outcome.isOk = true := by
  cases h : x.outcome <;> simp [Succeeds, h, Except.isOk, Except.toBool]

instance (x : Logged α) : Decidable x.Succeeds := decidable_of_iff _ succeeds_iff_isOk.symm

theorem outcome_eq_ok_iff {x : Logged α} {a : α} : x.outcome = .ok a ↔ x.outcome.toOption = some a := by
  cases x.outcome <;> simp [Except.toOption]

instance [DecidableEq α] (x : Logged α) (a : α) : Decidable (x.outcome = .ok a) :=
  decidable_of_iff _ outcome_eq_ok_iff.symm

theorem Contains.succeeds {x : Logged (List α)} {a : α} (h : x.Contains a) : x.Succeeds := by
  obtain ⟨l, hl, -⟩ := h
  exact ⟨l, hl⟩

theorem contains_iff_mem {x : Logged (List α)} {l : List α} (h : x.outcome = .ok l) {a : α} :
    x.Contains a ↔ a ∈ l := by
  constructor
  · rintro ⟨l', hl', ha⟩
    rw [h, Except.ok.injEq] at hl'
    rwa [hl']
  · exact fun ha => ⟨l, h, ha⟩

/-! ## Steps of a computation -/

attribute [simp] outcome_pure

@[simp]
theorem outcome_report (event : Event) : (report event).outcome = .ok () := rfl

@[simp]
theorem outcome_lift (x : Except Fault α) : (liftM x : Logged α).outcome = x := rfl

@[simp]
theorem outcome_attempt (x : Logged α) : x.attempt.outcome = .ok x.outcome := rfl

theorem bind_eq_ok {x : Logged α} {f : α → Logged β} {b : β} :
    (x >>= f).outcome = .ok b ↔ ∃ a, x.outcome = .ok a ∧ (f a).outcome = .ok b := by
  rw [outcome_bind]
  cases x.outcome <;> simp [Except.bind]

/-- After a step that returned, only the rest decides. -/
theorem outcome_bind_of_ok {x : Logged α} {a : α} (h : x.outcome = .ok a) (f : α → Logged β) :
    (x >>= f).outcome = (f a).outcome := by
  rw [outcome_bind, h]
  rfl

theorem events_bind_of_ok {x : Logged α} {a : α} (h : x.outcome = .ok a) (f : α → Logged β) :
    (x >>= f).events = x.events ++ (f a).events := by
  rw [events_bind, h]

theorem map_eq_ok {x : Logged α} {f : α → β} {b : β} :
    (f <$> x).outcome = .ok b ↔ ∃ a, x.outcome = .ok a ∧ f a = b := by
  show (x >>= fun a => pure (f a)).outcome = .ok b ↔ _
  simp only [bind_eq_ok, outcome_pure, Except.ok.injEq]

theorem bind_succeeds {x : Logged α} {f : α → Logged β} :
    (x >>= f).Succeeds ↔ ∃ a, x.outcome = .ok a ∧ (f a).Succeeds := by
  constructor
  · rintro ⟨b, hb⟩
    obtain ⟨a, ha, hf⟩ := bind_eq_ok.1 hb
    exact ⟨a, ha, b, hf⟩
  · rintro ⟨a, ha, b, hf⟩
    exact ⟨b, bind_eq_ok.2 ⟨a, ha, hf⟩⟩

theorem pure_succeeds (a : α) : (pure a : Logged α).Succeeds := ⟨a, rfl⟩

theorem pure_contains {l : List α} {a : α} : (pure l : Logged (List α)).Contains a ↔ a ∈ l :=
  contains_iff_mem rfl

theorem bind_contains {x : Logged α} {f : α → Logged (List β)} {b : β} :
    (x >>= f).Contains b ↔ ∃ a, x.outcome = .ok a ∧ (f a).Contains b := by
  constructor
  · rintro ⟨l, hl, hb⟩
    obtain ⟨a, ha, hf⟩ := bind_eq_ok.1 hl
    exact ⟨a, ha, l, hf, hb⟩
  · rintro ⟨a, ha, l, hf, hb⟩
    exact ⟨l, bind_eq_ok.2 ⟨a, ha, hf⟩, hb⟩

/-! ## Putting lists together -/

/-- The computation `x` puts together what `f` returns for all `a` with `P a`:
it succeeds if they all do, and then the elements are theirs. -/
def Joins (x : Logged (List β)) (P : α → Prop) (f : α → Logged (List β)) : Prop :=
  (x.Succeeds ↔ ∀ a, P a → (f a).Succeeds) ∧
    ∀ b, x.Contains b ↔ x.Succeeds ∧ ∃ a, P a ∧ (f a).Contains b

theorem Joins.congr {x y : Logged (List β)} {P : α → Prop} {f : α → Logged (List β)} (h : y.Joins P f)
    (hxy : x.outcome = y.outcome) : x.Joins P f := by
  simpa only [Joins, Succeeds, Contains, hxy] using h

/-- Parts that repeat others may be counted in. -/
theorem Joins.extend {x : Logged (List β)} {P Q : α → Prop} {f : α → Logged (List β)} (h : x.Joins P f)
    (hPQ : ∀ a, P a → Q a) (hQP : ∀ a, Q a → ∃ a', P a' ∧ f a = f a') : x.Joins Q f := by
  constructor
  · rw [h.1]
    constructor
    · intro hs a ha
      obtain ⟨a', ha', he⟩ := hQP a ha
      exact he ▸ hs a' ha'
    · exact fun hs a ha => hs a (hPQ a ha)
  · intro b
    rw [h.2]
    refine and_congr_right fun _ => ⟨?_, ?_⟩
    · rintro ⟨a, ha, hb⟩
      exact ⟨a, hPQ a ha, hb⟩
    · rintro ⟨a, ha, hb⟩
      obtain ⟨a', ha', he⟩ := hQP a ha
      exact ⟨a', ha', he ▸ hb⟩

theorem gather_cons_eq_ok {f : α → Logged (List β)} {a : α} {as : List α} {bs : List β} :
    (gather f (a :: as)).outcome = .ok bs ↔
      ∃ first others, (f a).outcome = .ok first ∧ (gather f as).outcome = .ok others ∧
        first ++ others = bs := by
  simp only [gather, bind_eq_ok, outcome_pure, Except.ok.injEq]
  constructor
  · rintro ⟨first, h₁, others, h₂, h⟩
    exact ⟨first, others, h₁, h₂, h⟩
  · rintro ⟨first, others, h₁, h₂, h⟩
    exact ⟨first, h₁, others, h₂, h⟩

theorem gather_succeeds {f : α → Logged (List β)} {as : List α} :
    (gather f as).Succeeds ↔ ∀ a ∈ as, (f a).Succeeds := by
  induction as with
  | nil => simpa [gather] using pure_succeeds _
  | cons a as ih =>
    rw [List.forall_mem_cons, ← ih]
    constructor
    · rintro ⟨bs, h⟩
      obtain ⟨first, others, h₁, h₂, -⟩ := gather_cons_eq_ok.1 h
      exact ⟨⟨first, h₁⟩, others, h₂⟩
    · rintro ⟨⟨first, h₁⟩, others, h₂⟩
      exact ⟨_, gather_cons_eq_ok.2 ⟨first, others, h₁, h₂, rfl⟩⟩

theorem mem_gather {f : α → Logged (List β)} {as : List α} {bs : List β} {b : β}
    (h : (gather f as).outcome = .ok bs) : b ∈ bs ↔ ∃ a ∈ as, (f a).Contains b := by
  induction as generalizing bs with
  | nil =>
    simp only [gather, outcome_pure, Except.ok.injEq] at h
    subst h
    simp
  | cons a as ih =>
    obtain ⟨first, others, h₁, h₂, rfl⟩ := gather_cons_eq_ok.1 h
    rw [List.mem_append, ih h₂, ← contains_iff_mem h₁]
    simp

/-- Gathering single elements. -/
theorem outcome_gather_map {f : α → Logged (List β)} {g : α → β} (h : ∀ a, (f a).outcome = .ok [g a])
    (as : List α) : (gather f as).outcome = .ok (as.map g) := by
  induction as with
  | nil => rfl
  | cons a as ih => exact gather_cons_eq_ok.2 ⟨[g a], as.map g, h a, ih, rfl⟩

/-- Gathering puts together what the parts return. -/
theorem gather_joins (f : α → Logged (List β)) (as : List α) : (gather f as).Joins (· ∈ as) f := by
  refine ⟨gather_succeeds, fun b => ⟨?_, ?_⟩⟩
  · rintro ⟨bs, h, hb⟩
    exact ⟨⟨bs, h⟩, (mem_gather h).1 hb⟩
  · rintro ⟨⟨bs, h⟩, ha⟩
    exact ⟨bs, h, (mem_gather h).2 ha⟩

theorem append_succeeds {x y : Logged (List β)} :
    (do let l ← x; let l' ← y; return l ++ l' : Logged (List β)).Succeeds ↔ x.Succeeds ∧ y.Succeeds := by
  simp only [bind_succeeds]
  constructor
  · rintro ⟨l, hl, l', hl', -⟩
    exact ⟨⟨l, hl⟩, l', hl'⟩
  · rintro ⟨⟨l, hl⟩, l', hl'⟩
    exact ⟨l, hl, l', hl', pure_succeeds _⟩

theorem append_contains {x y : Logged (List β)} {b : β} :
    (do let l ← x; let l' ← y; return l ++ l' : Logged (List β)).Contains b ↔
      (x.Succeeds ∧ y.Succeeds) ∧ (x.Contains b ∨ y.Contains b) := by
  simp only [bind_contains, pure_contains, List.mem_append]
  constructor
  · rintro ⟨l, hl, l', hl', hb⟩
    rw [contains_iff_mem hl, contains_iff_mem hl']
    exact ⟨⟨⟨l, hl⟩, l', hl'⟩, hb⟩
  · rintro ⟨⟨⟨l, hl⟩, l', hl'⟩, hb⟩
    rw [contains_iff_mem hl, contains_iff_mem hl'] at hb
    exact ⟨l, hl, l', hl', hb⟩

/-- What follows all parts may as well follow each, if there is a part. -/
theorem Joins.append {x y : Logged (List β)} {P : α → Prop} {f : α → Logged (List β)} (h : x.Joins P f)
    {a : α} (ha : P a) :
    (do let l ← x; let l' ← y; return l ++ l' : Logged (List β)).Joins P fun a => do
      let l ← f a; let l' ← y; return l ++ l' := by
  constructor
  · simp only [append_succeeds, h.1]
    constructor
    · exact fun hs a' ha' => ⟨hs.1 a' ha', hs.2⟩
    · exact fun hs => ⟨fun a' ha' => (hs a' ha').1, (hs a ha).2⟩
  · intro b
    simp only [append_contains, append_succeeds, h.2]
    constructor
    · rintro ⟨hs, ⟨-, a', ha', hb⟩ | hb⟩
      · exact ⟨hs, a', ha', ⟨h.1.1 hs.1 a' ha', hs.2⟩, .inl hb⟩
      · exact ⟨hs, a, ha, ⟨h.1.1 hs.1 a ha, hs.2⟩, .inr hb⟩
    · rintro ⟨hs, a', ha', -, hb | hb⟩
      · exact ⟨hs, .inl ⟨hs.1, a', ha', hb⟩⟩
      · exact ⟨hs, .inr hb⟩

/-! ## The order of a list -/

/-- Where `x` returns a list, `y` returns one with the same elements, each as
often. -/
def SameElements (x y : Logged (List β)) : Prop :=
  ∀ l, x.outcome = .ok l → ∃ l', y.outcome = .ok l' ∧ l.Perm l'

theorem SameElements.refl (x : Logged (List β)) : x.SameElements x :=
  fun l h => ⟨l, h, .refl l⟩

theorem SameElements.trans {x y z : Logged (List β)} (hxy : x.SameElements y) (hyz : y.SameElements z) :
    x.SameElements z := by
  intro l h
  obtain ⟨l', h', hperm⟩ := hxy l h
  obtain ⟨l'', h'', hperm'⟩ := hyz l' h'
  exact ⟨l'', h'', hperm.trans hperm'⟩

theorem SameElements.congr {x x' y y' : Logged (List β)} (h : x'.SameElements y') (hx : x.outcome = x'.outcome)
    (hy : y.outcome = y'.outcome) : x.SameElements y := by
  rwa [SameElements, hx, hy]

theorem SameElements.append {x x' y y' : Logged (List β)} (hx : x.SameElements x') (hy : y.SameElements y') :
    (do let l ← x; let l' ← y; return l ++ l' : Logged (List β)).SameElements do
      let l ← x'; let l' ← y'; return l ++ l' := by
  intro l h
  obtain ⟨l₁, h₁, h⟩ := bind_eq_ok.1 h
  obtain ⟨l₂, h₂, h⟩ := bind_eq_ok.1 h
  cases h
  obtain ⟨l₁', h₁', hperm₁⟩ := hx l₁ h₁
  obtain ⟨l₂', h₂', hperm₂⟩ := hy l₂ h₂
  exact ⟨l₁' ++ l₂', bind_eq_ok.2 ⟨l₁', h₁', bind_eq_ok.2 ⟨l₂', h₂', rfl⟩⟩, hperm₁.append hperm₂⟩

theorem gather_cons (f : α → Logged (List β)) (a : α) (as : List α) :
    gather f (a :: as) = do
      let first ← f a
      let others ← gather f as
      return first ++ others := rfl

/-- Gathering from parts that return the same elements. -/
theorem gather_sameElements {f f' : α → Logged (List β)} {as : List α}
    (h : ∀ a ∈ as, (f a).SameElements (f' a)) : (gather f as).SameElements (gather f' as) := by
  induction as with
  | nil => exact .refl _
  | cons a as ih =>
    obtain ⟨hfirst, hothers⟩ := List.forall_mem_cons.1 h
    rw [gather_cons, gather_cons]
    exact hfirst.append (ih hothers)

/-- Gathering in another order. -/
theorem gather_perm {f : α → Logged (List β)} {as as' : List α} (h : as.Perm as') :
    (gather f as).SameElements (gather f as') := by
  induction h with
  | nil => exact .refl _
  | cons a _ ih =>
    rw [gather_cons, gather_cons]
    exact (SameElements.refl (f a)).append ih
  | swap a b as =>
    intro l h
    obtain ⟨lb, l', hb, h', rfl⟩ := gather_cons_eq_ok.1 h
    obtain ⟨la, others, ha, hothers, rfl⟩ := gather_cons_eq_ok.1 h'
    refine ⟨la ++ (lb ++ others), ?_, ?_⟩
    · exact gather_cons_eq_ok.2 ⟨la, _, ha, gather_cons_eq_ok.2 ⟨lb, others, hb, hothers, rfl⟩, rfl⟩
    · rw [← List.append_assoc, ← List.append_assoc]
      exact List.perm_append_comm.append_right others
  | trans _ _ ih₁ ih₂ => exact ih₁.trans ih₂

theorem gather_map {γ : Type} (f : β → Logged (List γ)) (g : α → β) (as : List α) :
    gather f (as.map g) = gather (fun a => f (g a)) as := by
  induction as with
  | nil => rfl
  | cons a as ih => rw [List.map_cons, gather_cons, ih, gather_cons]

end CommandTrace.Logged
