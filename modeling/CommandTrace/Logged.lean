/-
Computations that report events and may fail.

What was reported before a fault is kept, so the log of a run shows how far a
file got. The result never depends on the log: `outcome_bind` and
`events_bind` take the two apart.
-/
import CommandTrace.Event
import CommandTrace.Fault

namespace CommandTrace

structure Logged (α : Type) where
  events : List Event
  outcome : Except Fault α

namespace Logged

variable {α β : Type}

protected def pure (a : α) : Logged α :=
  ⟨[], .ok a⟩

protected def bind (x : Logged α) (f : α → Logged β) : Logged β :=
  match x.outcome with
  | .ok a => ⟨x.events ++ (f a).events, (f a).outcome⟩
  | .error fault => ⟨x.events, .error fault⟩

instance : Monad Logged where
  pure := Logged.pure
  bind := Logged.bind

def report (event : Event) : Logged Unit :=
  ⟨[event], .ok ()⟩

def ofExcept (x : Except Fault α) : Logged α :=
  ⟨[], x⟩

instance : MonadLift (Except Fault) Logged := ⟨ofExcept⟩

/-- The same events, with a fault handed on as a value. -/
def attempt (x : Logged α) : Logged (Except Fault α) :=
  ⟨x.events, .ok x.outcome⟩

/-- What `f` gives for each element in turn, put together. -/
def gather (f : α → Logged (List β)) : List α → Logged (List β)
  | [] => pure []
  | a :: as => do
    let first ← f a
    let others ← gather f as
    return first ++ others

theorem outcome_pure (a : α) : (pure a : Logged α).outcome = .ok a := rfl

theorem events_pure (a : α) : (pure a : Logged α).events = [] := rfl

theorem outcome_bind (x : Logged α) (f : α → Logged β) :
    (x >>= f).outcome = x.outcome.bind fun a => (f a).outcome := by
  show (Logged.bind x f).outcome = _
  cases h : x.outcome <;> simp [Logged.bind, h, Except.bind]

theorem events_bind (x : Logged α) (f : α → Logged β) :
    (x >>= f).events = x.events ++ match x.outcome with
      | .ok a => (f a).events
      | .error _ => [] := by
  show (Logged.bind x f).events = _
  cases h : x.outcome <;> simp [Logged.bind, h]

end Logged

end CommandTrace
