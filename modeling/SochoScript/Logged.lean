import SochoScript.Event

/-!
# Outcomes with a log

A `Logged` computation ends with a value or a failure, and in both cases it has
told something on the way.  Running one computation after another joins their
events in order, and a failure keeps the events that came before it.

The log never has an influence on the outcome: `outcome_bind` says that the
outcome of a sequence is that of the sequence of outcomes, so whatever concerns
values and failures only can be read without the events.
-/

namespace SochoScript

/-- A value or a failure, and the events on the way to it. -/
structure Logged (ε α : Type) where
  events : List Event
  outcome : Except ε α

namespace Logged

variable {ε ε' α β : Type}

/-- What is done with a value after it was found. -/
protected def bind (m : Logged ε α) (f : α → Logged ε β) : Logged ε β :=
  match m.outcome with
  | .ok a => ⟨m.events ++ (f a).events, (f a).outcome⟩
  | .error e => ⟨m.events, .error e⟩

instance : Monad (Logged ε) where
  pure a := ⟨[], .ok a⟩
  bind := Logged.bind

/-- Tells one event. -/
def tell (event : Event) : Logged ε Unit := ⟨[event], .ok ()⟩

/-- An outcome without events. -/
def ofExcept (outcome : Except ε α) : Logged ε α := ⟨[], outcome⟩

/-- A failure without events. -/
def fail (e : ε) : Logged ε α := ⟨[], .error e⟩

/-- The same events, with another account of the failure. -/
def mapFailure (f : ε → ε') (m : Logged ε α) : Logged ε' α :=
  ⟨m.events, m.outcome.mapError f⟩

@[simp] theorem events_pure (a : α) : (pure a : Logged ε α).events = [] := rfl

@[simp] theorem outcome_pure (a : α) : (pure a : Logged ε α).outcome = .ok a := rfl

@[simp] theorem outcome_tell (event : Event) :
    (tell event : Logged ε Unit).outcome = .ok () := rfl

@[simp] theorem events_tell (event : Event) :
    (tell event : Logged ε Unit).events = [event] := rfl

@[simp] theorem outcome_ofExcept (o : Except ε α) : (ofExcept o).outcome = o := rfl

@[simp] theorem events_ofExcept (o : Except ε α) : (ofExcept o).events = [] := rfl

/-- **The log has no influence.**  The outcome of a sequence is that of the
sequence of outcomes. -/
@[simp] theorem outcome_bind (m : Logged ε α) (f : α → Logged ε β) :
    (m >>= f).outcome = m.outcome >>= fun a => (f a).outcome := by
  change (Logged.bind m f).outcome = _
  unfold Logged.bind
  cases m.outcome <;> rfl

/-- After a value the events of what follows are joined. -/
theorem events_bind_ok {m : Logged ε α} {a : α} (h : m.outcome = .ok a) (f : α → Logged ε β) :
    (m >>= f).events = m.events ++ (f a).events := by
  change (Logged.bind m f).events = _
  simp [Logged.bind, h]

/-- A failure keeps the events that came before it. -/
theorem events_bind_error {m : Logged ε α} {e : ε} (h : m.outcome = .error e)
    (f : α → Logged ε β) : (m >>= f).events = m.events := by
  change (Logged.bind m f).events = _
  simp [Logged.bind, h]

end Logged

end SochoScript
