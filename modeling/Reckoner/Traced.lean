import Reckoner.Fault

/-!
# Traced runs

What a run over a formula did, step by step, and how it ended.

* `Event` is one step of a run.
* `Traced` is a run: its events and its outcome.
* `bind_of_ok` and `bind_of_error` say how runs are put one after the other: a run
  that fails is the end of the whole.
-/

namespace Reckoner

/-- A step of a run over a formula. -/
inductive Event where
  /-- A token was made. -/
  | token (token : Token)
  /-- The whole formula was scanned into so many tokens. -/
  | tokenized (formula : String) (count : Nat)
  /-- The tokens were read as so many expressions. -/
  | parsed (count : Nat)
  /-- So many expressions behind the first are left out. -/
  | ignoring (count : Nat)
  /-- The context was asked for a path and answered. -/
  | asked (path : String) (answer : Except Fault Float)
  /-- An operator was applied. -/
  | applied (name : String) (args : List Float) (result : Float)
  /-- The formula was evaluated. -/
  | evaluated (formula : String) (value : Float)
  /-- The formula was found invalid. -/
  | invalid (formula : String) (fault : Fault)

/-- A run: what it did, and its value or the fault that ended it. -/
structure Traced (α : Type) where
  events : List Event
  outcome : Except Fault α

namespace Traced

variable {α β : Type}

/-- A run that does nothing and has an outcome. -/
def lift (outcome : Except Fault α) : Traced α :=
  ⟨[], outcome⟩

/-- A run of one event. -/
def emit (event : Event) : Traced Unit :=
  ⟨[event], .ok ()⟩

/-- One run after the other, the second with the value of the first. -/
def andThen (run : Traced α) (next : α → Traced β) : Traced β :=
  match run.outcome with
  -- The events up to a fault are kept.
  | .error fault => ⟨run.events, .error fault⟩
  | .ok value =>
    let rest := next value
    ⟨run.events ++ rest.events, rest.outcome⟩

instance : Monad Traced where
  pure value := lift (.ok value)
  bind := andThen

@[simp] theorem outcome_lift (outcome : Except Fault α) : (lift outcome).outcome = outcome := rfl

@[simp] theorem outcome_emit (event : Event) : (emit event).outcome = .ok () := rfl

/-- A run that has a value goes on with the next. -/
theorem bind_of_ok {run : Traced α} {value : α} (h : run.outcome = .ok value)
    (next : α → Traced β) :
    run >>= next = ⟨run.events ++ (next value).events, (next value).outcome⟩ := by
  change run.andThen next = _
  simp only [andThen, h]

/-- A run that fails is the end of the whole. -/
theorem bind_of_error {run : Traced α} {fault : Fault} (h : run.outcome = .error fault)
    (next : α → Traced β) : run >>= next = ⟨run.events, .error fault⟩ := by
  change run.andThen next = _
  simp only [andThen, h]

/-- The outcome of two runs is that of the first, and then that of the second. -/
theorem outcome_bind (run : Traced α) (next : α → Traced β) :
    (run >>= next).outcome = run.outcome.bind fun value => (next value).outcome := by
  cases h : run.outcome with
  | error fault => rw [bind_of_error h]; rfl
  | ok value => rw [bind_of_ok h]; rfl

/-- A run with an event added where it fails. -/
def onFault (run : Traced α) (event : Fault → Event) : Traced α :=
  match run.outcome with
  | .error fault => ⟨run.events ++ [event fault], .error fault⟩
  | .ok value => ⟨run.events, .ok value⟩

@[simp] theorem outcome_onFault (run : Traced α) (event : Fault → Event) :
    (run.onFault event).outcome = run.outcome := by
  unfold onFault
  split <;> simp_all

/-- The paths that a run asked for, in order. -/
def askedPaths (run : Traced α) : List String :=
  run.events.filterMap fun
    | .asked path _ => some path
    | _ => none

end Traced

end Reckoner
