import Reckoner.Proofs.FormulaStages

/-!
# Steps of evaluation

A run over a formula asks its context for paths and applies operators only while it evaluates
an expression.  Scanning, reading and whatever is noted of their results are no such steps, so
the steps of a formula are those of its first expression.

## Key results

- `Traced.askedPaths_eq_of_steps`: runs that take the same steps ask for the same paths
- `Expr.ofEvaluation_eval`: evaluating takes steps of evaluation only
- `Formula.steps_parse`: scanning and reading take none
- `Formula.steps_evaluate`: the steps of a formula are those of its program
-/

namespace Reckoner

/-- A step of evaluating an expression. -/
def Event.OfEvaluation : Event → Prop
  | .asked .. => True
  | .applied .. => True
  | _ => False

instance : DecidablePred Event.OfEvaluation
  | .asked .. => isTrue trivial
  | .applied .. => isTrue trivial
  | .token _ => isFalse id
  | .tokenized .. => isFalse id
  | .parsed _ => isFalse id
  | .ignoring _ => isFalse id
  | .evaluated .. => isFalse id
  | .invalid .. => isFalse id

namespace Traced

variable {α β : Type} {run : Traced α} {next : α → Traced β}

/-- The steps of a run that evaluate expressions. -/
def steps (run : Traced α) : List Event :=
  run.events.filter Event.OfEvaluation

/-- The steps of two runs are those of the first and then those of the second. -/
private theorem steps_bind_of_ok {value : α} (h : run.outcome = .ok value) :
    (run >>= next).steps = run.steps ++ (next value).steps := by
  rw [bind_of_ok h]
  exact List.filter_append ..

/-- The other events of a run ask for nothing. -/
private theorem askedPaths_steps (run : Traced α) :
    askedPaths ⟨run.steps, run.outcome⟩ = run.askedPaths := by
  simp only [askedPaths, steps, List.filterMap_filter]
  congr 1
  funext event
  cases event <;> rfl

/-- Runs that take the same steps ask for the same paths. -/
theorem askedPaths_eq_of_steps {run' : Traced β} (h : run'.steps = run.steps) :
    run'.askedPaths = run.askedPaths := by
  rw [← askedPaths_steps run', ← askedPaths_steps run]
  simp only [askedPaths, h]

/-- What holds of the events of two runs holds of the events of both. -/
private theorem forall_mem_events_bind {p : Event → Prop} (hrun : ∀ event ∈ run.events, p event)
    (hnext : ∀ value, ∀ event ∈ (next value).events, p event) :
    ∀ event ∈ (run >>= next).events, p event := by
  -- A run that fails keeps its own events and nothing more
  cases houtcome : run.outcome with
  | error fault =>
    rw [bind_of_error houtcome]
    exact hrun
  | ok value =>
    rw [bind_of_ok houtcome]
    exact List.forall_mem_append.mpr ⟨hrun, hnext value⟩

end Traced

namespace Expr

variable (context : Context)

/-- A row takes steps of evaluation only, if its expressions do. -/
private theorem ofEvaluation_evalAll {es : List Expr}
    (hes : ∀ e ∈ es, ∀ event ∈ (e.eval context).events, event.OfEvaluation) :
    ∀ event ∈ (evalAll context es).events, event.OfEvaluation := by
  induction es with
  | nil => exact fun _ h => absurd h List.not_mem_nil
  | cons e es ih =>
    obtain ⟨he, hes⟩ := List.forall_mem_cons.mp hes
    rw [evalAll]
    refine Traced.forall_mem_events_bind he fun value => ?_
    exact Traced.forall_mem_events_bind (ih hes) fun values _ h => absurd h List.not_mem_nil

/-- Evaluating an expression takes steps of evaluation only. -/
theorem ofEvaluation_eval (e : Expr) : ∀ event ∈ (e.eval context).events, event.OfEvaluation := by
  induction e using Expr.induction with
  | literal value => exact fun _ h => absurd h List.not_mem_nil
  | path dotted => exact List.forall_mem_singleton.mpr trivial
  | call name args ih =>
    -- The arguments, the operator, its result, and then the event that it was applied
    rw [eval]
    refine Traced.forall_mem_events_bind (ofEvaluation_evalAll context ih) fun values => ?_
    refine Traced.forall_mem_events_bind (fun _ h => absurd h List.not_mem_nil) fun operator => ?_
    refine Traced.forall_mem_events_bind (fun _ h => absurd h List.not_mem_nil) fun result => ?_
    exact Traced.forall_mem_events_bind (List.forall_mem_singleton.mpr trivial)
      fun _ _ h => absurd h List.not_mem_nil
  | program body _ => exact fun _ h => absurd h List.not_mem_nil

/-- The steps of evaluating a program are those of its first expression. -/
theorem steps_evalFirst_program (first : Expr) (others : List Expr) :
    (evalFirst context (program (first :: others))).steps = (first.eval context).events := by
  have hfirst : (first.eval context).steps = (first.eval context).events := by
    refine List.filter_eq_self.mpr fun event hevent => ?_
    exact decide_eq_true (ofEvaluation_eval context first event hevent)
  -- That others are ignored is an event, but no step of evaluation
  cases others with
  | nil => exact hfirst
  | cons other others =>
    rw [evalFirst, Traced.steps_bind_of_ok (Traced.outcome_emit _)]
    · exact hfirst
    · intro h
      cases h

end Expr

namespace Formula

variable {limit : Nat} {formula : String} {context : Context}

/-- Scanning takes no step of evaluation. -/
private theorem not_ofEvaluation_tokens (formula : String) :
    ∀ event ∈ (tokens formula).events, ¬ event.OfEvaluation := by
  have hmade : ∀ event ∈ (Token.leading (Token.scan formula)).map Event.token,
      ¬ event.OfEvaluation := by
    intro event hevent
    obtain ⟨t, -, rfl⟩ := List.mem_map.mp hevent
    exact id
  -- Only if there is no fault the number of tokens is told, too
  cases hcollect : Token.collect (Token.scan formula) with
  | error fault =>
    simp only [tokens, hcollect]
    exact hmade
  | ok ts =>
    have htokenized : ¬ (Event.tokenized formula ts.length).OfEvaluation := id
    simp only [tokens, hcollect]
    exact List.forall_mem_append.mpr ⟨hmade, List.forall_mem_singleton.mpr htokenized⟩

/-- Scanning and reading a formula evaluates nothing. -/
theorem steps_parse (limit : Nat) (formula : String) : (parse limit formula).steps = [] := by
  have hevents : ∀ event ∈ (parse limit formula).events, ¬ event.OfEvaluation := by
    -- Tokens first, then the reading without events, then the record of the program
    refine Traced.forall_mem_events_bind (not_ofEvaluation_tokens formula) fun ts => ?_
    refine Traced.forall_mem_events_bind (fun _ h => absurd h List.not_mem_nil) fun body => ?_
    exact Traced.forall_mem_events_bind (List.forall_mem_singleton.mpr id)
      fun _ _ h => absurd h List.not_mem_nil
  refine List.filter_eq_nil_iff.mpr fun event hevent => ?_
  rw [decide_eq_true_eq]
  exact hevents event hevent

/-- Scanning and reading a formula asks for nothing. -/
theorem askedPaths_parse (limit : Nat) (formula : String) :
    (parse limit formula).askedPaths = [] := by
  rw [← Traced.askedPaths_steps, steps_parse]
  rfl

/-- The steps of evaluating a formula are those of evaluating its program. -/
theorem steps_evaluate {e : Expr} (h : (parse limit formula).outcome = .ok e) :
    (evaluate limit context formula).steps = (e.evalFirst context).steps := by
  rw [evaluate, Traced.steps_bind_of_ok h, steps_parse, List.nil_append]
  cases hvalue : (e.evalFirst context).outcome with
  | error fault =>
    rw [Traced.bind_of_error hvalue]
    rfl
  | ok value =>
    -- That the formula was evaluated is noted last, and evaluates nothing itself
    rw [Traced.steps_bind_of_ok hvalue]
    exact List.append_nil _

end Formula

end Reckoner
