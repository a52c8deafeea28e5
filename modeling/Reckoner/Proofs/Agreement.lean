import Reckoner.Evaluation
import Reckoner.Validity

/-!
# Checking agrees with evaluation

What `Expr.check` says of a tree without data is what evaluation says of it over any
data, up to the faults that only data can cause.

## Key results

- `Foretells.bind`: verdicts on two steps make a verdict on both
- `Expr.foretells_checkNode`: the check of an expression foretells its evaluation
- `Expr.check_agrees_evalFirst`: the same for programs over data, and what follows
-/

namespace Reckoner

/-! ## Faults of the data -/

/-- The faults that depend on the data, or on numbers computed from them. -/
def Fault.OfData : Fault → Prop
  | unknownVariable .. => True
  | notANumber _ => True
  | divisionByZero => True
  | _ => False

namespace Data

/-- A walk along a path fails with a fault of data only. -/
private theorem ofData_of_descend {path : String} {d : Data} {segments : List String}
    {fault : Fault} (h : d.descend path segments = .error fault) : fault.OfData := by
  -- The walk fails at the first segment that leads nowhere, wherever that is
  induction segments generalizing d with
  | nil => cases h
  | cons segment segments ih =>
    rw [descend] at h
    cases hchild : d.child? segment with
    | none =>
      simp only [hchild] at h
      cases h
      trivial
    | some child =>
      simp only [hchild] at h
      exact ih h

/-- Data answer a path with a number or with a fault of the data. -/
theorem ofData_of_numberAt {d : Data} {path : String} {fault : Fault}
    (h : d.numberAt path = .error fault) : fault.OfData := by
  rw [numberAt] at h
  cases hend : d.descend path (Path.segments path) with
  | error other =>
    simp only [hend] at h
    cases h
    exact ofData_of_descend hend
  | ok child =>
    simp only [hend] at h
    -- At the end of the walk only children are a fault
    cases child with
    | number value => cases h
    | children entries =>
      cases h
      trivial

end Data

/-! ## Verdicts -/

/-- A verdict foretells an outcome: they agree but for the value, or the outcome is a fault
    of the data. -/
inductive Foretells {α : Type} : Except Fault Unit → Except Fault α → Prop where
  | ok (value : α) : Foretells (.ok ()) (.ok value)
  | error (fault : Fault) : Foretells (.error fault) (.error fault)
  | data (verdict : Except Fault Unit) {fault : Fault} (hfault : fault.OfData) :
    Foretells verdict (.error fault)

namespace Foretells

variable {α β : Type} {verdict : Except Fault Unit} {outcome : Except Fault α}

/-- A verdict on a first step and one on the step behind it make a verdict on both.  A
    fault of the data in the first step cuts off whatever the second verdict says. -/
theorem bind (h : Foretells verdict outcome) {check : Unit → Except Fault Unit}
    {next : α → Except Fault β}
    (hnext : ∀ value, outcome = .ok value → Foretells (check ()) (next value)) :
    Foretells (verdict.bind check) (outcome.bind next) := by
  -- A fault of the data stands for any later one of the data, so what comes behind it is free
  cases h with
  | ok value => exact hnext value rfl
  | error fault => exact .error fault
  | data _ hfault => exact .data _ hfault

/-- What is made of the value is of no concern to the verdict. -/
theorem map (h : Foretells verdict outcome) (f : α → β) :
    Foretells verdict (outcome.map f) := by
  cases h with
  | ok value => exact .ok (f value)
  | error fault => exact .error fault
  | data _ hfault => exact .data _ hfault

/-- What a verdict foretells, in terms of outcomes alone. -/
private theorem data_or_eq_map (h : Foretells verdict outcome) :
    (∃ fault, fault.OfData ∧ outcome = .error fault) ∨
      verdict = outcome.map fun _ => () := by
  cases h with
  | ok value => exact .inr rfl
  | error fault => exact .inr rfl
  | data _ hfault => exact .inl ⟨_, hfault, rfl⟩

variable {fault : Fault}

/-- Behind a favourable verdict only the data are at fault. -/
theorem ofData (h : Foretells (.ok ()) (.error fault : Except Fault α)) : fault.OfData := by
  cases h with
  | data _ hfault => exact hfault

/-- Behind an unfavourable verdict there is no value. -/
theorem ne_ok (h : Foretells (.error fault) outcome) (value : α) : outcome ≠ .ok value := by
  rintro rfl
  cases h

/-- A fault that is not of the data is in the verdict. -/
theorem eq_error (h : Foretells verdict (.error fault : Except Fault α))
    (hfault : ¬ fault.OfData) : verdict = .error fault := by
  cases h with
  | error _ => rfl
  | data _ hdata => exact absurd hdata hfault

end Foretells

/-! ## Operators -/

namespace Operator

/-- The operator that a name calls has that name. -/
theorem name_of_named {name : String} {operator : Operator} (h : named name = .ok operator) :
    operator.name = name := by
  unfold named at h
  split at h
  · rename_i found hfound
    cases h
    simpa using List.find?_some hfound
  · cases h

/-- An operator has a result for two numbers, unless it divides by zero. -/
private theorem foretells_compute (operator : Operator) (x y : Float) :
    Foretells (.ok ()) (operator.compute x y) := by
  cases operator with
  | add => exact .ok _
  | subtract => exact .ok _
  | multiply => exact .ok _
  | divide =>
    show Foretells (.ok ()) (if y == 0 then .error .divisionByZero else .ok (x / y))
    -- The divisor is not known to a check, so its fault counts as one of data
    split
    · have hfault : Fault.divisionByZero.OfData := trivial
      exact .data _ hfault
    · exact .ok _

/-- Without the numbers, their count foretells whether an operator has a result. -/
private theorem foretells_apply (operator : Operator) (args : List Float) :
    Foretells
      (if args.length = arity then .ok ()
        else .error (.arityMismatch operator.name arity args.length))
      (operator.apply args) := by
  -- Either both count two arguments, or both refuse their number
  by_cases hlength : args.length = arity
  · obtain ⟨x, y, rfl⟩ : ∃ x y, args = [x, y] := by
      match args, hlength with
      | [x, y], _ => exact ⟨x, y, rfl⟩
    rw [if_pos hlength]
    exact operator.foretells_compute x y
  · rw [if_neg hlength]
    unfold apply
    split
    · exact absurd rfl hlength
    · exact .error _

end Operator

/-! ## Expressions -/

namespace Expr

variable (context : Context)

/-- The outcome of a call: the arguments come first, then the name, then the operator. -/
theorem outcome_eval_call (name : String) (args : List Expr) :
    (eval context (call name args)).outcome =
      (evalAll context args).outcome.bind fun values =>
        (Operator.named name).bind fun operator => operator.apply values := by
  rw [eval, Traced.outcome_bind]
  -- The events between the stages have no part in the outcome
  congr 1
  funext values
  rw [Traced.outcome_bind, Traced.outcome_lift]
  congr 1
  funext operator
  rw [Traced.outcome_bind, Traced.outcome_lift]
  cases operator.apply values with
  | error fault => rfl
  | ok result => rfl

/-- The outcome of a row of expressions, from left to right. -/
theorem outcome_evalAll_cons (e : Expr) (es : List Expr) :
    (evalAll context (e :: es)).outcome =
      (e.eval context).outcome.bind fun value =>
        (evalAll context es).outcome.map (value :: ·) := by
  rw [evalAll, Traced.outcome_bind]
  congr 1
  funext value
  rw [Traced.outcome_bind]
  cases (evalAll context es).outcome with
  | error fault => rfl
  | ok values => rfl

variable {context}

/-- Evaluating a row of expressions gives one value for each. -/
private theorem length_of_evalAll_eq_ok {es : List Expr} {values : List Float}
    (h : (evalAll context es).outcome = .ok values) : values.length = es.length := by
  induction es generalizing values with
  | nil =>
    cases h
    rfl
  | cons e es ih =>
    rw [outcome_evalAll_cons] at h
    -- A row has values only if its first expression and the others have
    cases hvalue : (e.eval context).outcome with
    | error fault =>
      rw [hvalue] at h
      cases h
    | ok value =>
      cases hvalues : (evalAll context es).outcome with
      | error fault =>
        rw [hvalue, hvalues] at h
        cases h
      | ok others =>
        rw [hvalue, hvalues] at h
        cases h
        rw [List.length_cons, List.length_cons, ih hvalues]

/-- The checks of a row of expressions foretell their evaluations. -/
theorem foretells_checkNodes {es : List Expr}
    (hes : ∀ e ∈ es, Foretells e.checkNode (e.eval context).outcome) :
    Foretells (checkNodes es) (evalAll context es).outcome := by
  induction es with
  | nil => exact .ok []
  | cons e es ih =>
    obtain ⟨he, hes⟩ := List.forall_mem_cons.mp hes
    rw [outcome_evalAll_cons, checkNodes]
    -- Both go from left to right and end at the first fault they meet
    apply he.bind
    intro value _
    exact (ih hes).map _

/-- Checking an expression foretells its evaluation over every context that fails with
    faults of the data only. -/
theorem foretells_checkNode
    (hcontext : ∀ path fault, context path = .error fault → fault.OfData) (e : Expr) :
    Foretells e.checkNode (e.eval context).outcome := by
  induction e using Expr.induction with
  | literal value => exact .ok _
  | path dotted =>
    show Foretells (.ok ()) (context dotted)
    cases hanswer : context dotted with
    | error fault => exact .data _ (hcontext dotted fault hanswer)
    | ok value => exact .ok value
  | call name args ih =>
    rw [outcome_eval_call, checkNode]
    apply (foretells_checkNodes ih).bind
    intro values hvalues
    have hlength : values.length = args.length := length_of_evalAll_eq_ok hvalues
    cases hnamed : Operator.named name with
    | error fault => exact .error fault
    | ok operator =>
      -- Evaluation counts the values and names the operator, the check counts the
      -- arguments and names the call.
      have happly := operator.foretells_apply values
      rw [hlength, Operator.name_of_named hnamed] at happly
      exact happly
  | program body _ => exact .error _

/-- Expressions behind the first have no part in the outcome. -/
theorem outcome_evalFirst_program (first : Expr) (others : List Expr) :
    (evalFirst context (program (first :: others))).outcome = (first.eval context).outcome := by
  cases others with
  | nil => rfl
  | cons other others =>
    -- The event that notes them comes before the value and fails nowhere
    rw [evalFirst, Traced.outcome_bind]
    · rfl
    · intro h
      cases h

/-- Checking a tree foretells its evaluation as a program. -/
theorem foretells_check
    (hcontext : ∀ path fault, context path = .error fault → fault.OfData) (e : Expr) :
    Foretells e.check (e.evalFirst context).outcome := by
  -- Only a program is checked by its first expression
  cases e with
  | program body =>
    cases body with
    | nil => exact .error .emptyProgram
    | cons first others =>
      rw [outcome_evalFirst_program]
      exact foretells_checkNode hcontext first
  | literal value => exact foretells_checkNode hcontext _
  | path dotted => exact foretells_checkNode hcontext _
  | call name args => exact foretells_checkNode hcontext _

/-- Over all data and for all trees, evaluation either ends with a fault of the data or
    comes out as the check says, with the same fault if there is one.  So a checked tree
    has no other faults than those of the data, a refused one never has a value, and every
    other fault of evaluation is the one the check finds. -/
theorem check_agrees_evalFirst (d : Data) (e : Expr) :
    ((∃ fault, fault.OfData ∧ (e.evalFirst d.numberAt).outcome = .error fault) ∨
        e.check = (e.evalFirst d.numberAt).outcome.map fun _ => ()) ∧
      (e.check = .ok () →
        ∀ fault, (e.evalFirst d.numberAt).outcome = .error fault → fault.OfData) ∧
      (∀ fault, e.check = .error fault →
        ∀ value, (e.evalFirst d.numberAt).outcome ≠ .ok value) ∧
      ∀ fault, ¬ fault.OfData →
        (e.evalFirst d.numberAt).outcome = .error fault → e.check = .error fault := by
  have h : Foretells e.check (e.evalFirst d.numberAt).outcome :=
    foretells_check (fun _ _ => Data.ofData_of_numberAt) e
  -- All parts are read off one relation between the two outcomes
  refine ⟨h.data_or_eq_map, ?_, ?_, ?_⟩
  · intro hcheck fault hfault
    rw [hcheck, hfault] at h
    exact h.ofData
  · intro fault hcheck
    rw [hcheck] at h
    exact h.ne_ok
  · intro fault hdata hfault
    rw [hfault] at h
    exact h.eq_error hdata

/-- A path that leads nowhere passes the check, and an unknown function is found by both
    before the path beside it would be. -/
theorem check_agrees_evalFirst_of_empty :
    (Fault.unknownVariable "a" "a").OfData ∧
      (∀ value, (evalFirst Data.empty.numberAt (call "Sum" [])).outcome ≠ .ok value) ∧
      check (program [call "Add" [call "Sum" [], path "a"]]) = .error (.unknownFunction "Sum") :=
  ⟨(check_agrees_evalFirst Data.empty (program [path "a"])).2.1 rfl _ rfl,
    (check_agrees_evalFirst Data.empty (call "Sum" [])).2.2.1 _ rfl,
    (check_agrees_evalFirst Data.empty _).2.2.2 _ id rfl⟩

end Expr

end Reckoner
