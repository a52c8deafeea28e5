import Reckoner.Proofs.EvaluationSteps
import Reckoner.Proofs.PostOrder

/-!
# What a run asks of its context

A run depends on its context by the answers to the paths that it asks for, and by nothing
else.  A refused path is the end of the run.

## Key results

- `Expr.eval_eq_of_asked`: contexts that answer alike what is asked make one run of evaluation
- `Expr.Visits.outcome_of_refused`: a path that is refused ends the run with its fault
- `Formula.evaluate_eq_of_evalFirst`: evaluating a formula is evaluating its program
- `Formula.evaluate_reads_what_it_asks`: contexts that a formula cannot tell apart
-/

namespace Reckoner

namespace Traced

variable {α β : Type} {run run' : Traced α} {next next' : α → Traced β} {path : String}

/-- Two runs one after the other are the same if both are, the second at the value of the
    first. -/
theorem bind_eq_bind (hrun : run' = run)
    (hnext : ∀ value, run.outcome = .ok value → next' value = next value) :
    run' >>= next' = run >>= next := by
  subst hrun
  cases houtcome : run'.outcome with
  | error fault => rw [bind_of_error houtcome, bind_of_error houtcome]
  | ok value => rw [bind_of_ok houtcome, bind_of_ok houtcome, hnext value houtcome]

/-- What the first of two runs asks for is asked for. -/
private theorem mem_askedPaths_bind_left (h : path ∈ run.askedPaths) (next : α → Traced β) :
    path ∈ (run >>= next).askedPaths := by
  cases houtcome : run.outcome with
  | error fault => rwa [askedPaths_bind_of_error houtcome]
  | ok value =>
    rw [askedPaths_bind_of_ok houtcome]
    exact List.mem_append_left _ h

/-- What the second of two runs asks for is asked for, if it is reached. -/
private theorem mem_askedPaths_bind_right {value : α} (houtcome : run.outcome = .ok value)
    (h : path ∈ (next value).askedPaths) : path ∈ (run >>= next).askedPaths := by
  rw [askedPaths_bind_of_ok houtcome]
  exact List.mem_append_right _ h

end Traced

namespace Expr

variable {context other : Context}

/-! ## Contexts that answer alike -/

/-- A row is evaluated alike over contexts that answer alike what it asks for. -/
theorem evalAll_eq_of_asked {es : List Expr}
    (hes : ∀ e ∈ es, (∀ path ∈ (e.eval context).askedPaths, other path = context path) →
      e.eval other = e.eval context)
    (h : ∀ path ∈ (evalAll context es).askedPaths, other path = context path) :
    evalAll other es = evalAll context es := by
  induction es with
  | nil => rfl
  | cons e es ih =>
    obtain ⟨he, hes⟩ := List.forall_mem_cons.mp hes
    rw [evalAll] at h
    rw [evalAll, evalAll]
    apply Traced.bind_eq_bind
    · apply he
      intro path hpath
      exact h path (Traced.mem_askedPaths_bind_left hpath _)
    · intro value hvalue
      -- The other expressions are reached, so what they ask for is among what is asked for
      have hrest : evalAll other es = evalAll context es := by
        apply ih hes
        intro path hpath
        apply h
        exact Traced.mem_askedPaths_bind_right hvalue (Traced.mem_askedPaths_bind_left hpath _)
      rw [hrest]

/-- Contexts that answer alike what is asked for make the same run, event by event. -/
theorem eval_eq_of_asked {e : Expr}
    (h : ∀ path ∈ (e.eval context).askedPaths, other path = context path) :
    e.eval other = e.eval context := by
  -- The arguments ask in the same run, so the contexts agree on what each of them asks for
  induction e using Expr.induction with
  | literal value => rfl
  | path dotted =>
    have hanswer : other dotted = context dotted := h dotted List.mem_cons_self
    rw [eval, eval, ask, ask, hanswer]
  | call name args ih =>
    rw [eval_call] at h
    rw [eval_call, eval_call]
    apply Traced.bind_eq_bind
    · apply evalAll_eq_of_asked ih
      intro path hpath
      exact h path (Traced.mem_askedPaths_bind_left hpath _)
    · intro values _
      rfl
  | program body _ => rfl

/-- Of several expressions, those behind the first are only noted. -/
theorem evalFirst_cons_cons (context : Context) (first next : Expr) (others : List Expr) :
    evalFirst context (program (first :: next :: others)) =
      Traced.emit (.ignoring (next :: others).length) >>= fun _ => first.eval context := rfl

/-- A program is evaluated alike over contexts that answer alike what it asks for. -/
theorem evalFirst_eq_of_asked {first : Expr} {others : List Expr}
    (h : ∀ path ∈ (evalFirst context (program (first :: others))).askedPaths,
      other path = context path) :
    evalFirst other (program (first :: others)) =
      evalFirst context (program (first :: others)) := by
  cases others with
  | nil => exact eval_eq_of_asked h
  | cons next others =>
    rw [evalFirst_cons_cons] at h
    rw [evalFirst_cons_cons, evalFirst_cons_cons]
    -- That the others are ignored is an event that asks for nothing
    apply Traced.bind_eq_bind rfl
    intro _ _
    apply eval_eq_of_asked
    intro path hpath
    exact h path (Traced.mem_askedPaths_bind_right rfl hpath)

/-! ## Paths that are asked for -/

/-- The paths of nodes are those that are nodes themselves. -/
theorem mem_paths_iff {nodes : List Expr} {dotted : String} :
    dotted ∈ paths nodes ↔ path dotted ∈ nodes := by
  rw [paths, List.mem_filterMap]
  constructor
  · rintro ⟨node, hnode, hpath⟩
    cases node with
    | path other =>
      obtain rfl := Option.some.inj hpath
      exact hnode
    | _ => exact nomatch hpath
  · intro h
    exact ⟨path dotted, h, rfl⟩

namespace Visits

variable {α : Type} {nodes : List Expr} {run : Traced α} {dotted : String}

/-- Only the paths of the nodes are asked for. -/
theorem mem_paths_of_asked (h : Visits context nodes run) (hasked : dotted ∈ run.askedPaths) :
    dotted ∈ paths nodes := by
  cases h with
  | through value _ _ hpaths => rwa [← hpaths]
  -- A run that fails has asked for the paths up to the node that fails
  | @upTo before after node fault hnodes _ _ _ hpaths =>
    rw [hpaths] at hasked
    rw [hnodes, List.append_cons, paths_append]
    exact List.mem_append_left _ hasked

/-- A path that is asked for and refused ends the run, with the fault that refused it. -/
theorem outcome_of_refused (h : Visits context nodes run) (hasked : dotted ∈ run.askedPaths)
    {fault : Fault} (hrefused : context dotted = .error fault) : run.outcome = .error fault := by
  have hfails : Fails context (path dotted) fault := .path hrefused
  -- The path is a node of its own, which is not sound, so the run ends no later than there
  cases h with
  | through value hsound _ hpaths =>
    rw [hpaths, mem_paths_iff] at hasked
    exact absurd (hsound _ hasked) hfails.not_sound
  | @upTo before after node other hnodes hsound hnode houtcome hpaths =>
    rw [hpaths, mem_paths_iff, List.mem_append, List.mem_singleton] at hasked
    rcases hasked with hbefore | rfl
    · exact absurd (hsound _ hbefore) hfails.not_sound
    · rw [houtcome, hnode.unique hfails]

end Visits

end Expr

/-! ## Formulas -/

namespace Formula

variable {limit : Nat} {formula : String} {context other : Context}

/-- Scanning and reading a formula asks for nothing, so evaluating it depends on the context
    as evaluating its program does. -/
theorem evaluate_eq_of_evalFirst
    (h : ∀ first others, (parse limit formula).outcome = .ok (.program (first :: others)) →
      Expr.evalFirst other (.program (first :: others)) =
        Expr.evalFirst context (.program (first :: others))) :
    evaluate limit other formula = evaluate limit context formula := by
  rw [evaluate, evaluate]
  apply Traced.bind_eq_bind rfl
  intro e hparse
  -- Only a program is parsed, and an empty one reads no context
  have hprogram : e.evalFirst other = e.evalFirst context := by
    obtain ⟨-, body, -, -, rfl⟩ := outcome_parse_eq_ok_iff.mp hparse
    cases body with
    | nil => rfl
    | cons first others => exact h first others hparse
  rw [hprogram]

/-- A formula asks for what its program asks for. -/
theorem askedPaths_evaluate {e : Expr} (h : (parse limit formula).outcome = .ok e) :
    (evaluate limit context formula).askedPaths = (e.evalFirst context).askedPaths :=
  Traced.askedPaths_eq_of_steps (steps_evaluate h)

/-- Only the first expression of a formula asks for anything. -/
private theorem exists_first_of_asked {path : String}
    (h : path ∈ (evaluate limit context formula).askedPaths) :
    ∃ first others, (parse limit formula).outcome = .ok (.program (first :: others)) ∧
      path ∈ (Expr.evalFirst context (.program (first :: others))).askedPaths := by
  -- Without a program, or without an expression in it, nothing is asked for
  cases hparse : (parse limit formula).outcome with
  | error fault =>
    rw [evaluate, Traced.askedPaths_bind_of_error hparse, askedPaths_parse] at h
    exact absurd h List.not_mem_nil
  | ok e =>
    rw [askedPaths_evaluate hparse] at h
    obtain ⟨-, body, -, -, rfl⟩ := outcome_parse_eq_ok_iff.mp hparse
    cases body with
    | nil => exact absurd h List.not_mem_nil
    | cons first others => exact ⟨first, others, rfl, h⟩

/-- A context that answers the paths alike that evaluating a formula over another asked for
    makes one run of it. -/
theorem evaluate_eq_of_asked
    (h : ∀ path ∈ (evaluate limit context formula).askedPaths, other path = context path) :
    evaluate limit other formula = evaluate limit context formula := by
  apply evaluate_eq_of_evalFirst
  intro first others hparse
  apply Expr.evalFirst_eq_of_asked
  intro path hasked
  apply h
  rwa [askedPaths_evaluate hparse]

/-- A context that answers alike every path that evaluating a formula over another asked for
    makes the same run: the formula has the same value or fails with the same fault, and the
    same paths are asked for in the same order.  All of them occur in the first expression of
    the formula. -/
theorem evaluate_reads_what_it_asks (limit : Nat) (formula : String) (context : Context) :
    (∀ other : Context,
      (∀ path ∈ (evaluate limit context formula).askedPaths, other path = context path) →
      (evaluate limit other formula).outcome = (evaluate limit context formula).outcome ∧
        (evaluate limit other formula).askedPaths =
          (evaluate limit context formula).askedPaths) ∧
    ∀ path ∈ (evaluate limit context formula).askedPaths,
      ∃ first others, (parse limit formula).outcome = .ok (.program (first :: others)) ∧
        path ∈ Expr.paths first.postorder := by
  constructor
  · intro other h
    rw [evaluate_eq_of_asked h]
    exact ⟨rfl, rfl⟩
  · intro path hasked
    obtain ⟨first, others, hparse, hasked⟩ := exists_first_of_asked hasked
    exact ⟨first, others, hparse, (Expr.visits_evalFirst first others).mem_paths_of_asked hasked⟩

/-- Behind a refused path neither the path beside it nor another expression is asked for, so
    contexts may answer there as they like. -/
theorem evaluate_reads_what_it_asks_refused :
    let context : Context := fun path => if path = "a" then .error (.notANumber "a") else .ok 1
    let other : Context := fun path => if path = "a" then .error (.notANumber "a") else .ok 2
    (∀ path ∈ (evaluate 1 context "Add(a, b) b").askedPaths, other path = context path) ∧
      (evaluate 1 other "Add(a, b) b").outcome = .error (.notANumber "a") ∧
      (evaluate 1 other "Add(a, b) b").askedPaths = ["a"] := by
  intro context other
  -- The first argument fails, so the value at `b`, where the contexts differ, is never asked for
  have houtcome : (evaluate 1 context "Add(a, b) b").outcome = .error (.notANumber "a") := by
    decide +kernel
  have hasked : (evaluate 1 context "Add(a, b) b").askedPaths = ["a"] := by decide +kernel
  have halike : ∀ path ∈ (evaluate 1 context "Add(a, b) b").askedPaths,
      other path = context path := by
    intro path hpath
    rw [hasked, List.mem_singleton] at hpath
    simp only [context, other, if_pos hpath]
  obtain ⟨hsame, hsamePaths⟩ :=
    (evaluate_reads_what_it_asks 1 "Add(a, b) b" context).1 other halike
  exact ⟨halike, hsame.trans houtcome, hsamePaths.trans hasked⟩

end Formula

end Reckoner
