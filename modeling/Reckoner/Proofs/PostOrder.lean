import Mathlib.Data.List.Forall2
import Reckoner.Proofs.Agreement
import Reckoner.Proofs.SignedZero

/-!
# Evaluation in post-order

What an expression is worth and where it fails, node by node and without a run:
`Expr.HasValue` and `Expr.Fails`.  A run goes through the nodes of an expression in
post-order, arguments from left to right before their call, and the first node that fails
ends it.

## Key results

- `Expr.outcome_eval_eq_ok_iff`: evaluation gives the value of an expression, if it has one
- `Expr.Visits.bind`: runs one after the other go through their nodes one after the other
- `Expr.visits_eval`: evaluation goes through the nodes of an expression in post-order
- `Expr.evalFirst_postorder`: what follows for programs
-/

namespace Reckoner

/-! ## Operators -/

/-- Zero of either sign. -/
def IsZero (x : Float) : Prop :=
  x = 0 ∨ x = -0

namespace Operator

/-- What an operator makes of two numbers by the arithmetic of binary64. -/
def arithmetic : Operator → Float → Float → Float
  | add, x, y => x + y
  | subtract, x, y => x - y
  | multiply, x, y => x * y
  | divide, x, y => x / y

/-- The names by which operators are called. -/
def names : List String :=
  all.map name

theorem name_mem_names (operator : Operator) : operator.name ∈ names := by
  cases operator <;> decide

theorem named_name (operator : Operator) : named operator.name = .ok operator := by
  cases operator <;> rfl

/-- A name that calls no operator is unknown. -/
theorem named_eq_error_iff {name : String} {fault : Fault} :
    named name = .error fault ↔ name ∉ names ∧ fault = .unknownFunction name := by
  constructor
  · intro h
    -- A known name leads to its operator, so it makes no fault
    refine ⟨fun hmem => ?_, ?_⟩
    · obtain ⟨operator, -, rfl⟩ := List.mem_map.mp hmem
      rw [named_name] at h
      exact nomatch h
    · unfold named at h
      split at h
      · exact nomatch h
      · exact (Except.error.inj h).symm
  · rintro ⟨hmem, rfl⟩
    cases h : named name with
    | ok operator => exact absurd (name_of_named h ▸ operator.name_mem_names) hmem
    | error fault =>
      unfold named at h
      split at h
      · exact nomatch h
      · exact h.symm

/-- Two numbers have a result unless they are divided and the second is a zero. -/
private theorem compute_eq_ok_iff {operator : Operator} {x y z : Float} :
    operator.compute x y = .ok z ↔
      (operator = divide → ¬ IsZero y) ∧ z = operator.arithmetic x y := by
  -- Division alone looks at its divisor
  cases operator with
  | divide =>
    show (if y == 0 then .error Fault.divisionByZero else .ok (x / y)) = Except.ok z ↔ _
    by_cases hzero : (y == 0) = true
    · simp [hzero, IsZero, (float_beq_zero_iff y).mp hzero]
    · have : ¬ IsZero y := fun h => hzero ((float_beq_zero_iff y).mpr h)
      simp [hzero, this, arithmetic, eq_comm]
  | _ => simp [compute, arithmetic, eq_comm]

/-- Only a division by a zero is refused. -/
private theorem compute_eq_error_iff {operator : Operator} {x y : Float} {fault : Fault} :
    operator.compute x y = .error fault ↔
      operator = divide ∧ IsZero y ∧ fault = .divisionByZero := by
  cases operator with
  | divide =>
    show (if y == 0 then .error Fault.divisionByZero else .ok (x / y)) = Except.error fault ↔ _
    by_cases hzero : (y == 0) = true
    · simp [hzero, IsZero, (float_beq_zero_iff y).mp hzero, eq_comm]
    · have : ¬ IsZero y := fun h => hzero ((float_beq_zero_iff y).mpr h)
      simp [hzero, this]
  | _ => simp [compute]

end Operator

namespace Expr

variable {context : Context}

/-! ## Values and faults of nodes -/

/-- The value of an expression, composed of the results of its operators. -/
inductive HasValue (context : Context) : Expr → Float → Prop where
  | literal (value : Int) : HasValue context (.literal value) (Float.ofInt value)
  | path {dotted : String} {x : Float} (hanswer : context dotted = .ok x) :
    HasValue context (.path dotted) x
  | call (operator : Operator) {a b : Expr} {x y : Float} (ha : HasValue context a x)
    (hb : HasValue context b y) (hzero : operator = .divide → ¬ IsZero y) :
    HasValue context (.call operator.name [a, b]) (operator.arithmetic x y)

/-- A node fails by itself, its arguments having values. -/
inductive Fails (context : Context) : Expr → Fault → Prop where
  | path {dotted : String} {fault : Fault} (hanswer : context dotted = .error fault) :
    Fails context (.path dotted) fault
  | unknownFunction {name : String} {args : List Expr}
    (hargs : ∀ e ∈ args, ∃ x, HasValue context e x) (hname : name ∉ Operator.names) :
    Fails context (.call name args) (.unknownFunction name)
  | arityMismatch {name : String} {args : List Expr}
    (hargs : ∀ e ∈ args, ∃ x, HasValue context e x) (hname : name ∈ Operator.names)
    (hlength : args.length ≠ 2) :
    Fails context (.call name args) (.arityMismatch name 2 args.length)
  | divisionByZero {a b : Expr} {x y : Float} (ha : HasValue context a x)
    (hb : HasValue context b y) (hzero : IsZero y) :
    Fails context (.call Operator.divide.name [a, b]) .divisionByZero
  | unknownNode (body : List Expr) : Fails context (.program body) (.unknownNode "Program")

/-- A node that does not fail by itself. -/
def Sound (context : Context) (node : Expr) : Prop :=
  ∀ fault, ¬ Fails context node fault

/-! ## Nodes in post-order -/

mutual

/-- The nodes of an expression, those of the arguments of a call from left to right before
    the call.  A program inside counts as a node without parts. -/
def postorder : Expr → List Expr
  | literal value => [literal value]
  | path dotted => [path dotted]
  | call name args => postorders args ++ [call name args]
  | program body => [program body]

/-- The nodes of a row of expressions. -/
def postorders : List Expr → List Expr
  | [] => []
  | e :: es => e.postorder ++ postorders es

end

theorem mem_postorder_self (e : Expr) : e ∈ e.postorder := by
  cases e <;> simp [postorder]

/-- The nodes of a row are those of its expressions. -/
private theorem mem_postorders_iff {es : List Expr} {node : Expr} :
    node ∈ postorders es ↔ ∃ e ∈ es, node ∈ e.postorder := by
  induction es with
  | nil => simp [postorders]
  | cons e es ih => rw [postorders, List.mem_append, ih, List.exists_mem_cons_iff]

/-- What stands in an argument stands in the call. -/
theorem mem_postorder_call {name : String} {args : List Expr} {arg node : Expr}
    (harg : arg ∈ args) (hnode : node ∈ arg.postorder) : node ∈ (call name args).postorder := by
  rw [postorder]
  exact List.mem_append_left _ (mem_postorders_iff.mpr ⟨arg, harg, hnode⟩)

/-- What the arguments of a call take over from it holds of all nodes of a tree that has it. -/
theorem forall_mem_postorder {p : Expr → Prop}
    (hargs : ∀ name args, p (call name args) → ∀ arg ∈ args, p arg) {e : Expr} (he : p e) :
    ∀ node ∈ e.postorder, p node := by
  induction e using Expr.induction with
  | literal value => exact List.forall_mem_singleton.mpr he
  | path dotted => exact List.forall_mem_singleton.mpr he
  | call name args ih =>
    intro node hnode
    rw [postorder, List.mem_append, mem_postorders_iff, List.mem_singleton] at hnode
    -- A node of a call is a node of an argument, or the call itself
    rcases hnode with ⟨arg, harg, hnode⟩ | rfl
    · exact ih arg harg (hargs name args he arg harg) node hnode
    · exact he
  | program body _ => exact List.forall_mem_singleton.mpr he

/-- The paths among nodes. -/
def paths (nodes : List Expr) : List String :=
  nodes.filterMap fun
    | path dotted => some dotted
    | _ => none

@[simp] theorem paths_append (nodes others : List Expr) :
    paths (nodes ++ others) = paths nodes ++ paths others :=
  List.filterMap_append

end Expr

/-! ## The paths that runs ask for -/

namespace Traced

variable {α β : Type}

/-- Two runs ask for what the first asks for, and then for what the second does. -/
theorem askedPaths_bind_of_ok {run : Traced α} {value : α} (h : run.outcome = .ok value)
    (next : α → Traced β) :
    (run >>= next).askedPaths = run.askedPaths ++ (next value).askedPaths := by
  rw [bind_of_ok h]
  exact List.filterMap_append

/-- Where the first run fails nothing more is asked for. -/
theorem askedPaths_bind_of_error {run : Traced α} {fault : Fault}
    (h : run.outcome = .error fault) (next : α → Traced β) :
    (run >>= next).askedPaths = run.askedPaths := by
  rw [bind_of_error h]
  rfl

/-- Behind a run that asks for nothing only the next asks. -/
private theorem askedPaths_lift_bind (outcome : Except Fault α) {next : α → Traced β}
    (hnext : ∀ value, (next value).askedPaths = []) : (lift outcome >>= next).askedPaths = [] := by
  cases outcome with
  | error fault => rfl
  | ok value => exact hnext value

end Traced

namespace Expr

variable {context : Context}

/-! ## Values -/

/-- A row of expressions has the values of its expressions. -/
private theorem outcome_evalAll_eq_ok_iff_of {es : List Expr} {values : List Float}
    (hes : ∀ e ∈ es, ∀ x, (e.eval context).outcome = .ok x ↔ HasValue context e x) :
    (evalAll context es).outcome = .ok values ↔ List.Forall₂ (HasValue context) es values := by
  -- The induction is on the row; that its expressions are evaluated rightly is given
  induction es generalizing values with
  | nil =>
    show Except.ok [] = Except.ok values ↔ _
    rw [Except.ok.injEq, List.forall₂_nil_left_iff, eq_comm]
  | cons e es ih =>
    obtain ⟨he, hes⟩ := List.forall_mem_cons.mp hes
    rw [outcome_evalAll_cons, List.forall₂_cons_left_iff]
    constructor
    · intro h
      cases hx : (e.eval context).outcome with
      | error fault =>
        rw [hx] at h
        exact nomatch h
      | ok x =>
        cases hxs : (evalAll context es).outcome with
        | error fault =>
          rw [hx, hxs] at h
          exact nomatch h
        | ok xs =>
          rw [hx, hxs] at h
          exact ⟨x, xs, (he x).mp hx, (ih hes).mp hxs, (Except.ok.inj h).symm⟩
    · rintro ⟨x, xs, hx, hxs, rfl⟩
      rw [(he x).mpr hx, (ih hes).mpr hxs]
      rfl

/-- Expressions that have values have a row of values. -/
private theorem exists_forall₂_hasValue {es : List Expr}
    (hes : ∀ e ∈ es, ∃ x, HasValue context e x) :
    ∃ values, List.Forall₂ (HasValue context) es values := by
  induction es with
  | nil => exact ⟨[], .nil⟩
  | cons e es ih =>
    obtain ⟨⟨x, hx⟩, hes⟩ := List.forall_mem_cons.mp hes
    obtain ⟨values, hvalues⟩ := ih hes
    exact ⟨x :: values, .cons hx hvalues⟩

/-- Expressions that have these values in a row have a value each. -/
private theorem exists_of_forall₂_hasValue {es : List Expr} {values : List Float}
    (h : List.Forall₂ (HasValue context) es values) : ∀ e ∈ es, ∃ x, HasValue context e x := by
  induction h with
  | nil => exact fun e he => absurd he List.not_mem_nil
  | cons hx _ ih => exact List.forall_mem_cons.mpr ⟨⟨_, hx⟩, ih⟩

/-- Two values are those of two arguments. -/
private theorem exists_pair_of_forall₂_hasValue {es : List Expr} {x y : Float}
    (h : List.Forall₂ (HasValue context) es [x, y]) :
    ∃ a b, es = [a, b] ∧ HasValue context a x ∧ HasValue context b y := by
  obtain ⟨a, rest, ha, hrest, rfl⟩ := List.forall₂_cons_right_iff.mp h
  obtain ⟨b, none, hb, hnone, rfl⟩ := List.forall₂_cons_right_iff.mp hrest
  obtain rfl := List.forall₂_nil_right_iff.mp hnone
  exact ⟨a, b, rfl, ha, hb⟩

/-- What comes out of a call once its arguments have values. -/
def callOutcome (name : String) (values : List Float) : Except Fault Float :=
  (Operator.named name).bind fun operator => operator.apply values

/-- A call has a value for two arguments that its operator takes. -/
theorem callOutcome_eq_ok_iff {name : String} {values : List Float} {z : Float} :
    callOutcome name values = .ok z ↔
      ∃ operator x y, Operator.name operator = name ∧ values = [x, y] ∧
        (operator = .divide → ¬ IsZero y) ∧ z = operator.arithmetic x y := by
  constructor
  · intro h
    unfold callOutcome at h
    -- The name is looked up, the arguments are counted, and only then the operator computes
    cases hnamed : Operator.named name with
    | error fault =>
      rw [hnamed] at h
      exact nomatch h
    | ok operator =>
      rw [hnamed] at h
      have happly : operator.apply values = .ok z := h
      unfold Operator.apply at happly
      split at happly
      · rename_i x y
        obtain ⟨hzero, hz⟩ := Operator.compute_eq_ok_iff.mp happly
        exact ⟨operator, x, y, Operator.name_of_named hnamed, rfl, hzero, hz⟩
      · exact nomatch happly
  · rintro ⟨operator, x, y, rfl, rfl, hzero, hz⟩
    rw [callOutcome, Operator.named_name]
    exact Operator.compute_eq_ok_iff.mpr ⟨hzero, hz⟩

/-- A call fails for its name, else for the number of its arguments, else for a divisor
    that is a zero. -/
theorem callOutcome_eq_error_iff {name : String} {values : List Float} {fault : Fault} :
    callOutcome name values = .error fault ↔
      name ∉ Operator.names ∧ fault = .unknownFunction name ∨
      name ∈ Operator.names ∧ values.length ≠ 2 ∧
        fault = .arityMismatch name 2 values.length ∨
      ∃ x y, name = Operator.divide.name ∧ values = [x, y] ∧ IsZero y ∧
        fault = .divisionByZero := by
  constructor
  · intro h
    unfold callOutcome at h
    -- One disjunct for each of the three things that are looked at, in their order
    cases hnamed : Operator.named name with
    | error other =>
      rw [hnamed] at h
      obtain rfl : other = fault := Except.error.inj h
      exact .inl (Operator.named_eq_error_iff.mp hnamed)
    | ok operator =>
      rw [hnamed] at h
      have happly : operator.apply values = .error fault := h
      obtain rfl := Operator.name_of_named hnamed
      unfold Operator.apply at happly
      split at happly
      · rename_i x y
        obtain ⟨rfl, hzero, rfl⟩ := Operator.compute_eq_error_iff.mp happly
        exact .inr (.inr ⟨x, y, rfl, rfl, hzero, rfl⟩)
      · rename_i hpair
        refine .inr (.inl ⟨operator.name_mem_names, fun hlength => ?_, ?_⟩)
        · match values, hlength with
          | [x, y], _ => exact hpair x y rfl
        · exact (Except.error.inj happly).symm
  · rintro (⟨hname, rfl⟩ | ⟨hname, hlength, rfl⟩ | ⟨x, y, rfl, rfl, hzero, rfl⟩)
    · rw [callOutcome, Operator.named_eq_error_iff.mpr ⟨hname, rfl⟩]
      rfl
    · obtain ⟨operator, -, rfl⟩ := List.mem_map.mp hname
      rw [callOutcome, Operator.named_name]
      show operator.apply values = _
      unfold Operator.apply
      split
      · exact absurd rfl hlength
      · rfl
    · rw [callOutcome, Operator.named_name]
      exact Operator.compute_eq_error_iff.mpr ⟨rfl, hzero, rfl⟩

/-- Evaluation gives the value of an expression. -/
theorem outcome_eval_eq_ok_iff {e : Expr} {x : Float} :
    (e.eval context).outcome = .ok x ↔ HasValue context e x := by
  induction e using Expr.induction generalizing x with
  | literal value =>
    show Except.ok (Float.ofInt value) = Except.ok x ↔ _
    constructor
    · rintro ⟨⟩
      exact .literal value
    · rintro ⟨⟩
      rfl
  | path dotted =>
    show context dotted = .ok x ↔ _
    constructor
    · exact .path
    · intro h
      cases h with
      | path hanswer => exact hanswer
  | call name args ih =>
    -- The arguments are evaluated as a row, for which the hypotheses are those of the induction
    have hargs : ∀ values, (evalAll context args).outcome = .ok values ↔
        List.Forall₂ (HasValue context) args values :=
      fun values => outcome_evalAll_eq_ok_iff_of fun e he x => ih e he
    rw [outcome_eval_call]
    constructor
    · intro h
      cases hvalues : (evalAll context args).outcome with
      | error fault =>
        rw [hvalues] at h
        exact nomatch h
      | ok values =>
        rw [hvalues] at h
        obtain ⟨operator, y, z, rfl, rfl, hzero, rfl⟩ := callOutcome_eq_ok_iff.mp h
        obtain ⟨a, b, rfl, ha, hb⟩ := exists_pair_of_forall₂_hasValue ((hargs _).mp hvalues)
        exact .call operator ha hb hzero
    · intro h
      cases h with
      | @call operator a b y z ha hb hzero =>
        rw [(hargs [y, z]).mpr (.cons ha (.cons hb .nil))]
        exact callOutcome_eq_ok_iff.mpr ⟨operator, y, z, rfl, rfl, hzero, rfl⟩
  | program body _ =>
    constructor
    · exact nofun
    · exact nofun

/-- Evaluating a row gives the values of its expressions. -/
theorem outcome_evalAll_eq_ok_iff {es : List Expr} {values : List Float} :
    (evalAll context es).outcome = .ok values ↔ List.Forall₂ (HasValue context) es values :=
  outcome_evalAll_eq_ok_iff_of fun _ _ _ => outcome_eval_eq_ok_iff

/-! ## Faults -/

/-- A call fails by itself where its arguments have values and nothing is made of them. -/
theorem fails_call_iff {name : String} {args : List Expr} {fault : Fault} :
    Fails context (.call name args) fault ↔
      ∃ values, (evalAll context args).outcome = .ok values ∧
        callOutcome name values = .error fault := by
  simp only [outcome_evalAll_eq_ok_iff, callOutcome_eq_error_iff]
  -- Both sides have the values of all arguments, and the three faults of a call behind them
  constructor
  · intro h
    cases h with
    | unknownFunction hargs hname =>
      obtain ⟨values, hvalues⟩ := exists_forall₂_hasValue hargs
      exact ⟨values, hvalues, .inl ⟨hname, rfl⟩⟩
    | arityMismatch hargs hname hlength =>
      obtain ⟨values, hvalues⟩ := exists_forall₂_hasValue hargs
      rw [hvalues.length_eq] at hlength ⊢
      exact ⟨values, hvalues, .inr (.inl ⟨hname, hlength, rfl⟩)⟩
    | @divisionByZero a b x y ha hb hzero =>
      exact ⟨[x, y], .cons ha (.cons hb .nil), .inr (.inr ⟨x, y, rfl, rfl, hzero, rfl⟩)⟩
  · rintro ⟨values, hvalues, hcall⟩
    have hargs := exists_of_forall₂_hasValue hvalues
    rcases hcall with ⟨hname, rfl⟩ | ⟨hname, hlength, rfl⟩ | ⟨x, y, rfl, rfl, hzero, rfl⟩
    · exact .unknownFunction hargs hname
    · rw [← hvalues.length_eq] at hlength ⊢
      exact .arityMismatch hargs hname hlength
    · obtain ⟨a, b, rfl, ha, hb⟩ := exists_pair_of_forall₂_hasValue hvalues
      exact .divisionByZero ha hb hzero

/-- A node that fails has its fault as outcome. -/
private theorem Fails.outcome_eval {e : Expr} {fault : Fault} (h : Fails context e fault) :
    (e.eval context).outcome = .error fault := by
  -- A literal does not fail, and a call fails by itself only with the values of its arguments
  cases e with
  | literal value => exact nomatch h
  | path dotted =>
    cases h with
    | path hanswer => exact hanswer
  | call name args =>
    obtain ⟨values, hvalues, hcall⟩ := fails_call_iff.mp h
    rw [outcome_eval_call, hvalues]
    exact hcall
  | program body =>
    cases h
    rfl

/-- A node fails in one way only. -/
theorem Fails.unique {e : Expr} {fault other : Fault} (h : Fails context e fault)
    (hother : Fails context e other) : fault = other :=
  Except.error.inj (h.outcome_eval.symm.trans hother.outcome_eval)

/-- A node that has a value does not fail. -/
theorem HasValue.sound {e : Expr} {x : Float} (h : HasValue context e x) : Sound context e := by
  intro fault hfails
  exact nomatch (outcome_eval_eq_ok_iff.mpr h).symm.trans hfails.outcome_eval

/-! ## Runs through nodes -/

/-- A run goes through nodes in order.  It has a value if none of them fails; else it ends
    at the first that does, with its fault.  Either way it asks for the paths that it
    meets. -/
inductive Visits (context : Context) {α : Type} (nodes : List Expr) (run : Traced α) :
    Prop where
  | through (value : α) (hsound : ∀ node ∈ nodes, Sound context node)
    (houtcome : run.outcome = .ok value) (hasked : run.askedPaths = paths nodes) :
    Visits context nodes run
  | upTo {before after : List Expr} {node : Expr} {fault : Fault}
    (hnodes : nodes = before ++ node :: after) (hsound : ∀ n ∈ before, Sound context n)
    (hfails : Fails context node fault) (houtcome : run.outcome = .error fault)
    (hasked : run.askedPaths = paths (before ++ [node])) : Visits context nodes run

namespace Visits

variable {α β : Type} {nodes others : List Expr} {run : Traced α} {next : α → Traced β}

/-- A run that asks for nothing and has a value goes through no nodes. -/
theorem pure (value : α) : Visits context [] (pure value : Traced α) :=
  .through value (fun _ h => absurd h List.not_mem_nil) rfl rfl

/-- A run goes through a single node if it fails where the node does. -/
theorem single {node : Expr} (hok : ∀ value, run.outcome = .ok value → Sound context node)
    (herror : ∀ fault, run.outcome = .error fault → Fails context node fault)
    (hasked : run.askedPaths = paths [node]) : Visits context [node] run := by
  -- A run of one node gets past it or fails at it
  cases houtcome : run.outcome with
  | ok value =>
    exact .through value (List.forall_mem_singleton.mpr (hok value houtcome)) houtcome hasked
  | error fault =>
    have hnodes : [node] = [] ++ node :: [] := rfl
    exact .upTo hnodes (fun _ h => absurd h List.not_mem_nil) (herror fault houtcome) houtcome
      hasked

/-- One run after the other goes through the nodes of both, one after the other. -/
theorem bind (h : Visits context nodes run)
    (hnext : ∀ value, run.outcome = .ok value → Visits context others (next value)) :
    Visits context (nodes ++ others) (run >>= next) := by
  cases h with
  | through value hsound houtcome hasked =>
    have hrun : (run >>= next).outcome = (next value).outcome := by
      rw [Traced.outcome_bind, houtcome]
      rfl
    have hpaths : (run >>= next).askedPaths = paths nodes ++ (next value).askedPaths := by
      rw [Traced.askedPaths_bind_of_ok houtcome, hasked]
    -- Behind the first run all depends on the second
    cases hnext value houtcome with
    | through result hsound' houtcome' hasked' =>
      refine .through result (List.forall_mem_append.mpr ⟨hsound, hsound'⟩)
        (hrun.trans houtcome') ?_
      rw [hpaths, hasked', paths_append]
    | @upTo before after node fault hnodes hsound' hfails houtcome' hasked' =>
      have hall : nodes ++ others = (nodes ++ before) ++ node :: after := by
        rw [hnodes, List.append_assoc]
      refine .upTo hall (List.forall_mem_append.mpr ⟨hsound, hsound'⟩) hfails
        (hrun.trans houtcome') ?_
      rw [hpaths, hasked', List.append_assoc, paths_append nodes]
  | @upTo before after node fault hnodes hsound hfails houtcome hasked =>
    -- The others are not reached
    have hall : nodes ++ others = before ++ node :: (after ++ others) := by
      rw [hnodes, List.append_assoc, List.cons_append]
    refine .upTo hall hsound hfails ?_ ?_
    · rw [Traced.outcome_bind, houtcome]
      rfl
    · rw [Traced.askedPaths_bind_of_error houtcome, hasked]

/-- A run that only goes on with what was there goes through no further nodes. -/
theorem map (h : Visits context nodes run) (f : α → β) :
    Visits context nodes (run >>= fun value => (Pure.pure (f value) : Traced β)) := by
  rw [← List.append_nil nodes]
  exact h.bind fun value _ => pure (f value)

end Visits

/-! ## Evaluation goes through nodes in post-order -/

/-- What a call does once its arguments have values. -/
def callRun (name : String) (values : List Float) : Traced Float := do
  let operator ← Traced.lift (Operator.named name)
  let result ← Traced.lift (operator.apply values)
  Traced.emit (.applied name values result)
  pure result

theorem eval_call (name : String) (args : List Expr) :
    eval context (call name args) = evalAll context args >>= callRun name := by
  rw [eval]
  rfl

/-- What a call comes to once its arguments have values. -/
theorem outcome_callRun (name : String) (values : List Float) :
    (callRun name values).outcome = callOutcome name values := by
  rw [callRun, callOutcome]
  -- The record of the result carries no value
  cases Operator.named name with
  | error fault => rfl
  | ok operator =>
    show (Traced.lift (operator.apply values) >>= _).outcome = operator.apply values
    cases operator.apply values with
    | error fault => rfl
    | ok result => rfl

/-- Looking up a name and applying an operator ask for nothing. -/
private theorem askedPaths_callRun (name : String) (values : List Float) :
    (callRun name values).askedPaths = [] :=
  Traced.askedPaths_lift_bind _ fun _ => Traced.askedPaths_lift_bind _ fun _ => rfl

/-- Evaluating a row goes through the nodes of its expressions. -/
theorem visits_evalAll {es : List Expr}
    (hes : ∀ e ∈ es, Visits context e.postorder (e.eval context)) :
    Visits context (postorders es) (evalAll context es) := by
  induction es with
  | nil => exact .pure []
  | cons e es ih =>
    -- The nodes of the first argument come before those of the others
    obtain ⟨he, hes⟩ := List.forall_mem_cons.mp hes
    rw [evalAll, postorders]
    exact he.bind fun value _ => (ih hes).map (value :: ·)

/-- Evaluation goes through the nodes of an expression in post-order. -/
theorem visits_eval (e : Expr) : Visits context e.postorder (e.eval context) := by
  induction e using Expr.induction with
  | literal value => exact .single (fun _ _ => (HasValue.literal value).sound) nofun rfl
  | path dotted =>
    exact .single (fun x hx => (HasValue.path (x := x) hx).sound) (fun _ hx => .path hx) rfl
  | call name args ih =>
    -- The call itself is the one node behind those of its arguments
    rw [postorder, eval_call]
    refine (visits_evalAll ih).bind fun values hvalues => .single ?_ ?_ ?_
    · intro x hx
      have hcall : (eval context (call name args)).outcome = .ok x := by
        rw [outcome_eval_call, hvalues]
        exact (outcome_callRun name values).symm.trans hx
      exact (outcome_eval_eq_ok_iff.mp hcall).sound
    · intro fault hfault
      exact fails_call_iff.mpr ⟨values, hvalues, (outcome_callRun name values).symm.trans hfault⟩
    · exact askedPaths_callRun name values
  | program body _ => exact .single nofun (fun _ h => Except.error.inj h ▸ .unknownNode body) rfl

/-! ## Programs -/

/-- There is only one first node that fails. -/
private theorem first_fails_unique {before before' after after' : List Expr} {node node' : Expr}
    (h : before ++ node :: after = before' ++ node' :: after')
    (hbefore : ∀ n ∈ before, Sound context n) (hbefore' : ∀ n ∈ before', Sound context n)
    (hnode : ¬ Sound context node) (hnode' : ¬ Sound context node') :
    before = before' ∧ node = node' := by
  induction before generalizing before' with
  | nil =>
    cases before' with
    | nil => exact ⟨rfl, (List.cons.inj h).1⟩
    | cons n before' =>
      -- The first node would be among those that do not fail
      obtain rfl : node = n := (List.cons.inj h).1
      exact absurd (hbefore' node List.mem_cons_self) hnode
  | cons n before ih =>
    cases before' with
    | nil =>
      obtain rfl : n = node' := (List.cons.inj h).1
      exact absurd (hbefore n List.mem_cons_self) hnode'
    | cons n' before' =>
      obtain ⟨rfl, htail⟩ := List.cons.inj h
      obtain ⟨rfl, rfl⟩ := ih htail (List.forall_mem_cons.mp hbefore).2
        (List.forall_mem_cons.mp hbefore').2
      exact ⟨rfl, rfl⟩

theorem Fails.not_sound {node : Expr} {fault : Fault} (h : Fails context node fault) :
    ¬ Sound context node :=
  fun hsound => hsound fault h

namespace Visits

variable {α : Type} {nodes : List Expr} {run : Traced α}

/-- A run through nodes has a value exactly if none of them fails. -/
theorem exists_ok_iff (h : Visits context nodes run) :
    (∃ value, run.outcome = .ok value) ↔ ∀ node ∈ nodes, Sound context node := by
  cases h with
  | through value hsound houtcome hasked => exact ⟨fun _ => hsound, fun _ => ⟨value, houtcome⟩⟩
  | @upTo before after node fault hnodes hsound hfails houtcome hasked =>
    constructor
    · rintro ⟨value, hvalue⟩
      exact nomatch houtcome.symm.trans hvalue
    · intro hall
      -- The node that ended the run is among the nodes, and it is not sound
      have hmem : node ∈ nodes := by
        rw [hnodes]
        exact List.mem_append_right _ List.mem_cons_self
      exact absurd (hall node hmem) hfails.not_sound

/-- Through nodes of which none fails a run asks for all their paths. -/
private theorem askedPaths_of_sound (h : Visits context nodes run)
    (hall : ∀ node ∈ nodes, Sound context node) : run.askedPaths = paths nodes := by
  obtain ⟨value, hvalue⟩ := h.exists_ok_iff.mpr hall
  cases h with
  | through _ _ _ hasked => exact hasked
  | upTo _ _ _ houtcome _ => exact nomatch houtcome.symm.trans hvalue

/-- The first node that fails ends the run with its fault, and no path behind it is asked
    for. -/
private theorem of_first_fails (h : Visits context nodes run) {before after : List Expr}
    {node : Expr} {fault : Fault} (hnodes : nodes = before ++ node :: after)
    (hbefore : ∀ n ∈ before, Sound context n) (hfails : Fails context node fault) :
    run.outcome = .error fault ∧ run.askedPaths = paths (before ++ [node]) := by
  cases h with
  | through value hsound houtcome hasked =>
    have hmem : node ∈ nodes := by
      rw [hnodes]
      exact List.mem_append_right _ List.mem_cons_self
    exact absurd (hsound node hmem) hfails.not_sound
  | upTo hnodes' hsound hfails' houtcome hasked =>
    -- Both fronts are sound and both nodes behind them are not, so they are the same
    obtain ⟨rfl, rfl⟩ := first_fails_unique (hnodes.symm.trans hnodes') hbefore hsound
      hfails.not_sound hfails'.not_sound
    obtain rfl := hfails.unique hfails'
    exact ⟨houtcome, hasked⟩

/-- A run that fails does so at the first node that fails. -/
theorem error_iff (h : Visits context nodes run) (fault : Fault) :
    run.outcome = .error fault ↔
      ∃ before node after, nodes = before ++ node :: after ∧
        (∀ n ∈ before, Sound context n) ∧ Fails context node fault := by
  constructor
  · intro hfault
    -- A run that got through all nodes has a value and no fault
    cases h with
    | through value _ houtcome _ => exact nomatch houtcome.symm.trans hfault
    | @upTo before after node _ hnodes hsound hfails houtcome _ =>
      obtain rfl : _ = fault := Except.error.inj (houtcome.symm.trans hfault)
      exact ⟨before, node, after, hnodes, hsound, hfails⟩
  · rintro ⟨before, node, after, hnodes, hsound, hfails⟩
    exact (h.of_first_fails hnodes hsound hfails).1

end Visits

/-- Evaluating a program goes through the nodes of its first expression. -/
theorem visits_evalFirst (first : Expr) (others : List Expr) :
    Visits context first.postorder (evalFirst context (program (first :: others))) := by
  cases others with
  | nil => exact visits_eval first
  | cons other others =>
    -- That there are others is noted before the first node, and nothing is asked for it
    have hnote : Visits context [] (Traced.emit (.ignoring (other :: others).length)) :=
      .through () (fun _ h => absurd h List.not_mem_nil) rfl rfl
    rw [evalFirst]
    · exact hnote.bind fun _ _ => visits_eval first
    · intro h
      cases h

/-- A program without expressions has no value and asks for nothing.  Any other has a
    value exactly if no node of its first expression fails, and this is the value of that
    expression; else it has the fault of the first node that fails.  In post-order, the
    paths up to that node are asked for and none behind it. -/
theorem evalFirst_postorder (context : Context) :
    (evalFirst context (program [])).outcome = .error .emptyProgram ∧
      (evalFirst context (program [])).askedPaths = [] ∧
      ∀ (first : Expr) (others : List Expr),
        let run := evalFirst context (program (first :: others))
        ((∃ x, run.outcome = .ok x) ↔ ∀ node ∈ first.postorder, Sound context node) ∧
        (∀ x, run.outcome = .ok x ↔ HasValue context first x) ∧
        (∀ fault, run.outcome = .error fault ↔
          ∃ before node after, first.postorder = before ++ node :: after ∧
            (∀ n ∈ before, Sound context n) ∧ Fails context node fault) ∧
        ((∀ node ∈ first.postorder, Sound context node) →
          run.askedPaths = paths first.postorder) ∧
        ∀ before node after fault, first.postorder = before ++ node :: after →
          (∀ n ∈ before, Sound context n) → Fails context node fault →
          run.askedPaths = paths (before ++ [node]) := by
  refine ⟨rfl, rfl, fun first others => ?_⟩
  -- One invariant of the run says how far it came and what it asked for
  have hvisits : Visits context first.postorder (evalFirst context (program (first :: others))) :=
    visits_evalFirst first others
  refine ⟨hvisits.exists_ok_iff, fun x => ?_, hvisits.error_iff, hvisits.askedPaths_of_sound, ?_⟩
  · rw [outcome_evalFirst_program]
    exact outcome_eval_eq_ok_iff
  · intro before node after fault hnodes hbefore hfails
    exact (hvisits.of_first_fails hnodes hbefore hfails).2

/-- An unknown function fails behind its arguments and in front of the path beside it. -/
theorem evalFirst_postorder_unknown_function :
    let context : Context := fun _ => .ok 1
    let pow := call "Pow" [path "a", path "b"]
    let run := evalFirst context (program [call "Add" [pow, path "c"]])
    (∀ node ∈ [path "a", path "b"], Sound context node) ∧
      Fails context pow (.unknownFunction "Pow") ∧
      run.outcome = .error (.unknownFunction "Pow") ∧ run.askedPaths = ["a", "b"] := by
  intro context pow run
  have hpath : ∀ dotted, HasValue context (path dotted) 1 := fun _ => .path rfl
  have hbefore : ∀ node ∈ [path "a", path "b"], Sound context node :=
    List.forall_mem_cons.mpr ⟨(hpath "a").sound, List.forall_mem_singleton.mpr (hpath "b").sound⟩
  -- Its arguments have values before the name is looked up
  have hfails : Fails context pow (.unknownFunction "Pow") := by
    refine .unknownFunction ?_ (by decide)
    exact List.forall_mem_cons.mpr
      ⟨⟨1, hpath "a"⟩, List.forall_mem_singleton.mpr ⟨1, hpath "b"⟩⟩
  obtain ⟨-, -, herror, -, hasked⟩ :=
    (evalFirst_postorder context).2.2 (call "Add" [pow, path "c"]) []
  exact ⟨hbefore, hfails, (herror _).mpr ⟨_, pow, _, rfl, hbefore, hfails⟩,
    hasked _ pow _ _ rfl hbefore hfails⟩

end Expr

end Reckoner
