import Reckoner.Proofs.PostOrder
import Reckoner.Proofs.Spelling

/-!
# What checking finds

Checking goes through the nodes of an expression in post-order, as evaluation does, and ends
at the first that offends: a call whose name is no operator or that has not two arguments, or
a program inside.  A node offends by itself, whatever the data and whatever its arguments.

## Key results

- `Expr.checkNode_eq_firstOffence`: the check of an expression is the first offence of its nodes
- `Expr.forall_offence?_eq_none_iff`: expressions without offences are the callable ones
- `Expr.check_decides_callable`: which programs pass the check, and what it says of the others
-/

namespace Reckoner.Expr

/-! ## Offences of nodes -/

/-- What is wrong with a node by itself.  The name of a call counts before the number of its
    arguments. -/
def offence? : Expr → Option Fault
  | literal _ => none
  | path _ => none
  | call name args =>
    if name ∉ Operator.names then some (.unknownFunction name)
    else if args.length ≠ 2 then some (.arityMismatch name 2 args.length)
    else none
  | program _ => some (.unknownNode "Program")

/-- The verdict on nodes one after the other: the first offence among them, if there is any. -/
def firstOffence (nodes : List Expr) : Except Fault Unit :=
  match nodes.findSome? offence? with
  | none => .ok ()
  | some fault => .error fault

/-- The nodes of a second row count only if there is no offence in the first. -/
private theorem firstOffence_append (nodes others : List Expr) :
    firstOffence (nodes ++ others) = (firstOffence nodes).bind fun _ => firstOffence others := by
  simp only [firstOffence, List.findSome?_append]
  cases nodes.findSome? offence? with
  | none => rfl
  | some fault => rfl

/-- There is no first offence if there is none at all. -/
private theorem firstOffence_eq_ok_iff {nodes : List Expr} :
    firstOffence nodes = .ok () ↔ ∀ node ∈ nodes, node.offence? = none := by
  rw [← List.findSome?_eq_none_iff, firstOffence]
  cases nodes.findSome? offence? with
  | none => simp
  | some fault => simp

/-- The first offence is that of a node with none in front of it. -/
private theorem firstOffence_eq_error_iff {nodes : List Expr} {fault : Fault} :
    firstOffence nodes = .error fault ↔
      ∃ before node after, nodes = before ++ node :: after ∧ node.offence? = some fault ∧
        ∀ n ∈ before, n.offence? = none := by
  rw [← List.findSome?_eq_some_iff, firstOffence]
  cases nodes.findSome? offence? with
  | none => simp
  | some other => simp

/-! ## Checking in post-order -/

/-- Behind its arguments a call is checked by itself. -/
private theorem checkNode_call (name : String) (args : List Expr) :
    (call name args).checkNode =
      (checkNodes args).bind fun _ => firstOffence [call name args] := by
  rw [checkNode]
  congr 1
  funext _
  -- A call is checked for its name first, and for its arguments after that
  cases hnamed : Operator.named name with
  | error fault =>
    obtain ⟨hname, rfl⟩ := Operator.named_eq_error_iff.mp hnamed
    simp only [firstOffence, List.findSome?_cons, offence?, if_pos hname]
    rfl
  | ok operator =>
    have hname : ¬ name ∉ Operator.names := by
      rw [not_not, ← Operator.name_of_named hnamed]
      exact operator.name_mem_names
    simp only [firstOffence, List.findSome?_cons, offence?, if_neg hname]
    by_cases hlength : args.length = 2
    · simp [hlength, Operator.arity, bind, Except.bind]
    · simp [hlength, Operator.arity, bind, Except.bind]

/-- A row is checked for its first offence, if its expressions are. -/
private theorem checkNodes_eq_firstOffence {es : List Expr}
    (hes : ∀ e ∈ es, e.checkNode = firstOffence e.postorder) :
    checkNodes es = firstOffence (postorders es) := by
  induction es with
  | nil => rfl
  | cons e es ih =>
    -- The arguments are checked from the left, as post-order has them
    obtain ⟨he, hes⟩ := List.forall_mem_cons.mp hes
    rw [checkNodes, postorders, firstOffence_append, he, ih hes]
    rfl

/-- Checking an expression finds the first offence of its nodes in post-order. -/
theorem checkNode_eq_firstOffence (e : Expr) : e.checkNode = firstOffence e.postorder := by
  induction e using Expr.induction with
  | literal value => rfl
  | path dotted => rfl
  | call name args ih =>
    rw [checkNode_call, checkNodes_eq_firstOffence ih, postorder, firstOffence_append]
  | program body _ => rfl

/-! ## Callable expressions -/

/-- An expression that consists of numbers, paths and calls of operators with two arguments. -/
structure Callable (e : Expr) : Prop where
  programFree : e.ProgramFree
  named : ∀ name args, call name args ∈ e.postorder → name ∈ Operator.names
  length_args : ∀ name args, call name args ∈ e.postorder → args.length = 2

/-- A call is no offence if it has the name of an operator and two arguments. -/
private theorem offence?_call_eq_none_iff {name : String} {args : List Expr} :
    (call name args).offence? = none ↔ name ∈ Operator.names ∧ args.length = 2 := by
  by_cases hname : name ∈ Operator.names
  · simp [offence?, hname]
  · simp [offence?, hname]

private theorem programFree_args {name : String} {args : List Expr}
    (h : (call name args).ProgramFree) :
    ∀ arg ∈ args, arg.ProgramFree := by
  cases h with
  | call hargs => exact hargs

/-- A program inside is an offence wherever it stands. -/
private theorem programFree_of_offence?_eq_none {e : Expr}
    (h : ∀ node ∈ e.postorder, node.offence? = none) : e.ProgramFree := by
  -- A program is an offence itself, and the nodes of an argument are nodes of the call
  induction e using Expr.induction with
  | literal value => exact .literal value
  | path dotted => exact .path dotted
  | call name args ih =>
    constructor
    intro arg harg
    apply ih arg harg
    intro node hnode
    exact h node (mem_postorder_call harg hnode)
  | program body _ => exact nomatch h _ (mem_postorder_self _)

/-- The callable expressions are those without offences. -/
theorem forall_offence?_eq_none_iff {e : Expr} :
    (∀ node ∈ e.postorder, node.offence? = none) ↔ e.Callable := by
  constructor
  · intro h
    refine ⟨programFree_of_offence?_eq_none h, ?_, ?_⟩
    · intro name args hcall
      exact (offence?_call_eq_none_iff.mp (h _ hcall)).1
    · intro name args hcall
      exact (offence?_call_eq_none_iff.mp (h _ hcall)).2
  · intro h node hnode
    cases node with
    | literal value => rfl
    | path dotted => rfl
    | call name args =>
      exact offence?_call_eq_none_iff.mpr ⟨h.named name args hnode, h.length_args name args hnode⟩
    | program body =>
      -- Being free of programs passes from a call to its arguments, so no node is a program
      exact nomatch forall_mem_postorder (fun _ _ => programFree_args) h.programFree _ hnode

/-! ## Programs -/

/-- The expression of a tree that is checked and evaluated: the first of a program, and
    anything else as a whole. -/
def first? : Expr → Option Expr
  | program [] => none
  | program (first :: _) => some first
  | e => some e

/-- A tree without a first expression is empty, and any other is checked as that. -/
theorem check_eq (e : Expr) :
    e.check = match e.first? with
      | none => .error .emptyProgram
      | some first => firstOffence first.postorder := by
  -- An expression that is no program is its own first expression
  cases e with
  | program body =>
    cases body with
    | nil => rfl
    | cons first others => exact checkNode_eq_firstOffence first
  | literal value => exact checkNode_eq_firstOffence _
  | path dotted => exact checkNode_eq_firstOffence _
  | call name args => exact checkNode_eq_firstOffence _

/-- Only a program without expressions has no first. -/
private theorem first?_eq_none_iff {e : Expr} : e.first? = none ↔ e = program [] := by
  cases e with
  | program body =>
    cases body with
    | nil => simp [first?]
    | cons first others => simp [first?]
  | _ => simp [first?]

/-- A tree passes the check exactly if it has a first expression and that is callable.  An
    empty program is refused as such; any other tree that is refused is so for the first node
    of its first expression, in post-order, that offends.  Expressions behind the first have
    no part in the check. -/
theorem check_decides_callable (e : Expr) :
    (e.check = .ok () ↔ ∃ first, e.first? = some first ∧ first.Callable) ∧
    (∀ fault, e.check = .error fault ↔
      e = program [] ∧ fault = .emptyProgram ∨
      ∃ first before node after, e.first? = some first ∧
        first.postorder = before ++ node :: after ∧ node.offence? = some fault ∧
        ∀ n ∈ before, n.offence? = none) ∧
    ∀ first others, (program (first :: others)).check = (program [first]).check := by
  -- The check looks for the first offence of the first expression, if there is one
  rw [check_eq, ← first?_eq_none_iff]
  refine ⟨?_, ?_, fun _ _ => rfl⟩
  · cases e.first? with
    | none => simp
    | some first => simp [firstOffence_eq_ok_iff, forall_offence?_eq_none_iff]
  · intro fault
    cases e.first? with
    | none => simp [eq_comm]
    | some first => simp [firstOffence_eq_error_iff]

/-- A wrong number of arguments comes before a name that is met later, and an unknown name
    before the number of its own arguments. -/
theorem check_decides_callable_later_offences :
    let multiply := call "Multiply" [literal 1]
    let pow := call "Pow" [path "a"]
    (program [call "Add" [multiply, pow], program []]).check =
        .error (.arityMismatch "Multiply" 2 1) ∧
      (program [call "Sum" [call "Add" [path "a", literal 2]]]).check =
        .error (.unknownFunction "Sum") := by
  intro multiply pow
  -- The arity of `Multiply` comes first in post-order, before the unknown name behind it
  constructor
  · apply ((check_decides_callable _).2.1 _).mpr
    refine .inr ⟨call "Add" [multiply, pow], [literal 1], multiply, _, rfl, rfl, by decide, ?_⟩
    exact List.forall_mem_singleton.mpr rfl
  · apply ((check_decides_callable _).2.1 _).mpr
    refine .inr ⟨_, [path "a", literal 2, call "Add" [path "a", literal 2]], _, [], rfl, rfl,
      by decide, by decide⟩

end Reckoner.Expr
