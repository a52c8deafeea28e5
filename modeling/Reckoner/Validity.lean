import Reckoner.Expr
import Reckoner.Operator

/-!
# Checking without data

A program can be evaluated on suitable data only if it has a first expression and
every call in that expression names an operator and has its number of arguments.
`Expr.check` finds the first fault in the order in which evaluation would meet
it: arguments from left to right, then the name of the call, then the count.
-/

namespace Reckoner.Expr

mutual

/-- Check one expression. -/
def checkNode : Expr → Except Fault Unit
  | literal _ => .ok ()
  | path _ => .ok ()
  | call name args => do
    -- The arguments come first, as they do in evaluation.
    checkNodes args
    let _ ← Operator.named name
    if args.length = Operator.arity then .ok ()
    else .error (.arityMismatch name Operator.arity args.length)
  | program body => .error (.unknownNode (program body).kind)

/-- Check expressions from left to right. -/
def checkNodes : List Expr → Except Fault Unit
  | [] => .ok ()
  | e :: es => do
    checkNode e
    checkNodes es

end

/-- Check a program: its first expression must be there and be callable. -/
def check : Expr → Except Fault Unit
  | program [] => .error .emptyProgram
  | program (first :: _) => first.checkNode
  | e => e.checkNode

end Reckoner.Expr
