import Reckoner.Expr
import Reckoner.Data
import Reckoner.Operator
import Reckoner.Traced

/-!
# Evaluation

The value of an expression over a context.  Arguments are evaluated from left to
right before anything is asked of the call itself, so the first fault in that
order ends the run, and the context is asked for no path behind it.

* `Expr.eval` evaluates an expression.
* `Expr.evalFirst` evaluates the first expression of a program.
-/

namespace Reckoner.Expr

/-- Ask a context for a path. -/
def ask (context : Context) (path : String) : Traced Float :=
  ⟨[.asked path (context path)], context path⟩

mutual

/-- Evaluate an expression. -/
def eval (context : Context) : Expr → Traced Float
  | literal value => pure (Float.ofInt value)
  | path dotted => ask context dotted
  | call name args => do
    let values ← evalAll context args
    -- The name is looked up only when all arguments have values, and then they are counted.
    let operator ← Traced.lift (Operator.named name)
    let result ← Traced.lift (operator.apply values)
    Traced.emit (.applied name values result)
    pure result
  -- A program stands for itself only at the root.
  | program body => Traced.lift (.error (.unknownNode (program body).kind))

/-- Evaluate expressions from left to right. -/
def evalAll (context : Context) : List Expr → Traced (List Float)
  | [] => pure []
  | e :: es => do
    let value ← eval context e
    let values ← evalAll context es
    pure (value :: values)

end

/-- Evaluate a program: its first expression, the others being left out. -/
def evalFirst (context : Context) : Expr → Traced Float
  | program [] => Traced.lift (.error .emptyProgram)
  | program [first] => first.eval context
  | program (first :: others) => do
    Traced.emit (.ignoring others.length)
    first.eval context
  | e => e.eval context

end Reckoner.Expr
