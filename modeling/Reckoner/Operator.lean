import Reckoner.Fault

/-!
# Operators

The closed set of functions that a formula may call.  All work on binary64
numbers and take two of them.
-/

namespace Reckoner

/-- A function that a formula may call. -/
inductive Operator where
  | add
  | subtract
  | multiply
  | divide
deriving DecidableEq

namespace Operator

/-- The number of arguments of every operator. -/
def arity : Nat := 2

/-- The operators in the order in which they are listed. -/
def all : List Operator := [add, subtract, multiply, divide]

/-- The name by which a formula calls an operator. -/
def name : Operator → String
  | add => "Add"
  | subtract => "Subtract"
  | multiply => "Multiply"
  | divide => "Divide"

/-- The operator of a name; upper and lower case differ. -/
def named (name : String) : Except Fault Operator :=
  match all.find? (fun operator => operator.name = name) with
  | some operator => .ok operator
  | none => .error (.unknownFunction name)

/-- The result for two arguments.  A divisor that is zero, of either sign, is
    refused; all else follows the arithmetic, which may leave the finite range. -/
def compute (operator : Operator) (x y : Float) : Except Fault Float :=
  match operator with
  | add => .ok (x + y)
  | subtract => .ok (x - y)
  | multiply => .ok (x * y)
  -- Both zeros are equal to zero, so both are refused.
  | divide => if y == 0 then .error .divisionByZero else .ok (x / y)

/-- The result for any number of arguments, refused unless there are two. -/
def apply (operator : Operator) (args : List Float) : Except Fault Float :=
  match args with
  | [x, y] => operator.compute x y
  | _ => .error (.arityMismatch operator.name arity args.length)

end Operator

end Reckoner
