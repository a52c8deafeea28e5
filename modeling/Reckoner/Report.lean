import Reckoner.Expr
import Reckoner.Fault
import Reckoner.Json

/-!
# Results as JSON

The JSON forms of what the library finds out: tokens, trees, faults, verdicts and
values.  Fields stand in a fixed order.
-/

namespace Reckoner

/-- A token as its kind and its value; punctuation has its own spelling as
    value. -/
def Token.toJson (token : Token) : Json :=
  .object [("type", .string token.kind.text),
    ("value", match token with
      | .number value => .integer value
      | other => .string other.text)]

mutual

/-- A tree as nested objects, each with the kind of its node. -/
def Expr.toJson : Expr → Json
  | .literal value => .object [("type", .string "NumberLiteral"), ("value", .integer value)]
  | .path dotted => .object [("type", .string "Variable"), ("value", .string dotted)]
  | .call name args =>
    .object [("type", .string "CallExpression"), ("name", .string name),
      ("params", .array (Expr.listToJson args))]
  | .program body => .object [("type", .string "Program"), ("body", .array (Expr.listToJson body))]

/-- The trees of a row of expressions. -/
def Expr.listToJson : List Expr → List Json
  | [] => []
  | e :: es => e.toJson :: Expr.listToJson es

end

/-- A fault as its code and its message. -/
def Fault.toJson (fault : Fault) : Json :=
  .object [("code", .string fault.code), ("error", .string fault.message)]

/-- The verdict of a check. -/
def verdictToJson : Except Fault Unit → Json
  | .ok () => .object [("valid", .bool true)]
  | .error fault =>
    .object [("valid", .bool false), ("code", .string fault.code),
      ("error", .string fault.message)]

/-- The value of an evaluation. -/
def valueToJson (value : Float) : Json :=
  .object [("value", .float value)]

end Reckoner
