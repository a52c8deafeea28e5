/-!
# Expressions

The trees that formulas stand for.  `Expr.text` is the canonical spelling of a
tree: reading it again gives the same tree back, for every tree that reading can
give.
-/

namespace Reckoner

/-- A formula as a tree.  A `program` is the root: expressions side by side, of
    which the first has the value. -/
inductive Expr where
  | literal (value : Int)
  /-- a dotted path into the data -/
  | path (dotted : String)
  | call (name : String) (args : List Expr)
  | program (body : List Expr)

namespace Expr

/-- A property of trees holds if it passes from the parts of a tree to the tree. -/
theorem induction {motive : Expr → Prop} (literal : ∀ value, motive (literal value))
    (path : ∀ dotted, motive (path dotted))
    (call : ∀ name args, (∀ e ∈ args, motive e) → motive (call name args))
    (program : ∀ body, (∀ e ∈ body, motive e) → motive (program body)) (e : Expr) : motive e :=
  @Expr.rec motive (fun es => ∀ e ∈ es, motive e) literal path call program
    (fun _ h => absurd h List.not_mem_nil)
    (fun _ _ head tail => List.forall_mem_cons.2 ⟨head, tail⟩) e

/-- The name of the kind of a node. -/
def kind : Expr → String
  | literal _ => "NumberLiteral"
  | path _ => "Variable"
  | call .. => "CallExpression"
  | program _ => "Program"

mutual

/-- The canonical spelling: arguments are separated by a comma and a space, the
    expressions of a program stand on lines of their own. -/
def text : Expr → String
  | literal value => toString value
  | path dotted => dotted
  | call name args => name ++ "(" ++ String.intercalate ", " (texts args) ++ ")"
  | program body => String.intercalate "\n" (texts body)

/-- The spellings of a row of expressions. -/
def texts : List Expr → List String
  | [] => []
  | e :: es => e.text :: texts es

end

end Expr

end Reckoner
