import Reckoner.Token.Scan
import Reckoner.Draft
import Reckoner.Validity
import Reckoner.Evaluation

/-!
# Formulas

From the text of a formula to its program, its verdict and its value.  The stages
run in order, and the first fault of the earliest stage is the outcome.
-/

namespace Reckoner.Formula

/-- Scan a formula into tokens. -/
def tokens (formula : String) : Traced (List Token) :=
  let items := Token.scan formula
  -- Tokens are told as they are made, so those in front of a fault are told as well.
  let made := (Token.leading items).map Event.token
  match Token.collect items with
  | .error fault => ⟨made, .error fault⟩
  | .ok tokens => ⟨made ++ [.tokenized formula tokens.length], .ok tokens⟩

/-- Read a formula as a program. -/
def parse (limit : Nat) (formula : String) : Traced Expr := do
  let tokens ← tokens formula
  let body ← Traced.lift (Expr.listOfTokens limit tokens)
  Traced.emit (.parsed body.length)
  pure (.program body)

/-- Evaluate a formula over a context. -/
def evaluate (limit : Nat) (context : Context) (formula : String) : Traced Float := do
  let program ← parse limit formula
  let value ← program.evalFirst context
  Traced.emit (.evaluated formula value)
  pure value

/-- Read a formula and check its program. -/
def verify (limit : Nat) (formula : String) : Traced Unit := do
  let program ← parse limit formula
  Traced.lift program.check

/-- Check that a formula would have a value given suitable data, and note where
    it would not. -/
def validate (limit : Nat) (formula : String) : Traced Unit :=
  (verify limit formula).onFault (.invalid formula)

end Reckoner.Formula
