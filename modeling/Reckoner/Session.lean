import Reckoner.Formula

/-!
# Sessions

What a caller keeps between formulas: the limit of its evaluator, and data in which
values can be stored that later formulas refer to.  A step that fails leaves the
session as it was.
-/

namespace Reckoner

/-- The state between two steps. -/
structure Session where
  limit : Nat
  data : Data

namespace Session

/-- The state at the start: the usual limit and no data. -/
def start : Session := ⟨defaultLimit, Data.empty⟩

/-- The session with another limit. -/
def withLimit (s : Session) (limit : Nat) : Session :=
  ⟨limit, s.data⟩

/-- The session with other data. -/
def withData (s : Session) (data : Data) : Session :=
  ⟨s.limit, data⟩

/-- The value of a formula over the data of the session. -/
def evaluate (s : Session) (formula : String) : Except Fault Float :=
  (Formula.evaluate s.limit s.data.numberAt formula).outcome

/-- The program of a formula. -/
def parse (s : Session) (formula : String) : Except Fault Expr :=
  (Formula.parse s.limit formula).outcome

/-- The verdict on a formula. -/
def validate (s : Session) (formula : String) : Except Fault Unit :=
  (Formula.validate s.limit formula).outcome

/-- Evaluate a formula and put its value into the data under a name. -/
def store (s : Session) (name formula : String) : Except Fault (Float × Session) :=
  match s.evaluate formula with
  | .error fault => .error fault
  -- A bare number takes in no children, and the value is told nevertheless.
  | .ok value => .ok (value, s.withData (s.data.put name value))

end Session

end Reckoner
