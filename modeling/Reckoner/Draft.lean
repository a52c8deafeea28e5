import Reckoner.Expr
import Reckoner.Fault

/-!
# Reading a program from tokens

A `Draft` is a program while it is being read: the finished expressions, the
calls that are still open, and what may come next.  Each token takes one
`Draft.step`, and `Draft.finish` closes the draft at the end of the tokens, so a
program is read by folding its tokens.

* `Expr.ofTokens` reads a whole program.
* The number of open calls never passes the limit: a function name is refused
  where the open calls have reached it, before anything is asked of the token
  behind the name.
-/

namespace Reckoner

/-- A call whose arguments are still being read, the latest argument first. -/
structure OpenCall where
  name : String
  args : List Expr

/-- What may come next in a draft. -/
inductive Draft.Phase where
  /-- An expression was just finished, or nothing was read yet. -/
  | between
  /-- An argument must start. -/
  | argument
  /-- An argument may start or the call may end. -/
  | firstArgument
  /-- This function name was read. -/
  | opening (name : String)
  /-- This path was read; a dot may continue it. -/
  | path (path : String)
  /-- This path and a dot were read. -/
  | segment (path : String)

/-- A program that is being read: finished expressions, latest first; open calls,
    innermost first; and what may come next. -/
structure Draft where
  body : List Expr
  calls : List OpenCall
  phase : Draft.Phase

namespace Draft

/-- The draft before the first token. -/
def start : Draft := ⟨[], [], .between⟩

/-- Take in a finished expression: an argument of the innermost open call, or an
    expression of the program. -/
def deliver (d : Draft) (e : Expr) : Draft :=
  match d.calls with
  | [] => ⟨e :: d.body, [], .between⟩
  | c :: calls => ⟨d.body, ⟨c.name, e :: c.args⟩ :: calls, .between⟩

/-- The refusal of a token, or of the end, where something else was expected. -/
def refuse {α : Type} (wanted : Expectation) (found : Option Token) : Except Fault α :=
  .error (.malformed (.expected wanted (found.map Token.kind)))

/-- Start an expression with a token. -/
def begin (limit : Nat) (d : Draft) (t : Token) : Except Fault Draft :=
  match t with
  | .number value => .ok (d.deliver (.literal value))
  | .word name => .ok ⟨d.body, d.calls, .path name⟩
  | .function name =>
    -- The call that the name opens would be one more inside those already open.
    if limit ≤ d.calls.length then .error (.nestedTooDeep limit)
    else .ok ⟨d.body, d.calls, .opening name⟩
  | other => refuse .expression (some other)

/-- End the innermost open call. -/
def close (d : Draft) : Except Fault Draft :=
  match d.calls with
  | [] => refuse .expression (some .rightParen)
  -- The call is finished, so it is an argument of the call around it or an expression.
  | c :: calls => .ok (deliver ⟨d.body, calls, .between⟩ (.call c.name c.args.reverse))

/-- Take in a token behind a finished expression: outside of calls another
    expression starts, within a call a comma or its end must follow. -/
def follow (limit : Nat) (d : Draft) (t : Token) : Except Fault Draft :=
  match d.calls, t with
  -- No comma stands between expressions side by side.
  | [], t => d.begin limit t
  | _ :: _, .comma => .ok ⟨d.body, d.calls, .argument⟩
  | _ :: _, .rightParen => d.close
  | _ :: _, other => refuse .separator (some other)

/-- Take in one token. -/
def step (limit : Nat) (d : Draft) (t : Token) : Except Fault Draft :=
  match d.phase with
  | .between => d.follow limit t
  | .argument => d.begin limit t
  | .firstArgument =>
    match t with
    | .rightParen => d.close
    | other => d.begin limit other
  | .opening name =>
    match t with
    | .leftParen => .ok ⟨d.body, ⟨name, []⟩ :: d.calls, .firstArgument⟩
    | other => refuse .opening (some other)
  | .path path =>
    -- Any token but a dot ends the path and is taken in behind it.
    match t with
    | .dot => .ok ⟨d.body, d.calls, .segment path⟩
    | other => (d.deliver (.path path)).follow limit other
  | .segment path =>
    match t with
    -- A function name behind a dot is refused, not called.
    | .word name => .ok ⟨d.body, d.calls, .path (path ++ "." ++ name)⟩
    | other => refuse .segment (some other)

/-- End a draft behind a finished expression: all calls must be closed. -/
def conclude (d : Draft) : Except Fault (List Expr) :=
  match d.calls with
  | [] => .ok d.body.reverse
  | _ :: _ => refuse .separator none

/-- The expressions of a draft at the end of the tokens. -/
def finish (d : Draft) : Except Fault (List Expr) :=
  match d.phase with
  | .between => d.conclude
  | .argument => refuse .expression none
  | .firstArgument => refuse .expression none
  | .opening _ => refuse .opening none
  | .path path => (d.deliver (.path path)).conclude
  | .segment _ => refuse .segment none

/-- Take in tokens one after the other. -/
def run (limit : Nat) (d : Draft) : List Token → Except Fault Draft
  | [] => .ok d
  | t :: ts =>
    match d.step limit t with
    | .error fault => .error fault
    | .ok next => run limit next ts

/-- Tokens can be taken in in two parts. -/
theorem run_append (limit : Nat) (d : Draft) (ts us : List Token) :
    d.run limit (ts ++ us) = (d.run limit ts).bind fun next => next.run limit us := by
  induction ts generalizing d with
  | nil => rfl
  | cons t ts ih =>
    simp only [List.cons_append, run]
    cases d.step limit t with
    | error fault => rfl
    | ok next => exact ih next

end Draft

/-- The nesting limit where none is chosen. -/
def defaultLimit : Nat := 64

/-- The expressions that tokens spell side by side, with calls nested at most to
    the limit. -/
def Expr.listOfTokens (limit : Nat) (tokens : List Token) : Except Fault (List Expr) :=
  match Draft.start.run limit tokens with
  | .error fault => .error fault
  | .ok draft => draft.finish

/-- The program that tokens spell, with calls nested at most to the limit. -/
def Expr.ofTokens (limit : Nat) (tokens : List Token) : Except Fault Expr :=
  (Expr.listOfTokens limit tokens).map .program

end Reckoner
