import Reckoner.Formula

/-!
# The stages of a formula

What comes out of each operation on formulas, in terms of the stages that it runs.

- `Formula.outcome_tokens_eq_ok_iff`: the tokens are all items of scanning
- `Formula.outcome_tokens_eq_error_iff`: the first fault among the items is what comes out
- `Formula.outcome_parse`: parsing is scanning and then reading the tokens
- `Formula.outcome_validate`, `Formula.outcome_evaluate`: what is done with the program
-/

namespace Reckoner

namespace Token

/-- The first fault among the items is what comes of collecting them. -/
theorem collect_eq_error_iff {items : List (Except Fault Token)} {fault : Fault} :
    collect items = .error fault ↔
      ∃ (made : List Token) (others : List (Except Fault Token)),
        items = made.map .ok ++ .error fault :: others := by
  induction items with
  | nil => simp [collect]
  | cons item items ih =>
    -- A fault in front ends the collecting, a token in front is one more that was made
    cases item with
    | error other =>
      rw [collect]
      constructor
      · rintro ⟨⟩
        exact ⟨[], items, rfl⟩
      · rintro ⟨made, others, h⟩
        cases made with
        | nil => exact congrArg Except.error (Except.error.inj (List.cons.inj h).1)
        | cons t made => cases (List.cons.inj h).1
    | ok t =>
      have hstep : collect (.ok t :: items) = .error fault ↔ collect items = .error fault := by
        rw [collect]
        cases collect items <;> simp
      rw [hstep, ih]
      constructor
      · rintro ⟨made, others, rfl⟩
        exact ⟨t :: made, others, rfl⟩
      · rintro ⟨made, others, h⟩
        cases made with
        | nil => cases (List.cons.inj h).1
        | cons u made => exact ⟨made, others, (List.cons.inj h).2⟩

end Token

namespace Formula

/-- A formula has tokens if scanning it meets no fault. -/
theorem outcome_tokens (formula : String) :
    (tokens formula).outcome = Token.collect (Token.scan formula) := by
  unfold tokens
  cases h : Token.collect (Token.scan formula) <;> simp only [h]

/-- The tokens of a formula are all items of scanning it. -/
theorem outcome_tokens_eq_ok_iff {formula : String} {ts : List Token} :
    (tokens formula).outcome = .ok ts ↔ Token.scan formula = ts.map .ok := by
  rw [outcome_tokens]
  constructor
  · exact Token.eq_map_ok_of_collect
  · intro h
    rw [h, Token.collect_map_ok]

/-- A formula has no tokens if a fault stands among the items of scanning it, and the first
    such fault is what comes out. -/
theorem outcome_tokens_eq_error_iff {formula : String} {fault : Fault} :
    (tokens formula).outcome = .error fault ↔
      ∃ (made : List Token) (others : List (Except Fault Token)),
        Token.scan formula = made.map .ok ++ .error fault :: others := by
  rw [outcome_tokens]
  exact Token.collect_eq_error_iff

/-- A formula is scanned, and then its tokens are read as a program. -/
theorem outcome_parse (limit : Nat) (formula : String) :
    (parse limit formula).outcome = (tokens formula).outcome.bind (Expr.ofTokens limit) := by
  -- The records in between carry no value, so the outcomes alone are chained
  unfold parse
  rw [Traced.outcome_bind]
  congr 1
  funext ts
  rw [Traced.outcome_bind, Traced.outcome_lift, Expr.ofTokens]
  cases Expr.listOfTokens limit ts with
  | error fault => rfl
  | ok body => rfl

/-- What comes out of parsing is a program that was read from all tokens. -/
theorem outcome_parse_eq_ok_iff {limit : Nat} {formula : String} {e : Expr} :
    (parse limit formula).outcome = .ok e ↔
      ∃ ts body, (tokens formula).outcome = .ok ts ∧ Expr.listOfTokens limit ts = .ok body ∧
        e = .program body := by
  rw [outcome_parse]
  cases hts : (tokens formula).outcome with
  | error fault => simp [Except.bind]
  | ok ts =>
    cases hbody : Expr.listOfTokens limit ts with
    | error fault => simp [Except.bind, Except.map, Expr.ofTokens, hbody]
    | ok body => simp [Except.bind, Except.map, Expr.ofTokens, hbody, eq_comm]

/-- A formula is parsed, and then its program is checked. -/
theorem outcome_validate (limit : Nat) (formula : String) :
    (validate limit formula).outcome = (parse limit formula).outcome.bind Expr.check := by
  rw [validate, Traced.outcome_onFault, verify, Traced.outcome_bind]
  rfl

/-- A formula is parsed, and then its program is evaluated. -/
theorem outcome_evaluate (limit : Nat) (context : Context) (formula : String) :
    (evaluate limit context formula).outcome =
      (parse limit formula).outcome.bind fun e => (e.evalFirst context).outcome := by
  rw [evaluate, Traced.outcome_bind]
  congr 1
  funext e
  rw [Traced.outcome_bind]
  cases (e.evalFirst context).outcome with
  | error fault => rfl
  | ok value => rfl

end Formula

end Reckoner
