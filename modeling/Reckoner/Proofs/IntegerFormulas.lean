import Reckoner.Proofs.ExactArithmetic
import Reckoner.Proofs.PostOrder
import Reckoner.Proofs.Reprint

/-!
# Formulas over integers

Trees of calls with two arguments over integers are computed as if over the rationals, as long
as all that is computed is an integer of magnitude at most `2 ^ 53`.  A division by zero
is found out also where the zero has come out negative.

## Key results

- `Operator.agrees_compute`: one call
- `Arithmetic.agrees_eval`: whole trees, in post-order up to the first division by zero
- `Formula.evaluate_exactValue`: formulas whose first expression is such a tree
-/

namespace Reckoner

open Binary64

/-! ## Exact values -/

/-- The result over the rationals; a division by zero has none. -/
def Operator.exactResult (operator : Operator) (a b : ℚ) : Option ℚ :=
  match operator with
  | add => some (a + b)
  | subtract => some (a - b)
  | multiply => some (a * b)
  | divide => if b = 0 then none else some (a / b)

/-- A tree of calls with two arguments over integers. -/
inductive Arithmetic where
  | literal (value : Int)
  | call (operator : Operator) (left right : Arithmetic)

namespace Arithmetic

/-- The tree as an expression. -/
def expr : Arithmetic → Expr
  | literal value => .literal value
  | call operator left right => .call operator.name [left.expr, right.expr]

/-- The integers of the tree can be written in formulas. -/
def Written : Arithmetic → Prop
  | literal value => 0 ≤ value ∧ value ≤ Token.maxNumber
  | call _ left right => left.Written ∧ right.Written

instance decidableWritten : DecidablePred Written
  | literal value => inferInstanceAs (Decidable (0 ≤ value ∧ value ≤ Token.maxNumber))
  | call _ left right => @instDecidableAnd _ _ (decidableWritten left) (decidableWritten right)

/-- The value over the rationals; there is none if something is divided by zero. -/
def exactValue : Arithmetic → Option ℚ
  | literal value => some (value : ℚ)
  | call operator left right =>
    left.exactValue.bind fun a => right.exactValue.bind fun b => operator.exactResult a b

/-- All that is computed over the rationals, in post-order up to the first division by zero. -/
def computed : Arithmetic → List ℚ
  | literal value => [(value : ℚ)]
  | call operator left right =>
    left.computed ++
      match left.exactValue with
      | none => []
      | some a =>
        right.computed ++
          match right.exactValue with
          | none => []
          | some b => (operator.exactResult a b).toList

end Arithmetic

/-- Integers of magnitude at most `2 ^ 53`, up to which binary64 lacks none. -/
def IsExactInteger (q : ℚ) : Prop :=
  ∃ i : Int, i.natAbs ≤ 2 ^ 53 ∧ q = i

private theorem isExactInteger_iff {q : ℚ} :
    IsExactInteger q ↔ q.den = 1 ∧ q.num.natAbs ≤ 2 ^ 53 := by
  constructor
  · intro ⟨i, hi, h⟩
    rw [h, Rat.den_intCast, Rat.num_intCast]
    exact ⟨rfl, hi⟩
  · -- A fraction in lowest terms is whole where its denominator is one
    intro ⟨hden, hnum⟩
    exact ⟨q.num, hnum, (Rat.den_eq_one_iff q).mp hden |>.symm⟩

instance (q : ℚ) : Decidable (IsExactInteger q) :=
  decidable_of_iff _ isExactInteger_iff.symm

/-- Exact integers are numbers of binary64. -/
theorem IsExactInteger.representable {q : ℚ} (h : IsExactInteger q) : Representable q := by
  obtain ⟨i, hi, rfl⟩ := h
  exact representable_intCast hi

/-! ## Agreement -/

/-- An outcome agrees with an exact value: it is a number that stands for the value, or the
    fault of dividing by zero where there is none. -/
inductive Agrees : Except Fault Float → Option ℚ → Prop where
  | value {x : Float} {q : ℚ} (hx : rational? x = some q) : Agrees (.ok x) (some q)
  | divisionByZero : Agrees (.error .divisionByZero) none

/-- Steps that agree, one behind the other, agree as a whole. -/
theorem Agrees.bind {outcome : Except Fault Float} {exact : Option ℚ}
    {next : Float → Except Fault Float} {exactNext : ℚ → Option ℚ} (h : Agrees outcome exact)
    (hnext : ∀ x q, exact = some q → rational? x = some q → Agrees (next x) (exactNext q)) :
    Agrees (outcome.bind next) (exact.bind exactNext) := by
  cases h with
  | value hx => exact hnext _ _ rfl hx
  | divisionByZero => exact .divisionByZero

/-- What agrees with a number is a number of binary64 that equals it. -/
private theorem Agrees.exists_eq_ok {outcome : Except Fault Float} {q : ℚ}
    (h : Agrees outcome (some q)) : ∃ x, outcome = .ok x ∧ rational? x = some q := by
  cases h with
  | value hx => exact ⟨_, rfl, hx⟩

/-- What agrees with no number is the fault of dividing by zero. -/
theorem Agrees.eq_error {outcome : Except Fault Float} (h : Agrees outcome none) :
    outcome = .error .divisionByZero := by
  cases h
  rfl

/-- An operator gives the exact result for two numbers if that is an integer that binary64
    has. -/
theorem Operator.agrees_compute {operator : Operator} {x y : Float} {a b : ℚ}
    (hx : rational? x = some a) (hy : rational? y = some b)
    (hresult : ∀ q ∈ operator.exactResult a b, IsExactInteger q) :
    Agrees (operator.compute x y) (operator.exactResult a b) := by
  cases operator with
  | add => exact .value (rational?_add hx hy (hresult _ rfl).representable)
  | subtract => exact .value (rational?_sub hx hy (hresult _ rfl).representable)
  | multiply => exact .value (rational?_mul hx hy (hresult _ rfl).representable)
  | divide =>
    rw [compute, exactResult]
    rw [exactResult] at hresult
    -- The guard does not tell the two zeros apart
    by_cases hzero : b = 0
    · rw [if_pos ((beq_zero_iff hy).mpr hzero), if_pos hzero]
      exact .divisionByZero
    · rw [if_neg (mt (beq_zero_iff hy).mp hzero), if_neg hzero]
      rw [if_neg hzero] at hresult
      exact .value (rational?_div hx hy hzero (hresult _ rfl).representable)

/-- A call with two arguments computes them from left to right, and then its result. -/
private theorem Expr.outcome_eval_pair (context : Context) (operator : Operator)
    (left right : Expr) :
    ((call operator.name [left, right]).eval context).outcome =
      (left.eval context).outcome.bind fun x =>
        (right.eval context).outcome.bind fun y => operator.compute x y := by
  rw [outcome_eval_call, outcome_evalAll_cons, outcome_evalAll_cons, Operator.named_name]
  -- The left argument comes first, and where it fails the right one is not reached
  cases (left.eval context).outcome with
  | error fault => rfl
  | ok x =>
    cases (right.eval context).outcome with
    | error fault => rfl
    | ok y => rfl

/-- A tree evaluates to its exact value if all that is computed is integers that binary64
    has. -/
theorem Arithmetic.agrees_eval (context : Context) {t : Arithmetic}
    (hcomputed : ∀ q ∈ t.computed, IsExactInteger q) :
    Agrees (t.expr.eval context).outcome t.exactValue := by
  induction t with
  | literal value =>
    obtain ⟨i, hi, hvalue⟩ := hcomputed value List.mem_cons_self
    obtain rfl : value = i := Int.cast_injective hvalue
    exact .value (rational?_ofInt hi)
  | call operator left right ihleft ihright =>
    rw [expr, exactValue, Expr.outcome_eval_pair]
    rw [computed] at hcomputed
    obtain ⟨hleft, hrest⟩ := List.forall_mem_append.mp hcomputed
    -- What stands behind a value is computed as well
    refine (ihleft hleft).bind fun x a ha hx => ?_
    rw [ha] at hrest
    obtain ⟨hright, hresult⟩ := List.forall_mem_append.mp hrest
    refine (ihright hright).bind fun y b hb hy => ?_
    rw [hb] at hresult
    exact Operator.agrees_compute hx hy fun q hq => hresult q (Option.mem_toList.mpr hq)

/-! ## Formulas -/

/-- The names of operators are names. -/
theorem Operator.isName_name (operator : Operator) : Token.IsName operator.name := by
  cases operator <;> decide

/-- A tree whose integers can be written can be spelled as a whole. -/
theorem Arithmetic.Written.spellable {t : Arithmetic} (h : t.Written) : t.expr.Spellable := by
  induction t with
  | literal value => exact .literal h
  | call operator left right ihleft ihright =>
    obtain ⟨hleft, hright⟩ := h
    apply Expr.Spellable.call operator.isName_name
    exact List.forall_mem_cons.mpr ⟨ihleft hleft, List.forall_mem_singleton.mpr (ihright hright)⟩

namespace Formula

/-- The text of one expression is on one line. -/
private theorem oneLine_text_singleton {e : Expr} (h : e.Spellable) :
    oneLine (Expr.program [e]).text = e.text := by
  have hlist := toList_oneLine_text (List.forall_mem_singleton.mpr h)
  rw [List.map_singleton, List.intercalate_singleton] at hlist
  exact String.toList_inj.mp hlist

/-- A tree whose integers can be written and whose calls are nested at most to the limit is
    read from its own text.  Let it be the first expression of a formula, and let all that is
    computed of it over the rationals, up to the first division by zero, be integers of
    magnitude at most `2 ^ 53`.  Then evaluation gives the exact value, a zero with either sign,
    or the fault of dividing by zero if something is divided by zero. -/
theorem evaluate_exactValue (limit : Nat) (context : Context) (t : Arithmetic) :
    (t.Written → t.expr.depth ≤ limit →
        (parse limit t.expr.text).outcome = .ok (.program [t.expr])) ∧
      ∀ formula others, (parse limit formula).outcome = .ok (.program (t.expr :: others)) →
        (∀ q ∈ t.computed, IsExactInteger q) →
          (∀ q, t.exactValue = some q →
            ∃ x, (evaluate limit context formula).outcome = .ok x ∧ rational? x = some q) ∧
          (t.exactValue = none →
            (evaluate limit context formula).outcome = .error .divisionByZero) := by
  refine ⟨fun hwritten hdepth => ?_, fun formula others hparse hcomputed => ?_⟩
  · have hspell := hwritten.spellable
    exact parse_of_text hspell hdepth (oneLine_text_singleton hspell)
  · have houtcome : (evaluate limit context formula).outcome = (t.expr.eval context).outcome := by
      rw [outcome_evaluate, hparse, Except.bind, Expr.outcome_evalFirst_program]
    -- The invariant of the tree is carried over to the formula that starts with it
    have hagrees := Arithmetic.agrees_eval context hcomputed
    rw [← houtcome] at hagrees
    exact ⟨fun q hq => Agrees.exists_eq_ok (hq ▸ hagrees),
      fun hnone => Agrees.eq_error (hnone ▸ hagrees)⟩

/-- A divisor that comes out as negative zero is refused, and a quotient that is an integer is
    exact, as is a sum with a negative number. -/
theorem evaluate_exactValue_negative_zero :
    (evaluate 3 Data.empty.numberAt "Divide(1, Multiply(0, Subtract(0, 5)))").outcome =
        .error .divisionByZero ∧
      (∃ x, (evaluate 2 Data.empty.numberAt "Subtract(Multiply(6, 7), Divide(8, 2))").outcome =
          .ok x ∧ rational? x = some 38) ∧
      ∃ x, (evaluate 2 Data.empty.numberAt "Add(40, Subtract(1, 3))").outcome = .ok x ∧
        rational? x = some 38 := by
  -- The product is the negative zero, which divides as badly as the positive one
  let refused : Arithmetic := .call .divide (.literal 1)
    (.call .multiply (.literal 0) (.call .subtract (.literal 0) (.literal 5)))
  let quotient : Arithmetic := .call .subtract (.call .multiply (.literal 6) (.literal 7))
    (.call .divide (.literal 8) (.literal 2))
  let sum : Arithmetic := .call .add (.literal 40) (.call .subtract (.literal 1) (.literal 3))
  have hrefused : refused.Written := by decide
  have hquotient : quotient.Written := by decide
  have hsum : sum.Written := by decide
  obtain ⟨hparse, houtcome⟩ := evaluate_exactValue 3 Data.empty.numberAt refused
  obtain ⟨hparse', houtcome'⟩ := evaluate_exactValue 2 Data.empty.numberAt quotient
  obtain ⟨hparse'', houtcome''⟩ := evaluate_exactValue 2 Data.empty.numberAt sum
  refine ⟨?_, ?_, ?_⟩
  · have hfirst := hparse hrefused (by decide)
    exact (houtcome _ [] hfirst (by decide +kernel)).2 (by decide +kernel)
  · have hfirst := hparse' hquotient (by decide)
    exact (houtcome' _ [] hfirst (by decide +kernel)).1 38 (by decide +kernel)
  · have hfirst := hparse'' hsum (by decide)
    exact (houtcome'' _ [] hfirst (by decide +kernel)).1 38 (by decide +kernel)

end Formula

end Reckoner
