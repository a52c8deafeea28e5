import Reckoner.Proofs.SuitableData

/-!
# More data

Data extend others if they have all that the others have, numbers where there are numbers and
children where there are children.  They answer every path alike, unless the others lack it.
So an answer that did not lack data stays as it is when data are added.

## Key results

- `Data.extends_put`: a number under a new name extends data
- `Data.numberAt_eq_of_extends`: paths that are not lacking have the same answers
- `Formula.evaluate_eq_of_extends`: evaluations that lack nothing are the same
-/

namespace Reckoner

namespace Data

variable {d more : Data}

/-- Data that have all of others: the same number, or children among which every name of the
    others leads to data that have all of what it led to. -/
inductive Extends : Data → Data → Prop where
  | number (x : Float) : Extends (number x) (number x)
  | children {entries others : List (String × Data)}
    (hthere : ∀ name child, (children entries).child? name = some child →
      ((children others).child? name).isSome)
    (hchildren : ∀ name child child', (children entries).child? name = some child →
      (children others).child? name = some child' → Extends child' child) :
    Extends (children others) (children entries)

theorem Extends.refl (d : Data) : d.Extends d := by
  induction d using Data.induction with
  | number x => exact .number x
  | children entries ih =>
    constructor
    · intro name child hchild
      exact Option.isSome_of_eq_some hchild
    · intro name child child' hchild hchild'
      obtain rfl := Option.some.inj (hchild.symm.trans hchild')
      exact ih (name, child) (mem_of_entry?_eq_some hchild)

/-- A number under a name that was free extends data. -/
theorem extends_put {name : String} (hfree : d.child? name = none) (x : Float) :
    (d.put name x).Extends d := by
  cases d with
  | number y => exact .number y
  | children entries =>
    -- The name is new, so what the data had is found where it was
    have hother : ∀ other child, (children entries).child? other = some child →
        (put (children entries) name x).child? other = some child := by
      intro other child hchild
      have hne : other ≠ name := by
        rintro rfl
        exact nomatch hfree.symm.trans hchild
      exact (entry?_insertEntry_of_ne hne _ entries).trans hchild
    constructor
    · intro other child hchild
      exact Option.isSome_of_eq_some (hother other child hchild)
    · intro other child child' hchild hchild'
      obtain rfl := Option.some.inj ((hother other child hchild).symm.trans hchild')
      exact .refl child

/-! ## Answers to paths -/

/-- What a name leads to is there in more data, and extended. -/
theorem Extends.exists_child (h : more.Extends d) {name : String} {child : Data}
    (hchild : d.child? name = some child) :
    ∃ child', more.child? name = some child' ∧ child'.Extends child := by
  cases h with
  | number x => exact nomatch hchild
  | children hthere hchildren =>
    obtain ⟨child', hchild'⟩ := Option.isSome_iff_exists.mp (hthere name child hchild)
    exact ⟨child', hchild', hchildren name child child' hchild hchild'⟩

/-- Where segments lead they lead in more data. -/
private theorem Extends.exists_descend (h : more.Extends d) {path : String} {segments : List String}
    {child : Data} (hend : d.descend path segments = .ok child) :
    ∃ child', more.descend path segments = .ok child' ∧ child'.Extends child := by
  -- Each child of the walk is there in what extends the data, and extends it
  induction segments generalizing d more with
  | nil =>
    obtain rfl := Except.ok.inj hend
    exact ⟨more, rfl, h⟩
  | cons segment segments ih =>
    rw [descend] at hend
    cases hnext : d.child? segment with
    | none => simp [hnext] at hend
    | some next =>
      simp only [hnext] at hend
      obtain ⟨next', hnext', hextends⟩ := h.exists_child hnext
      rw [descend, hnext']
      exact ih hextends hend

/-- Following segments fails in one way only: something is lacking. -/
private theorem exists_unknownVariable_of_descend {path : String} {segments : List String}
    {fault : Fault} (h : d.descend path segments = .error fault) :
    ∃ segment, fault = .unknownVariable segment path := by
  obtain ⟨before, segment, after, last, -, -, -, rfl⟩ := descend_eq_error_iff.mp h
  exact ⟨segment, rfl⟩

/-- More data answer a path as before, with the number or with the fault of children at its
    end, unless something was lacking. -/
theorem numberAt_eq_of_extends (h : more.Extends d) {path : String}
    (hknown : ∀ segment, d.numberAt path ≠ .error (.unknownVariable segment path)) :
    more.numberAt path = d.numberAt path := by
  cases hend : d.descend path (Path.segments path) with
  | error fault =>
    obtain ⟨segment, rfl⟩ := exists_unknownVariable_of_descend hend
    refine absurd ?_ (hknown segment)
    rw [numberAt, hend]
  | ok child =>
    obtain ⟨child', hend', hextends⟩ := h.exists_descend hend
    rw [numberAt, numberAt, hend, hend']
    -- Both are the same number, or both are children
    cases hextends with
    | number x => rfl
    | children _ _ => rfl

end Data

/-! ## Evaluations -/

namespace Formula

/-- Where no variable is unknown, evaluating a formula over more data is the same run: it takes
    the same steps and has the same value or fails with the same fault. -/
theorem evaluate_eq_of_extends (limit : Nat) (formula : String) {d more : Data}
    (h : more.Extends d)
    (hknown : ∀ segment path,
      (evaluate limit d.numberAt formula).outcome ≠ .error (.unknownVariable segment path)) :
    evaluate limit more.numberAt formula = evaluate limit d.numberAt formula := by
  apply evaluate_eq_of_evalFirst
  intro first others hparse
  apply Expr.evalFirst_eq_of_asked
  intro path hasked
  apply Data.numberAt_eq_of_extends h
  intro segment hlacking
  -- A path that is lacking would be the end of the run
  apply hknown segment path
  rw [outcome_evaluate, hparse]
  exact (Expr.visits_evalFirst first others).outcome_of_refused hasked hlacking

/-- A division by zero stays one when a name is added, and so does a path that ends at
    children. -/
theorem evaluate_eq_of_extends_division :
    let d := Data.ofPairs [("a", .number 0), ("b", .ofPairs [("c", .number 1)])]
    let more := d.put "x" 7
    more.Extends d ∧
      (evaluate 1 more.numberAt "Divide(b.c, a)").outcome = .error .divisionByZero ∧
      (evaluate 1 more.numberAt "b").outcome = .error (.notANumber "b") := by
  intro d more
  -- The additional name is one that the data do not have
  have hextends : more.Extends d := Data.extends_put rfl 7
  have hdivision : (evaluate 1 d.numberAt "Divide(b.c, a)").outcome = .error .divisionByZero := by
    decide +kernel
  have hchildren : (evaluate 1 d.numberAt "b").outcome = .error (.notANumber "b") := by
    decide +kernel
  refine ⟨hextends, ?_, ?_⟩
  · rw [evaluate_eq_of_extends 1 _ hextends (by rw [hdivision]; exact nofun), hdivision]
  · rw [evaluate_eq_of_extends 1 _ hextends (by rw [hchildren]; exact nofun), hchildren]

end Formula

end Reckoner
