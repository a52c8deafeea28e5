import Reckoner.Proofs.SuitableData

/-!
# Values in place of expressions

An expression inside a tree can be replaced by a name to which the data give its value.  The
outcome of the tree stays the same, value or fault, since the name is new to the tree: data
with a number under it answer every other path as before.

## Key results

- `Data.numberAt_put_self`, `Data.numberAt_put_of_ne`: data with a number under a name
- `Expr.SameOutcome.fill`: an outcome depends on what fills a place by its outcome only
- `Expr.outcome_evalFirst_fill_put`: a value in place of its expression
-/

namespace Reckoner

namespace Data

/-! ## Data with a number under a name -/

/-- A name without dots leads to the number that was put under it. -/
theorem numberAt_put_self (entries : List (String × Data)) {name : String}
    (hname : '.' ∉ name.toList) (x : Float) :
    ((children entries).put name x).numberAt name = .ok x := by
  rw [numberAt_eq_ok_iff, Path.segments_of_not_mem hname, at?, put, child?,
    entry?_insertEntry_self]
  rfl

/-- Other names lead where they led before. -/
private theorem child?_put_of_ne (d : Data) {name other : String} (h : other ≠ name) (x : Float) :
    (d.put name x).child? other = d.child? other := by
  cases d with
  | number y => rfl
  | children entries => exact entry?_insertEntry_of_ne h _ entries

/-- Paths that do not start with the name are answered as before. -/
theorem numberAt_put_of_ne (d : Data) {name path : String}
    (h : (Path.segments path).head? ≠ some name) (x : Float) :
    (d.put name x).numberAt path = d.numberAt path := by
  -- The first segment alone decides which child is entered
  obtain ⟨first, rest, hsegments⟩ := List.exists_cons_of_ne_nil (Path.segments_ne_nil path)
  have hfirst : first ≠ name := by
    rintro rfl
    exact h (by rw [hsegments, List.head?_cons])
  rw [numberAt, numberAt, hsegments, descend, descend, child?_put_of_ne d hfirst]

end Data

namespace Expr

/-! ## Places in trees -/

/-- A place in a tree, with all of the tree but what stands there. -/
inductive Place where
  /-- the root -/
  | here
  /-- a place inside of an argument of a call, between other arguments -/
  | argument (name : String) (before : List Expr) (inside : Place) (after : List Expr)

/-- The tree with an expression at the place. -/
def Place.fill : Place → Expr → Expr
  | here, e => e
  | argument name before inside after, e => call name (before ++ inside.fill e :: after)

/-! ## Evaluating a filled place -/

variable {context other : Context}

/-- Two expressions come to the same, value or fault, each over a context of its own. -/
def SameOutcome (other context : Context) (e f : Expr) : Prop :=
  (e.eval other).outcome = (f.eval context).outcome

/-- Expressions that come to the same one by one come to the same as a row. -/
private theorem outcome_evalAll_congr {es fs : List Expr}
    (h : List.Forall₂ (SameOutcome other context) es fs) :
    (evalAll other es).outcome = (evalAll context fs).outcome := by
  induction h with
  | nil => rfl
  | cons hhead _ ih =>
    rw [SameOutcome] at hhead
    rw [outcome_evalAll_cons, outcome_evalAll_cons, hhead, ih]

/-- Contexts that answer the paths of an expression alike make one run of it. -/
private theorem eval_eq_of_paths {e : Expr}
    (h : ∀ path ∈ paths e.postorder, other path = context path) :
    e.eval other = e.eval context :=
  eval_eq_of_asked fun path hasked => h path ((visits_eval e).mem_paths_of_asked hasked)

/-- Two expressions that come to the same at a place make trees that come to the same, if the
    paths of the tree are answered alike. -/
theorem SameOutcome.fill {place : Place} {e f : Expr} (h : SameOutcome other context e f)
    (hpaths : ∀ path ∈ paths (place.fill f).postorder, other path = context path) :
    SameOutcome other context (place.fill e) (place.fill f) := by
  induction place with
  | here => exact h
  | argument name before inside after ih =>
    -- The paths of every argument are among those of the call
    have harg : ∀ arg ∈ before ++ inside.fill f :: after, ∀ path ∈ paths arg.postorder,
        other path = context path := by
      intro arg harg path hpath
      exact hpaths path (mem_paths_iff.mpr (mem_postorder_call harg (mem_paths_iff.mp hpath)))
    have hsame : ∀ arg ∈ before ++ inside.fill f :: after, SameOutcome other context arg arg :=
      fun arg hmem => congrArg Traced.outcome (eval_eq_of_paths (harg arg hmem))
    obtain ⟨hbefore, hrest⟩ := List.forall_mem_append.mp hsame
    obtain ⟨-, hafter⟩ := List.forall_mem_cons.mp hrest
    have hinside : SameOutcome other context (inside.fill e) (inside.fill f) :=
      ih (harg _ (by simp))
    have hrow := List.rel_append (List.forall₂_same.mpr hbefore)
      (.cons hinside (List.forall₂_same.mpr hafter))
    rw [SameOutcome, Place.fill, Place.fill, outcome_eval_call, outcome_eval_call,
      outcome_evalAll_congr hrow]

/-- A tree with an expression at a place is no program, unless that is one at the root. -/
private theorem evalFirst_fill {place : Place} {e : Expr} (h : ∀ body, e ≠ program body) :
    (place.fill e).evalFirst context = (place.fill e).eval context := by
  cases place with
  | here =>
    cases e with
    | program body => exact absurd rfl (h body)
    | _ => rfl
  | argument name before inside after => rfl

/-- An expression inside a tree has a value over data with children.  A name without dots, with
    which no path of the tree starts, can stand in its place: over the data with the value put
    under the name the tree comes to the same, value or fault. -/
theorem outcome_evalFirst_fill_put (place : Place) (e : Expr) (entries : List (String × Data))
    (name : String) (x : Float)
    (hvalue : (e.eval (Data.children entries).numberAt).outcome = .ok x)
    (hname : '.' ∉ name.toList)
    (hnew : ∀ dotted ∈ paths (place.fill e).postorder,
      (Path.segments dotted).head? ≠ some name) :
    ((place.fill (path name)).evalFirst ((Data.children entries).put name x).numberAt).outcome =
      ((place.fill e).evalFirst (Data.children entries).numberAt).outcome := by
  have hprogram : ∀ body, e ≠ program body := by
    rintro body rfl
    exact nomatch hvalue
  have hpath : ∀ body, path name ≠ program body := nofun
  have hsame : SameOutcome ((Data.children entries).put name x).numberAt
      (Data.children entries).numberAt (path name) e :=
    (Data.numberAt_put_self entries hname x).trans hvalue.symm
  -- Neither root is a program, so nothing but the place differs
  rw [evalFirst_fill hpath, evalFirst_fill hprogram]
  exact hsame.fill fun dotted hdotted => Data.numberAt_put_of_ne _ (hnew dotted hdotted) x

/-- A sum gives place to its value, and what is lacking beside it is still lacking. -/
theorem outcome_evalFirst_fill_put_sum :
    let entries := [("a", Data.children [("b", .number 1)])]
    let sum := call "Add" [path "a.b", literal 2]
    (sum.eval (Data.children entries).numberAt).outcome = .ok 3 ∧
      ((call "Divide" [path "s", path "c"]).evalFirst
        ((Data.children entries).put "s" 3).numberAt).outcome =
        .error (.unknownVariable "c" "c") := by
  intro entries sum
  have hvalue : (sum.eval (Data.children entries).numberAt).outcome = .ok 3 := by decide +kernel
  have hlacking : ((call "Divide" [sum, path "c"]).evalFirst
      (Data.children entries).numberAt).outcome = .error (.unknownVariable "c" "c") := by
    decide +kernel
  refine ⟨hvalue, ?_⟩
  -- The fault behind the sum is kept when its value takes its place
  rw [← hlacking]
  exact outcome_evalFirst_fill_put (.argument "Divide" [] .here [path "c"]) sum entries "s" 3
    hvalue (by decide) (by decide)

end Expr

end Reckoner
