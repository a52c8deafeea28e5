import Reckoner.Draft
import Reckoner.Proofs.PathSegments

/-!
# How tokens spell expressions

The grammar of formulas as a function from trees to tokens, and how deeply the calls of
a tree are nested.

- `Expr.spelling`: the tokens that spell a tree
- `Expr.depth`: the greatest number of calls inside each other
- `Expr.ProgramFree`: trees without a program inside, which are those that tokens spell
-/

namespace Reckoner

/-! ## Separated lists -/

/-- Behind the first part, every part comes with a separator in front. -/
theorem intercalate_cons {α : Type} (sep part : List α) (parts : List (List α)) :
    sep.intercalate (part :: parts) = part ++ parts.flatMap (sep ++ ·) := by
  induction parts generalizing part with
  | nil => rw [List.intercalate_singleton, List.flatMap_nil, List.append_nil]
  | cons next parts ih =>
    rw [List.intercalate_cons_cons, ih, List.flatMap_cons]
    simp only [List.append_assoc]

/-- A part at the end comes with a separator in front. -/
private theorem intercalate_concat {α : Type} {parts : List (List α)} (hne : parts ≠ [])
    (sep part : List α) :
    sep.intercalate (parts ++ [part]) = sep.intercalate parts ++ sep ++ part := by
  -- With the first part apart, both sides are parts with a separator in front
  obtain ⟨first, parts, rfl⟩ := List.exists_cons_of_ne_nil hne
  rw [List.cons_append, intercalate_cons, intercalate_cons, List.flatMap_append,
    List.flatMap_singleton]
  simp only [List.append_assoc]

/-- With a separator behind every part there is one more than between the parts. -/
theorem flatMap_append_eq_intercalate {α : Type} {parts : List (List α)} (hne : parts ≠ [])
    (sep : List α) : parts.flatMap (· ++ sep) = sep.intercalate parts ++ sep := by
  induction parts with
  | nil => exact absurd rfl hne
  | cons part parts ih =>
    cases parts with
    | nil => simp
    | cons next parts =>
      rw [List.flatMap_cons, ih (List.cons_ne_nil _ _), List.intercalate_cons_cons]
      simp only [List.append_assoc]

/-- What stands in a part stands in the row. -/
theorem mem_intercalate_of_mem {α : Type} {sep part : List α} {parts : List (List α)} {a : α}
    (hpart : part ∈ parts) (ha : a ∈ part) : a ∈ sep.intercalate parts := by
  obtain ⟨first, rest, rfl⟩ := List.exists_cons_of_ne_nil (List.ne_nil_of_mem hpart)
  rw [intercalate_cons]
  rcases List.mem_cons.mp hpart with rfl | hpart
  · exact List.mem_append_left _ ha
  · exact List.mem_append_right _
      (List.mem_flatMap.mpr ⟨part, hpart, List.mem_append_right _ ha⟩)

/-- Without a separator the parts are put side by side. -/
theorem nil_intercalate {α : Type} (parts : List (List α)) :
    [].intercalate parts = parts.flatten := by
  cases parts with
  | nil => rfl
  | cons part parts =>
    rw [intercalate_cons, List.flatten_cons]
    simp only [List.nil_append, List.flatMap_id']

/-- A row is changed item by item, with separators and all. -/
theorem map_intercalate {α β : Type} (f : α → β) (sep : List α) (parts : List (List α)) :
    (sep.intercalate parts).map f = (sep.map f).intercalate (parts.map (List.map f)) := by
  cases parts with
  | nil => rfl
  | cons part parts =>
    rw [List.map_cons, intercalate_cons, intercalate_cons, List.map_append, List.map_flatMap,
      List.flatMap_map]
    simp only [List.map_append]

/-! ## Spelling -/

namespace Path

/-- The words of a path with dots between them. -/
def spelling (path : String) : List Token :=
  [Token.dot].intercalate ((segments path).map fun segment => [Token.word segment])

/-- A name without a dot is spelled by one word. -/
theorem spelling_of_not_mem {name : String} (h : '.' ∉ name.toList) :
    spelling name = [.word name] := by
  rw [spelling, segments_of_not_mem h, List.map_singleton, List.intercalate_singleton]

/-- A longer path is spelled by a dot and a word more. -/
theorem spelling_append_dot (path : String) {name : String} (h : '.' ∉ name.toList) :
    spelling (path ++ "." ++ name) = spelling path ++ [.dot, .word name] := by
  have hne : (segments path).map (fun segment => [Token.word segment]) ≠ [] := by
    simpa using segments_ne_nil path
  rw [spelling, segments_append_dot path h, List.map_append, List.map_singleton,
    intercalate_concat hne, spelling, List.append_assoc, List.singleton_append]

end Path

namespace Expr

mutual

/-- The tokens that spell a tree: the arguments of a call stand in parentheses with
    commas between them, the expressions of a program side by side. -/
def spelling : Expr → List Token
  | literal value => [.number value]
  | path dotted => Path.spelling dotted
  | call name args =>
    .function name :: .leftParen :: ([.comma].intercalate (spellings args) ++ [.rightParen])
  | program body => (spellings body).flatten

/-- The tokens of each of a row of trees. -/
def spellings : List Expr → List (List Token)
  | [] => []
  | e :: es => e.spelling :: spellings es

end

theorem spellings_eq_map (es : List Expr) : spellings es = es.map spelling := by
  induction es with
  | nil => rfl
  | cons e es ih => rw [spellings, ih, List.map_cons]

/-! ## Nesting -/

mutual

/-- How many calls of a tree are inside each other at most. -/
def depth : Expr → Nat
  | literal _ => 0
  | path _ => 0
  | call _ args => maxDepth args + 1
  | program body => maxDepth body

/-- The greatest depth in a row of trees. -/
def maxDepth : List Expr → Nat
  | [] => 0
  | e :: es => max e.depth (maxDepth es)

end

/-- The greatest depth is within a bound if every depth is. -/
theorem maxDepth_le_iff {es : List Expr} {n : Nat} : maxDepth es ≤ n ↔ ∀ e ∈ es, e.depth ≤ n := by
  induction es with
  | nil => simp [maxDepth]
  | cons e es ih => rw [maxDepth, Nat.max_le, ih, List.forall_mem_cons]

/-- A call is one deeper than its arguments. -/
theorem depth_call_le_iff {name : String} {args : List Expr} {n : Nat} :
    (call name args).depth ≤ n ↔ 0 < n ∧ ∀ e ∈ args, e.depth + 1 ≤ n := by
  rw [depth]
  cases n with
  | zero => simp
  | succ n => simp [maxDepth_le_iff]

/-! ## Trees without programs inside -/

/-- No program stands in the tree, not even at its root. -/
inductive ProgramFree : Expr → Prop where
  | literal (value : Int) : ProgramFree (literal value)
  | path (dotted : String) : ProgramFree (path dotted)
  | call {name : String} {args : List Expr} (hargs : ∀ e ∈ args, ProgramFree e) :
    ProgramFree (call name args)

end Expr

end Reckoner
