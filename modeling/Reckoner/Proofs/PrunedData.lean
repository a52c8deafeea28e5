import Reckoner.Proofs.AskedPaths
import Reckoner.Proofs.Reprint

/-!
# Data that no formula can name

The segments of a path that a formula spells are names of letters.  So a formula sees nothing
of what data have under any other name: evaluating it is the same with all such entries left
out.

## Key results

- `Data.child?_prune`: pruned data have the children with spelled names, pruned themselves
- `Data.numberAt_prune`: paths of spelled names lead where they led
- `Expr.isName_of_mem_segments`: which segments the paths of a formula have
- `Formula.evaluate_prune`: evaluation over pruned data
-/

namespace Reckoner

namespace Data

/-! ## Pruning -/

mutual

/-- The data without all entries, at every depth, whose name no formula can spell. -/
def prune : Data → Data
  | number value => number value
  | children entries => children (pruneEntries entries)

/-- The entries whose name a formula can spell, with what is under them pruned. -/
def pruneEntries : List (String × Data) → List (String × Data)
  | [] => []
  | (name, child) :: rest =>
    if Token.IsName name then (name, child.prune) :: pruneEntries rest else pruneEntries rest

end

/-- Of the pruned children only those with the name of a variable are left. -/
private theorem child?_pruneEntries (name : String) (entries : List (String × Data)) :
    (children (pruneEntries entries)).child? name =
      if Token.IsName name then ((children entries).child? name).map prune else none := by
  induction entries with
  | nil => simp [pruneEntries, child?, entry?]
  | cons entry rest ih =>
    obtain ⟨other, child⟩ := entry
    simp only [child?] at ih ⊢
    -- An entry is left out if its name cannot be spelled, so another name never leads to it
    by_cases hsame : name = other
    · subst hsame
      by_cases hname : Token.IsName name
      · simp [pruneEntries, entry?, hname]
      · simp [pruneEntries, hname, ih]
    · by_cases hother : Token.IsName other
      · simp [pruneEntries, entry?, hsame, hother, ih]
      · simp [pruneEntries, entry?, hsame, hother, ih]

/-- Spelled names lead into pruned data to what they led to before, pruned; all others lead
    nowhere. -/
theorem child?_prune (d : Data) (name : String) :
    d.prune.child? name = if Token.IsName name then (d.child? name).map prune else none := by
  cases d with
  | number x => simp [prune, child?]
  | children entries => exact child?_pruneEntries name entries

/-! ## Answers to paths -/

/-- Spelled segments end in pruned data where they ended before, or lead as far. -/
theorem descend_prune (path : String) (d : Data) {segments : List String}
    (h : ∀ segment ∈ segments, Token.IsName segment) :
    d.prune.descend path segments = (d.descend path segments).map prune := by
  -- The induction is on the way down, and each step is at a name, which stays
  induction segments generalizing d with
  | nil => rfl
  | cons segment segments ih =>
    obtain ⟨hsegment, hsegments⟩ := List.forall_mem_cons.mp h
    rw [descend, descend, child?_prune, if_pos hsegment]
    cases d.child? segment with
    | none => rfl
    | some child => exact ih child hsegments

/-- A path of spelled names has the same number as before, or fails with the same fault. -/
theorem numberAt_prune (d : Data) {path : String}
    (h : ∀ segment ∈ Path.segments path, Token.IsName segment) :
    d.prune.numberAt path = d.numberAt path := by
  rw [numberAt, numberAt, descend_prune path d h]
  cases d.descend path (Path.segments path) with
  | error fault => rfl
  | ok child =>
    -- What was a number is one, and what had children has children, though maybe fewer
    cases child with
    | number x => simp [Except.map, prune]
    | children entries => simp [Except.map, prune]

end Data

/-! ## Paths of formulas -/

namespace Expr

private theorem spellable_args {name : String} {args : List Expr} (h : (call name args).Spellable) :
    ∀ arg ∈ args, arg.Spellable := by
  cases h with
  | call _ hargs => exact hargs

/-- The segments of a path in a spellable tree are names. -/
theorem isName_of_mem_segments {e : Expr} (he : e.Spellable) {dotted : String}
    (h : dotted ∈ paths e.postorder) : ∀ segment ∈ Path.segments dotted, Token.IsName segment := by
  cases forall_mem_postorder (fun _ _ => spellable_args) he _ (mem_paths_iff.mp h) with
  | path hne hnames =>
    rwa [Path.segments_join hne fun segment hsegment => (hnames segment hsegment).not_mem_dot]

end Expr

/-! ## Evaluations -/

namespace Formula

/-- A formula makes one run over data and over the pruned data. -/
private theorem evaluate_numberAt_prune (limit : Nat) (d : Data) (formula : String) :
    evaluate limit d.prune.numberAt formula = evaluate limit d.numberAt formula := by
  apply evaluate_eq_of_evalFirst
  intro first others hparse
  apply Expr.evalFirst_eq_of_asked
  intro path hasked
  -- What is read from a text can be spelled, and so can the names in its paths
  have hspell : first.Spellable := by
    obtain ⟨body, hbody, hparts⟩ := wellFormed_of_parse hparse
    cases hbody
    exact (hparts first List.mem_cons_self).1
  apply Data.numberAt_prune
  exact Expr.isName_of_mem_segments hspell
    ((Expr.visits_evalFirst first others).mem_paths_of_asked hasked)

/-- Evaluating a formula over data is the same run as over the pruned data: it takes the same
    steps and has the same value or fails with the same fault.  So no formula tells data apart
    that are the same when pruned. -/
theorem evaluate_prune (limit : Nat) (d : Data) (formula : String) :
    evaluate limit d.prune.numberAt formula = evaluate limit d.numberAt formula ∧
      ∀ other : Data, other.prune = d.prune →
        evaluate limit other.numberAt formula = evaluate limit d.numberAt formula := by
  refine ⟨evaluate_numberAt_prune limit d formula, fun other h => ?_⟩
  rw [← evaluate_numberAt_prune limit d, ← evaluate_numberAt_prune limit other, h]

/-- A digit or a dot in a name, or no letter at all, hides what is under it, also inside what
    is not hidden. -/
theorem evaluate_prune_hidden_names :
    let d := Data.children [("a", .children [("", .number 1), ("b", .number 2)])]
    let other := Data.children
      [("a", .children [("b", .number 2), ("b2", .number 3)]), ("a.b", .number 4)]
    other.prune = d.prune ∧
      ∀ limit formula,
        evaluate limit other.numberAt formula = evaluate limit d.numberAt formula := by
  intro d other
  -- The data differ at names that no formula can spell: an empty one and ones with digits or dots
  have hprune : other.prune = d.prune := rfl
  exact ⟨hprune, fun limit formula => (evaluate_prune limit d formula).2 other hprune⟩

end Formula

end Reckoner
