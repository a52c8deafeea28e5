import Reckoner.Proofs.Adjacency
import Reckoner.Proofs.SuitableData

/-!
# Walking along paths

A path leads into data name by name, from the outside to the inside, and what it comes to is
the number at its end or the fault of the first name that leads nowhere.  The names are those
that a formula spells with dots between them, with or without spaces around the dots.

## Key results

- `Data.numberAt_eq_iff_answers`: the answer to a path, told by where its segments lead
- `Token.Dotted.spells`: names with dots and spaces between them spell a path
- `Formula.evaluate_path`: evaluating a path that is spelled with spaces is walking along it
-/

namespace Reckoner

namespace Data

/-! ## Answers -/

/-- Nothing stands in the data under this name. -/
inductive Lacks (name : String) : Data → Prop where
  | number (x : Float) : Lacks name (number x)
  | children {entries : List (String × Data)} (h : ∀ entry ∈ entries, entry.1 ≠ name) :
    Lacks name (children entries)

/-- What data answer to names that are followed one after the other: the number to which all
    of them lead, or else the fault of the first that leads nowhere, or of children at the
    end.  Both faults give the path as a whole. -/
inductive Answers (path : String) (d : Data) (names : List String) : Except Fault Float → Prop where
  | number {x : Float} (hlast : d.at? names = some (number x)) : Answers path d names (.ok x)
  | unknownVariable {before after : List String} {name : String} {last : Data}
    (hnames : names = before ++ name :: after) (hlast : d.at? before = some last)
    (hlacks : last.Lacks name) : Answers path d names (.error (.unknownVariable name path))
  | notANumber {entries : List (String × Data)} (hlast : d.at? names = some (children entries)) :
    Answers path d names (.error (.notANumber path))

/-- A name leads nowhere if no entry has it. -/
private theorem entry?_eq_none_iff {α : Type} {name : String} {entries : List (String × α)} :
    entry? name entries = none ↔ ∀ entry ∈ entries, entry.1 ≠ name := by
  induction entries with
  | nil => simp [ entry?]
  | cons entry entries ih =>
    rw [List.forall_mem_cons, ← ih, entry?]
    by_cases hname : name = entry.1
    · simp [hname]
    · simp [hname, Ne.symm hname]

/-- A name leads nowhere if the data lack it. -/
private theorem child?_eq_none_iff {d : Data} {name : String} :
    d.child? name = none ↔ d.Lacks name := by
  cases d with
  | number x => exact iff_of_true rfl (.number x)
  | children entries =>
    rw [child?, entry?_eq_none_iff]
    constructor
    · exact .children
    · rintro ⟨⟩
      assumption

/-- The number at a path is what data answer to its segments. -/
theorem numberAt_eq_iff_answers (d : Data) (path : String) (outcome : Except Fault Float) :
    d.numberAt path = outcome ↔ Answers path d (Path.segments path) outcome := by
  have hends : ∀ last, d.descend path (Path.segments path) = .ok last ↔
      d.at? (Path.segments path) = some last := fun last => descend_eq_ok_iff
  constructor
  · rintro rfl
    rw [numberAt]
    -- The walk stops inside the path or ends at a number or at children
    cases hdescend : d.descend path (Path.segments path) with
    | error fault =>
      obtain ⟨before, name, after, last, hnames, hlast, hnone, rfl⟩ :=
        descend_eq_error_iff.mp hdescend
      exact .unknownVariable hnames hlast (child?_eq_none_iff.mp hnone)
    | ok last =>
      rw [hends] at hdescend
      cases last with
      | number x => exact .number hdescend
      | children entries => exact .notANumber hdescend
  · intro h
    rw [numberAt]
    cases h with
    | number hlast => rw [(hends _).mpr hlast]
    | notANumber hlast => rw [(hends _).mpr hlast]
    | @unknownVariable before after name last hnames hlast hlacks =>
      rw [descend_eq_error_iff.mpr
        ⟨before, name, after, last, hnames, hlast, child?_eq_none_iff.mpr hlacks, rfl⟩]

end Data

/-! ## Spelled paths -/

namespace Token

/-- The text consists of names with a dot between neighbours and any number of spaces around
    the dots. -/
inductive Dotted : List String → List Char → Prop where
  | single (name : String) : Dotted [name] name.toList
  | cons (name : String) (before after : Nat) {names : List String} {text : List Char}
    (h : Dotted names text) :
    Dotted (name :: names)
      (name.toList ++ (List.replicate before ' ' ++ '.' :: (List.replicate after ' ' ++ text)))

theorem Dotted.ne_nil {names : List String} {text : List Char} (h : Dotted names text) :
    names ≠ [] := by
  cases h <;> exact List.cons_ne_nil _ _

/-- Names that formulas can spell are scanned into words and dots, wherever spaces stand. -/
theorem Dotted.spells {names : List String} {text : List Char} (h : Dotted names text)
    (hnames : ∀ name ∈ names, IsName name) :
    Spells text ([dot].intercalate (names.map fun name => [word name])) := by
  induction h with
  | single name => exact spells_word (hnames name List.mem_cons_self)
  | @cons name before after names text h ih =>
    obtain ⟨hname, hnames⟩ := List.forall_mem_cons.mp hnames
    intro rest us hrest hus hscans
    -- From the end: the other names, the dot, and then the first name
    have htail := ((ih hnames rest us hrest hus hscans).spaces after).symbol (c := '.') (t := dot)
      (by decide) (by decide) (by decide) fun _ => rfl
    have hclear : Clear Char.isAlphanum
        (List.replicate before ' ' ++ '.' :: (List.replicate after ' ' ++ (text ++ rest))) := by
      cases before <;> exact clear_cons.mpr (by decide)
    have hall := spells_word hname _ _ hclear (by simp) (htail.spaces before)
    obtain ⟨next, others, rfl⟩ := List.exists_cons_of_ne_nil h.ne_nil
    rw [List.map_cons, List.map_cons, List.intercalate_cons_cons]
    simpa only [List.append_assoc, List.cons_append, List.nil_append, List.map_cons] using hall

end Token

/-! ## Evaluating paths -/

namespace Formula

open Token

variable {limit : Nat} {formula : String} {names : List String}

/-- Names with dots and spaces between them are parsed as the path that joins them. -/
theorem parse_of_dotted (hdotted : Dotted names formula.toList)
    (hnames : ∀ name ∈ names, IsName name) :
    (parse limit formula).outcome = .ok (.program [.path (Path.join names)]) := by
  have hdots : ∀ name ∈ names, '.' ∉ name.toList :=
    fun name hname => (hnames name hname).not_mem_dot
  have hscans := hdotted.spells hnames [] [] (clear_nil _) (by simp) Scans.nil
  -- What the spelling is scanned as is the spelling of the path
  apply parse_of_scans
  · rw [List.flatMap_singleton, Expr.spelling, Path.spelling,
      Path.segments_join hdotted.ne_nil hdots]
    rwa [List.append_nil, List.append_nil] at hscans
  · exact List.forall_mem_singleton.mpr ⟨.path _, Nat.zero_le _⟩

/-- The path that joins names without dots is answered by following these names, the empty
    name included.  If they are names that a formula can spell, then evaluating them with dots
    between them, whatever spaces stand around the dots, gives this answer. -/
theorem evaluate_path (d : Data) (names : List String) (hne : names ≠ [])
    (hdots : ∀ name ∈ names, '.' ∉ name.toList) :
    (∀ outcome, d.numberAt (Path.join names) = outcome ↔
      Data.Answers (Path.join names) d names outcome) ∧
    ((∀ name ∈ names, IsName name) → ∀ formula : String, Dotted names formula.toList →
      ∀ limit, (evaluate limit d.numberAt formula).outcome = d.numberAt (Path.join names)) := by
  refine ⟨fun outcome => ?_, fun hnames formula hdotted limit => ?_⟩
  · rw [Data.numberAt_eq_iff_answers, Path.segments_join hne hdots]
  · exact ((outcomes_of_parse_cons (parse_of_dotted hdotted hnames)).2 d.numberAt).1

/-- A path goes through an empty name and no further than to a number; a formula with spaces
    around its dot has the number at the end of its path. -/
theorem evaluate_path_through_empty_name :
    let d := Data.children [("a", .children [("", .number 2), ("b", .number 7)])]
    d.numberAt "a..c" = .error (.unknownVariable "c" "a..c") ∧
      ∀ limit, (evaluate limit d.numberAt "a  . b").outcome = .ok 7 := by
  intro d
  -- The empty name leads to a number, which has no children
  have hempty : Path.join ["a", "", "c"] = "a..c" := by decide
  have hjoin : Path.join ["a", "b"] = "a.b" := by decide
  have hwithin : d.at? ["a", ""] = some (.number 2) := rfl
  have hend : d.at? ["a", "b"] = some (.number 7) := rfl
  obtain ⟨hwalk, -⟩ := evaluate_path d ["a", "", "c"] (by decide) (by decide)
  obtain ⟨hwalk', hevaluate⟩ := evaluate_path d ["a", "b"] (by decide) (by decide)
  have hdotted : Token.Dotted ["a", "b"] "a  . b".toList := .cons "a" 2 1 (.single "b")
  rw [hempty] at hwalk
  rw [hjoin] at hwalk' hevaluate
  refine ⟨(hwalk _).mpr (.unknownVariable rfl hwithin (.number 2)), fun limit => ?_⟩
  rw [hevaluate (by decide) "a  . b" hdotted, (hwalk' _).mpr (.number hend)]

end Formula

end Reckoner
