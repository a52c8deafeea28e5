import Mathlib.Data.List.Induction
import Mathlib.Data.List.Sort
import Reckoner.Proofs.PathWalk

/-!
# Data collected from pairs

Collecting puts one pair after the other among the children.  So of all pairs of a name the last
counts, the children stand in the order of their names, and where pairs of different names stand
to each other makes no difference.  A path leads on from the child of its first name.

## Key results

- `Data.mem_collected_iff`: the last pair of each name is what is collected
- `Data.collected_eq_of_sameByName`: the order of pairs of different names does not count
- `Data.numberAt_dot`: a path is answered by the child of its first name
- `Data.ofPairs_keeps_last`: data collected from pairs, and the answers to their paths
-/

namespace Reckoner

/-- The fault told of another path, if it tells of one. -/
def Fault.withPath (path : String) : Fault → Fault
  | unknownVariable segment _ => unknownVariable segment path
  | notANumber _ => notANumber path
  | fault => fault

/-- The code points of a text. -/
def codePoints (text : String) : List Nat :=
  text.toList.map Char.toNat

/-- Texts are ordered by their code points. -/
private theorem codePoints_lt {s t : String} (h : s < t) : codePoints s < codePoints t :=
  List.map_lt (fun _ _ hlt => hlt) (String.lt_iff.mp h)

namespace Data

section Pairs

variable {α : Type} {name : String} {value : α} {pairs others entries : List (String × α)}

/-! ## The last pair of a name -/

/-- The value of the last pair with a name. -/
def lastValue? (name : String) (pairs : List (String × α)) : Option α :=
  (pairs.findRev? fun pair => pair.1 = name).map Prod.snd

/-- The pairs of each name are the same in the same order, whatever pairs of other names stand
    between them. -/
def SameByName (pairs others : List (String × α)) : Prop :=
  ∀ name, pairs.filter (fun pair => pair.1 = name) = others.filter (fun pair => pair.1 = name)

/-- A pair at the end counts for its name, and no other pair does then. -/
theorem lastValue?_concat (name : String) (pairs : List (String × α)) (pair : String × α) :
    lastValue? name (pairs ++ [pair]) =
      if pair.1 = name then some pair.2 else lastValue? name pairs := by
  simp only [lastValue?, List.findRev?_eq_find?_reverse, List.reverse_append,
    List.reverse_singleton, List.singleton_append, List.find?_cons]
  by_cases hname : pair.1 = name
  · simp [hname]
  · simp [hname]

/-- A pair in front counts only if no later one has its name. -/
theorem lastValue?_cons (name : String) (pair : String × α) (pairs : List (String × α)) :
    lastValue? name (pair :: pairs) =
      (lastValue? name pairs).or (if pair.1 = name then some pair.2 else none) := by
  simp only [lastValue?, List.findRev?_eq_find?_reverse, List.reverse_cons, List.find?_append,
    List.find?_singleton, Option.map_or]
  by_cases hname : pair.1 = name
  · simp [hname]
  · simp [hname]

private theorem lastValue?_eq_none_iff :
    lastValue? name pairs = none ↔ ∀ pair ∈ pairs, pair.1 ≠ name := by
  simp [lastValue?, List.findRev?_eq_find?_reverse]

/-- Where pairs of other names stand is of no concern to a name. -/
private theorem lastValue?_eq_of_sameByName (h : SameByName pairs others) (name : String) :
    lastValue? name pairs = lastValue? name others := by
  simp only [lastValue?, List.findRev?_eq_find?_reverse, ← List.getLast?_filter, h name]

/-! ## Collecting pairs -/

/-- The entries that pairs leave behind when they are put in one after the other. -/
def collected (pairs : List (String × α)) : List (String × α) :=
  pairs.foldl (fun entries pair => insertEntry pair.1 pair.2 entries) []

private theorem collected_concat (pairs : List (String × α)) (pair : String × α) :
    collected (pairs ++ [pair]) = insertEntry pair.1 pair.2 (collected pairs) := by
  simp [collected]

/-- Collected entries are ordered by name, and no name stands twice. -/
theorem pairwise_collected (pairs : List (String × α)) :
    (collected pairs).Pairwise fun entry next => entry.1 < next.1 := by
  induction pairs using List.reverseRecOn with
  | nil => exact .nil
  | append_singleton pairs pair ih =>
    rw [collected_concat]
    exact pairwise_insertEntry ih pair.1 pair.2

/-- A name leads to the value of its last pair. -/
theorem entry?_collected (name : String) (pairs : List (String × α)) :
    entry? name (collected pairs) = lastValue? name pairs := by
  -- From the right, since a later pair overwrites an earlier one
  induction pairs using List.reverseRecOn with
  | nil => rfl
  | append_singleton pairs pair ih =>
    rw [collected_concat, lastValue?_concat]
    by_cases hname : pair.1 = name
    · rw [if_pos hname, ← hname, entry?_insertEntry_self]
    · rw [if_neg hname, entry?_insertEntry_of_ne (Ne.symm hname), ih]

/-- Where names are in order and apart every entry is found. -/
private theorem entry?_eq_some_iff (h : entries.Pairwise fun entry next => entry.1 < next.1) :
    entry? name entries = some value ↔ (name, value) ∈ entries := by
  refine ⟨mem_of_entry?_eq_some, fun hmem => ?_⟩
  induction entries with
  | nil => exact absurd hmem List.not_mem_nil
  | cons first rest ih =>
    obtain ⟨hfirst, hrest⟩ := List.pairwise_cons.mp h
    rw [ entry?]
    rcases List.mem_cons.mp hmem with rfl | hmem
    · rw [if_pos rfl]
    · -- The first name comes before all others, so it is another one
      have hne : name ≠ first.1 := by
        rintro rfl
        exact String.lt_irrefl _ (hfirst (first.1, value) hmem)
      rw [if_neg hne]
      exact ih hrest hmem

/-- What is collected is the last pair of each name. -/
theorem mem_collected_iff :
    (name, value) ∈ collected pairs ↔ lastValue? name pairs = some value := by
  rw [← entry?_eq_some_iff (pairwise_collected pairs), entry?_collected]

/-- The names that are collected are those of the pairs. -/
theorem name_mem_collected_iff :
    name ∈ (collected pairs).map Prod.fst ↔ name ∈ pairs.map Prod.fst := by
  have hlast : name ∈ (collected pairs).map Prod.fst ↔ lastValue? name pairs ≠ none := by
    simp [mem_collected_iff, Option.ne_none_iff_exists']
  rw [hlast, Ne, lastValue?_eq_none_iff]
  simp

/-- The same pairs of each name, in the same order, are collected to the same entries. -/
theorem collected_eq_of_sameByName (h : SameByName pairs others) :
    collected pairs = collected others := by
  -- Two lists in strict order with the same members are equal
  have : Std.Antisymm fun entry next : String × α => entry.1 < next.1 :=
    ⟨fun _ _ hlt hgt => absurd (String.lt_trans hlt hgt) (String.lt_irrefl _)⟩
  have : Std.Irrefl fun entry next : String × α => entry.1 < next.1 :=
    ⟨fun _ => String.lt_irrefl _⟩
  refine (pairwise_collected pairs).eq_of_mem_iff (pairwise_collected others) fun entry => ?_
  rw [mem_collected_iff, mem_collected_iff, lastValue?_eq_of_sameByName h]

end Pairs

/-! ## Paths by their first name -/

/-- What data answer at the end of a path: their number, or the fault of children. -/
def answer (path : String) : Data → Except Fault Float
  | number x => .ok x
  | children _ => .error (.notANumber path)

/-- The number at a path is asked of what the walk along it comes to. -/
theorem numberAt_eq_bind (d : Data) (path : String) :
    d.numberAt path = (d.descend path (Path.segments path)).bind (answer path) := by
  rw [numberAt]
  cases d.descend path (Path.segments path) with
  | error fault => rfl
  | ok last => cases last <;> rfl

/-- The path itself is only told, not followed. -/
private theorem descend_eq_mapError (d : Data) (path other : String) (segments : List String) :
    d.descend path segments = (d.descend other segments).mapError (Fault.withPath path) := by
  induction segments generalizing d with
  | nil => rfl
  | cons segment segments ih =>
    rw [descend, descend]
    cases d.child? segment with
    | none => rfl
    | some child => exact ih child

/-- A name without a dot leads to its child. -/
theorem numberAt_name (d : Data) {name : String} (hname : '.' ∉ name.toList) :
    d.numberAt name =
      match d.child? name with
      | none => .error (.unknownVariable name name)
      | some child => child.answer name := by
  rw [numberAt_eq_bind, Path.segments_of_not_mem hname, descend]
  cases d.child? name with
  | none => rfl
  | some child => rfl

/-- Behind a name without a dot the path goes on from the child of the name, which answers as it
    does by itself, though its faults tell of the whole path. -/
theorem numberAt_dot (d : Data) {name : String} (hname : '.' ∉ name.toList) (rest : String) :
    d.numberAt (name ++ "." ++ rest) =
      match d.child? name with
      | none => .error (.unknownVariable name (name ++ "." ++ rest))
      | some child => (child.numberAt rest).mapError (Fault.withPath (name ++ "." ++ rest)) := by
  rw [numberAt_eq_bind, Path.segments_dot, Path.segments_of_not_mem hname, List.singleton_append,
    descend]
  cases d.child? name with
  | none => rfl
  | some child =>
    -- The walk inside of the child is the same, but its faults name the shorter path
    simp only
    rw [descend_eq_mapError child _ rest, numberAt_eq_bind]
    cases child.descend rest (Path.segments rest) with
    | error fault => rfl
    | ok last => cases last <;> rfl

/-! ## Collected data -/

/-- The child of a name is the value of the last pair with it. -/
theorem child?_ofPairs (name : String) (pairs : List (String × Data)) :
    (ofPairs pairs).child? name = lastValue? name pairs :=
  entry?_collected name pairs

/-- Data collected from pairs are children with the names of the pairs, in the order of their
    code points, and each has the value of the last pair of its name; so pairs of different names
    may change places.  A path that starts with a name without a dot is answered by the value of
    the last pair of this name and by no other, or lacks this name if no pair has it. -/
theorem ofPairs_keeps_last (pairs : List (String × Data)) :
    (∃ entries, ofPairs pairs = children entries ∧
      (entries.map Prod.fst).Pairwise (fun name next => codePoints name < codePoints next) ∧
      (∀ name, name ∈ entries.map Prod.fst ↔ name ∈ pairs.map Prod.fst) ∧
      ∀ name value, (name, value) ∈ entries ↔ lastValue? name pairs = some value) ∧
    (∀ others, SameByName pairs others → ofPairs pairs = ofPairs others) ∧
    ∀ name, '.' ∉ name.toList →
      ((∀ pair ∈ pairs, pair.1 ≠ name) →
        (ofPairs pairs).numberAt name = .error (.unknownVariable name name) ∧
        ∀ rest, (ofPairs pairs).numberAt (name ++ "." ++ rest) =
          .error (.unknownVariable name (name ++ "." ++ rest))) ∧
      ∀ value, lastValue? name pairs = some value →
        (ofPairs pairs).numberAt name = value.answer name ∧
        ∀ rest, (ofPairs pairs).numberAt (name ++ "." ++ rest) =
          (value.numberAt rest).mapError (Fault.withPath (name ++ "." ++ rest)) := by
  refine ⟨⟨collected pairs, rfl, ?_, fun _ => name_mem_collected_iff, fun _ _ => mem_collected_iff⟩,
    fun others h => congrArg children (collected_eq_of_sameByName h), fun name hname => ⟨?_, ?_⟩⟩
  · -- Names are compared by their code points
    exact List.pairwise_map.mpr ((pairwise_collected pairs).imp codePoints_lt)
  · -- Both kinds of paths start at the child of the name, which is not there
    intro hnone
    have hchild : (ofPairs pairs).child? name = none :=
      (child?_ofPairs name pairs).trans (lastValue?_eq_none_iff.mpr hnone)
    refine ⟨?_, fun rest => ?_⟩
    · rw [numberAt_name _ hname, hchild]
    · rw [numberAt_dot _ hname, hchild]
  · -- Both kinds of paths start at the child of the name, which is the last value
    intro value hvalue
    have hchild : (ofPairs pairs).child? name = some value :=
      (child?_ofPairs name pairs).trans hvalue
    refine ⟨?_, fun rest => ?_⟩
    · rw [numberAt_name _ hname, hchild]
    · rw [numberAt_dot _ hname, hchild]

/-- Of two pairs with one name the later counts, as a whole, and the pair of another name may
    stand between them or behind them. -/
theorem ofPairs_keeps_last_repeated_name :
    let inner := ofPairs [("c", .number 3)]
    let pairs := [("b", ofPairs [("d", .number 1)]), ("a", .number 2), ("b", inner)]
    let others := [("b", ofPairs [("d", .number 1)]), ("b", inner), ("a", .number 2)]
    ofPairs pairs = ofPairs others ∧
      (ofPairs pairs).numberAt ("b" ++ "." ++ "c") = .ok 3 ∧
      (ofPairs pairs).numberAt ("b" ++ "." ++ "d") = .error (.unknownVariable "d" "b.d") ∧
      (ofPairs pairs).numberAt "c" = .error (.unknownVariable "c" "c") := by
  intro inner pairs others
  -- Only the pairs named `a` and `b` change places, and these are different names
  have hsame : SameByName pairs others := by
    intro name
    by_cases ha : "a" = name
    · subst ha
      rfl
    · simp [pairs, others, List.filter_cons, ha]
  obtain ⟨-, horder, hpaths⟩ := ofPairs_keeps_last pairs
  obtain ⟨-, hlast⟩ := hpaths "b" (by decide)
  obtain ⟨hnone, -⟩ := hpaths "c" (by decide)
  refine ⟨horder others hsame, ?_, ?_, ?_⟩
  · exact (hlast inner rfl).2 "c"
  · exact (hlast inner rfl).2 "d"
  · exact (hnone (by decide)).1

end Data

end Reckoner
