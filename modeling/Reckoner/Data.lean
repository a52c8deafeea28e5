import Reckoner.Fault
import Reckoner.Json.Read
import Reckoner.Path

/-!
# Data

What the paths of a formula lead into: numbers, and named children that are data
themselves.

* `Data.ofPairs` collects pairs; the children are kept in the order of their
  names, and of two pairs with one name the later counts.
* `Data.numberAt` follows a dotted path to a number.
* `Data.ofJson?` reads data from JSON, which has to be objects and numbers
  throughout, and `Data.ofText?` from JSON text.
-/

namespace Reckoner

/-- A number, or named children.  Where a name stands twice the first counts, and
    whatever builds data keeps the names in order and apart. -/
inductive Data where
  | number (value : Float)
  | children (entries : List (String × Data))

/-- What answers a dotted path. -/
abbrev Context : Type := String → Except Fault Float

namespace Data

/-- A property of data holds if it passes from the children to what they are
    children of. -/
theorem induction {motive : Data → Prop} (number : ∀ value, motive (number value))
    (children : ∀ entries, (∀ entry ∈ entries, motive entry.2) → motive (children entries))
    (d : Data) : motive d :=
  @Data.rec motive (fun entries => ∀ entry ∈ entries, motive entry.2) (fun entry => motive entry.2)
    number children (fun _ h => absurd h List.not_mem_nil)
    (fun _ _ head tail => List.forall_mem_cons.2 ⟨head, tail⟩) (fun _ _ h => h) d

/-- Data without anything in them. -/
def empty : Data := children []

/-- Put an entry into a list ordered by name, in the place of one with that
    name. -/
def insertEntry {α : Type} (name : String) (value : α) :
    List (String × α) → List (String × α)
  | [] => [(name, value)]
  | (other, old) :: rest =>
    -- The entries are in the order of their names, so the place is the first later name.
    if name < other then (name, value) :: (other, old) :: rest
    else if name = other then (name, value) :: rest
    else (other, old) :: insertEntry name value rest

/-- The entry of a name, the first if there are several. -/
def entry? {α : Type} (name : String) : List (String × α) → Option α
  | [] => none
  | (other, value) :: rest => if name = other then some value else entry? name rest

/-- A name that was put in leads to what was put in. -/
theorem entry?_insertEntry_self {α : Type} (name : String) (value : α)
    (entries : List (String × α)) :
    entry? name (insertEntry name value entries) = some value := by
  induction entries with
  | nil => simp [insertEntry, entry?]
  | cons entry rest ih =>
    by_cases before : name < entry.1
    · simp [insertEntry, entry?, before]
    · by_cases same : name = entry.1
      · simp [insertEntry, entry?, same]
      · simp [insertEntry, entry?, before, same, ih]

/-- Other names lead where they led before. -/
theorem entry?_insertEntry_of_ne {α : Type} {name other : String} (h : other ≠ name)
    (value : α) (entries : List (String × α)) :
    entry? other (insertEntry name value entries) = entry? other entries := by
  induction entries with
  | nil => simp [insertEntry, entry?, h]
  | cons entry rest ih =>
    by_cases before : name < entry.1
    · simp [insertEntry, entry?, before, h]
    · by_cases same : name = entry.1
      · have apart : other ≠ entry.1 := same ▸ h
        simp [insertEntry, entry?, same, apart]
      · simp [insertEntry, entry?, before, same, ih]

/-- The children that pairs name, each pair in turn put among those before it. -/
def ofPairs (pairs : List (String × Data)) : Data :=
  children (pairs.foldl (fun entries pair => insertEntry pair.1 pair.2 entries) [])

/-- Put a number under a name; a bare number has no children and stays. -/
def put (d : Data) (name : String) (value : Float) : Data :=
  match d with
  | number x => number x
  | children entries => children (insertEntry name (number value) entries)

/-- The child of a name. -/
def child? (d : Data) (name : String) : Option Data :=
  match d with
  | number _ => none
  | children entries => entry? name entries

/-- Follow segments of a path; the fault names the first that leads nowhere. -/
def descend (path : String) (d : Data) : List String → Except Fault Data
  | [] => .ok d
  | segment :: segments =>
    match d.child? segment with
    -- A number has no children, so it lacks every segment.
    | none => .error (.unknownVariable segment path)
    | some child => descend path child segments

/-- The number at the end of a path. -/
def numberAt (d : Data) : Context := fun path =>
  match d.descend path (Path.segments path) with
  | .error fault => .error fault
  | .ok (number value) => .ok value
  | .ok (children _) => .error (.notANumber path)

mutual

/-- Data from JSON: numbers and objects of data, and nothing else anywhere. -/
def ofJson? : Json → Option Data
  | .integer value => some (number (Float.ofInt value))
  | .float value => some (number value)
  | .object fields => (pairsOfJson? fields).map ofPairs
  | .null => none
  | .bool _ => none
  | .string _ => none
  | .array _ => none

/-- The pairs of the fields of an object, repeated keys included. -/
def pairsOfJson? : List (String × Json) → Option (List (String × Data))
  | [] => some []
  | (key, value) :: fields =>
    match ofJson? value, pairsOfJson? fields with
    -- Repeated keys stay here and are told apart when the pairs are collected.
    | some value, some pairs => some ((key, value) :: pairs)
    | _, _ => none

end

/-- How many objects may be inside each other in a text of data. -/
def maxTextDepth : Nat := 127

/-- Data from JSON text. -/
def ofText? (text : String) : Option Data :=
  (Json.read? maxTextDepth text).bind ofJson?

end Data

end Reckoner
