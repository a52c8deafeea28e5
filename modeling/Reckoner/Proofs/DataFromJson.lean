import Reckoner.Proofs.CollectedPairs

/-!
# Data from JSON

Data are read from JSON that has objects and numbers throughout; anything else is refused
wherever it stands, also in a field whose key a later field repeats.  What is read answers every
path as walking along the path through the JSON does, where the last field with a key counts.

## Key results

- `Data.ofJson?_isSome_iff`: which JSON data are read from
- `Data.lastValue?_pairsOfJson?`: reading the fields of an object keeps the last of each key
- `Data.numberAt_of_ofJson?`: the answers of the data that are read
- `Data.ofJson?_keeps_last_fields`: what is accepted, and how it answers
-/

namespace Reckoner

namespace Json

/-- This value is in JSON: it is the whole, or it is in an item of an array or in the value of a
    field, whether or not other fields have the same key. -/
inductive Occurs (part : Json) : Json → Prop where
  | whole : Occurs part part
  | item {items : List Json} {item : Json} (hitem : item ∈ items) (h : Occurs part item) :
    Occurs part (array items)
  | field {fields : List (String × Json)} {field : String × Json} (hfield : field ∈ fields)
    (h : Occurs part field.2) : Occurs part (object fields)

/-- Neither a number nor an object. -/
inductive Foreign : Json → Prop where
  | null : Foreign null
  | bool (value : Bool) : Foreign (bool value)
  | string (value : String) : Foreign (string value)
  | array (items : List Json) : Foreign (array items)

/-- The number to which segments of a path lead in JSON, or the fault of the first that leads
    nowhere.  At each object the last field with the segment as its key is taken as a whole, and
    no other field has a part in it. -/
def follow (path : String) : List String → Json → Except Fault Float
  | [], integer value => .ok (Float.ofInt value)
  | [], float value => .ok value
  | [], _ => .error (.notANumber path)
  | segment :: segments, object fields =>
    match Data.lastValue? segment fields with
    | none => .error (.unknownVariable segment path)
    | some value => follow path segments value
  | segment :: _, _ => .error (.unknownVariable segment path)

end Json

namespace Data

variable {json : Json} {fields : List (String × Json)} {pairs : List (String × Data)} {d : Data}

/-! ## What is accepted -/

/-- The pairs of fields can be read if each value can. -/
private theorem pairsOfJson?_isSome_iff :
    (pairsOfJson? fields).isSome ↔ ∀ field ∈ fields, (ofJson? field.2).isSome := by
  induction fields with
  | nil => simp [pairsOfJson?]
  | cons field fields ih =>
    rw [List.forall_mem_cons, ← ih, pairsOfJson?]
    cases ofJson? field.2 with
    | none => simp
    | some child => cases pairsOfJson? fields <;> simp

/-- An object is accepted if the value of each field is. -/
theorem ofJson?_object_isSome_iff :
    (ofJson? (.object fields)).isSome ↔ ∀ field ∈ fields, (ofJson? field.2).isSome := by
  rw [ofJson?, Option.isSome_map, pairsOfJson?_isSome_iff]

/-- Nothing is made of what is neither a number nor an object. -/
private theorem ofJson?_of_foreign (h : json.Foreign) : ofJson? json = none := by
  cases h <;> rw [ofJson?]

/-- JSON is accepted if nothing in it is foreign. -/
theorem ofJson?_isSome_iff :
    (ofJson? json).isSome ↔ ∀ part : Json, part.Occurs json → ¬ part.Foreign := by
  constructor
  · intro hsome part hpart hforeign
    -- What holds the part was accepted too, from the outside to the inside
    induction hpart with
    | whole => simp [ofJson?_of_foreign hforeign] at hsome
    | item hitem h ih => simp [ofJson?] at hsome
    | field hfield h ih => exact ih (ofJson?_object_isSome_iff.mp hsome _ hfield)
  · intro h
    induction json using Json.induction with
    | integer value => simp [ofJson?]
    | float value => simp [ofJson?]
    | object fields ih =>
      rw [ofJson?_object_isSome_iff]
      exact fun field hfield => ih field hfield fun part hpart => h part (.field hfield hpart)
    | null => exact absurd .null (h _ .whole)
    | bool value => exact absurd (.bool value) (h _ .whole)
    | string value => exact absurd (.string value) (h _ .whole)
    | array items ih => exact absurd (.array items) (h _ .whole)

/-! ## What is read -/

/-- The last pair of a name is read from the last field with this key. -/
theorem lastValue?_pairsOfJson? (h : pairsOfJson? fields = some pairs) (name : String) :
    (lastValue? name fields = none ∧ lastValue? name pairs = none) ∨
      ∃ value child, lastValue? name fields = some value ∧ ofJson? value = some child ∧
        lastValue? name pairs = some child := by
  induction fields generalizing pairs with
  | nil =>
    obtain rfl := Option.some.inj h
    exact .inl ⟨rfl, rfl⟩
  | cons field fields ih =>
    rw [pairsOfJson?] at h
    cases hchild : ofJson? field.2 with
    | none => simp [hchild] at h
    | some child =>
      cases hrest : pairsOfJson? fields with
      | none => simp [hrest] at h
      | some rest =>
        obtain rfl : (field.1, child) :: rest = pairs := by simpa [hchild, hrest] using h
        rw [lastValue?_cons, lastValue?_cons]
        -- A field behind this one counts, or else this one does
        rcases ih hrest with ⟨hfields, hpairs⟩ | ⟨value, last, hfields, hvalue, hpairs⟩
        · rw [hfields, hpairs, Option.none_or, Option.none_or]
          by_cases hname : field.1 = name
          · exact .inr ⟨field.2, child, if_pos hname, hchild, if_pos hname⟩
          · exact .inl ⟨if_neg hname, if_neg hname⟩
        · rw [hfields, hpairs]
          exact .inr ⟨value, last, rfl, hvalue, rfl⟩

/-- Data that are read from JSON answer a path as the JSON does. -/
theorem numberAt_of_ofJson? (h : ofJson? json = some d) (path : String) :
    d.numberAt path = json.follow path (Path.segments path) := by
  rw [numberAt_eq_bind]
  generalize Path.segments path = segments
  -- The induction is on the walk, since reading goes into every field and the walk into one
  induction segments generalizing json d with
  | nil =>
    cases json with
    | integer value =>
      obtain rfl : number (Float.ofInt value) = d := by simpa [ofJson?] using h
      rfl
    | float value =>
      obtain rfl : number value = d := by simpa [ofJson?] using h
      rfl
    | object fields =>
      rw [ofJson?] at h
      obtain ⟨pairs, -, rfl⟩ := Option.map_eq_some_iff.mp h
      rfl
    | _ => simp [ofJson?] at h
  | cons segment segments ih =>
    rw [descend]
    cases json with
    | integer value =>
      obtain rfl : number (Float.ofInt value) = d := by simpa [ofJson?] using h
      rfl
    | float value =>
      obtain rfl : number value = d := by simpa [ofJson?] using h
      rfl
    | object fields =>
      rw [ofJson?] at h
      obtain ⟨pairs, hpairs, rfl⟩ := Option.map_eq_some_iff.mp h
      rw [child?_ofPairs, Json.follow]
      -- The child is read from the last field with the segment as its key
      rcases lastValue?_pairsOfJson? hpairs segment with ⟨hfields, hnone⟩ |
        ⟨value, child, hfields, hvalue, hchild⟩
      · rw [hfields, hnone]
        rfl
      · rw [hfields, hchild]
        exact ih hvalue
    | _ => simp [ofJson?] at h

/-- Data are read from JSON exactly if no null, no truth value, no string and no array is
    anywhere in it, not even in a field that a later field with the same key replaces.  They then
    answer every path as the JSON does when the last field with a key is taken as a whole. -/
theorem ofJson?_keeps_last_fields (json : Json) :
    ((ofJson? json).isSome ↔ ∀ part : Json, part.Occurs json → ¬ part.Foreign) ∧
      ∀ d, ofJson? json = some d →
        ∀ path, d.numberAt path = json.follow path (Path.segments path) :=
  ⟨ofJson?_isSome_iff, fun _ h path => numberAt_of_ofJson? h path⟩

/-- An object replaces another one under the same key and is not merged with it, and null is
    refused although a number replaces it. -/
theorem ofJson?_keeps_last_fields_repeated_key :
    let json := Json.object [("a", .object [("x", .integer 1)]), ("a", .object [("y", .integer 2)])]
    (∃ d, ofJson? json = some d ∧ d.numberAt "a.y" = .ok (Float.ofInt 2) ∧
      d.numberAt "a.x" = .error (.unknownVariable "x" "a.x")) ∧
    ofJson? (.object [("a", .null), ("a", .integer 1)]) = none := by
  intro json
  obtain ⟨-, hanswers⟩ := ofJson?_keeps_last_fields json
  obtain ⟨haccepts, -⟩ :=
    ofJson?_keeps_last_fields (.object [("a", .null), ("a", .integer 1)])
  -- The first `a` is overridden as a whole, and nevertheless it has to be readable
  refine ⟨⟨_, rfl, hanswers _ rfl "a.y", hanswers _ rfl "a.x"⟩, ?_⟩
  rw [← Option.not_isSome_iff_eq_none, haccepts]
  exact fun h => h .null (.field List.mem_cons_self .whole) .null

end Data

end Reckoner
