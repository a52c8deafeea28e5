/-!
# JSON values

JSON as data.  An object is the list of its fields in the order of the text, and
a key may occur in it more than once; which field counts is up to the reader of
the value.
-/

namespace Reckoner

/-- A JSON value.  Numbers are exact integers or binary64 numbers. -/
inductive Json where
  | null
  | bool (value : Bool)
  | integer (value : Int)
  | float (value : Float)
  | string (value : String)
  | array (items : List Json)
  | object (fields : List (String × Json))

/-- A property of values holds if it passes from the items of an array and from the values of
    the fields of an object to the whole. -/
theorem Json.induction {motive : Json → Prop} (null : motive null)
    (bool : ∀ value, motive (bool value)) (integer : ∀ value, motive (integer value))
    (float : ∀ value, motive (float value)) (string : ∀ value, motive (string value))
    (array : ∀ items, (∀ item ∈ items, motive item) → motive (array items))
    (object : ∀ fields, (∀ field ∈ fields, motive field.2) → motive (object fields))
    (json : Json) : motive json :=
  @Json.rec motive (fun items => ∀ item ∈ items, motive item)
    (fun fields => ∀ field ∈ fields, motive field.2) (fun field => motive field.2)
    null bool integer float string array object
    (fun _ h => absurd h List.not_mem_nil)
    (fun _ _ head tail => List.forall_mem_cons.2 ⟨head, tail⟩)
    (fun _ h => absurd h List.not_mem_nil)
    (fun _ _ head tail => List.forall_mem_cons.2 ⟨head, tail⟩) (fun _ _ h => h) json

end Reckoner
