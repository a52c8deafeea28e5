import Reckoner.Json.Lexeme

/-!
# Reading JSON text

A text is one value, with blanks around it.  It is read lexeme by lexeme with a
stack of the arrays and objects that are still open, and refused where more than
`limit` of them are open at once.

* `Json.read?` reads a text.
-/

namespace Reckoner.Json

/-- An array or object that is still open, the latest entry first. -/
inductive OpenValue where
  | array (items : List Json)
  /-- an object, with the key whose value is read -/
  | object (fields : List (String × Json)) (key : String)

/-- What may come next in a text. -/
inductive Reading.Phase where
  | value
  /-- an item or the end of an array -/
  | firstItem
  /-- a key or the end of an object -/
  | firstKey
  | key
  | colon
  /-- a comma or the end of the innermost open value -/
  | separator
  /-- the whole value is there -/
  | done (value : Json)

/-- A text while it is being read: the open values, innermost first, and what may
    come next. -/
structure Reading where
  stack : List OpenValue
  phase : Reading.Phase

namespace Reading

/-- Take in a finished value. -/
def deliver (stack : List OpenValue) (value : Json) : Reading :=
  match stack with
  | [] => ⟨[], .done value⟩
  | .array items :: stack => ⟨.array (value :: items) :: stack, .separator⟩
  | .object fields key :: stack => ⟨.object ((key, value) :: fields) key :: stack, .separator⟩

/-- Start a value with a lexeme. -/
def begin (limit : Nat) (stack : List OpenValue) : Lexeme → Option Reading
  | .scalar value => some (deliver stack value)
  -- The limit counts arrays and objects together.
  | .openArray => if stack.length < limit then some ⟨.array [] :: stack, .firstItem⟩ else none
  | .openObject => if stack.length < limit then some ⟨.object [] "" :: stack, .firstKey⟩ else none
  | _ => none

/-- End the innermost open value with a lexeme. -/
def close : List OpenValue → Lexeme → Option Reading
  | .array items :: stack, .closeArray => some (deliver stack (.array items.reverse))
  | .object fields _ :: stack, .closeObject => some (deliver stack (.object fields.reverse))
  | _, _ => none

/-- Read a key of the innermost open object. -/
def key : List OpenValue → Lexeme → Option Reading
  | .object fields _ :: stack, .scalar (.string key) => some ⟨.object fields key :: stack, .colon⟩
  | _, _ => none

/-- Take in one lexeme. -/
def step (limit : Nat) (r : Reading) (l : Lexeme) : Option Reading :=
  match r.phase with
  | .value => begin limit r.stack l
  | .firstItem =>
    match l with
    | .closeArray => close r.stack l
    | l => begin limit r.stack l
  | .firstKey =>
    match l with
    | .closeObject => close r.stack l
    | l => key r.stack l
  | .key => key r.stack l
  | .colon =>
    match l with
    | .colon => some ⟨r.stack, .value⟩
    | _ => none
  | .separator =>
    match l, r.stack with
    -- Behind a comma neither kind may end.
    | .comma, .array _ :: _ => some ⟨r.stack, .value⟩
    | .comma, .object .. :: _ => some ⟨r.stack, .key⟩
    | l, stack => close stack l
  | .done _ => none

/-- The value at the end of the lexemes. -/
def finish? (r : Reading) : Option Json :=
  match r.phase with
  | .done value => some value
  | _ => none

end Reading

/-- The value of a JSON text, with at most `limit` arrays and objects inside each
    other. -/
def read? (limit : Nat) (text : String) : Option Json := do
  let lexemes ← lexemes? text.toList
  let reading ← lexemes.foldlM (Reading.step limit) ⟨[], .value⟩
  reading.finish?

end Reckoner.Json
