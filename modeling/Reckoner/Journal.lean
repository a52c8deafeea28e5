import Reckoner.Figures
import Reckoner.Text.Quoted
import Reckoner.Traced

/-!
# The journal of a run

The records that a run leaves, in the order of its events.  A path that the
context refuses leaves no record; every other event leaves one.

* `Event.record?` is the record of an event.
* `Traced.journal` is the list of all records of a run.
-/

namespace Reckoner

/-- How much a record matters. -/
inductive Level where
  /-- what became of a formula -/
  | debug
  /-- a single step -/
  | trace
deriving DecidableEq

/-- The name of a level. -/
def Level.text : Level → String
  | debug => "debug"
  | trace => "trace"

/-- One record of a journal. -/
structure Record where
  level : Level
  message : String

/-- A token as a record shows it. -/
def Token.shown : Token → String
  | number value => "Number(" ++ toString value ++ ")"
  | function name => "Function(" ++ Text.quote name ++ ")"
  | word name => "Variable(" ++ Text.quote name ++ ")"
  | leftParen => "LParen"
  | rightParen => "RParen"
  | comma => "Comma"
  | dot => "Dot"

namespace Event

/-- The record that an event leaves. -/
def record? : Event → Option Record
  | token t => some ⟨.trace, "token " ++ t.shown⟩
  | tokenized formula count =>
    some ⟨.trace, "tokenized " ++ Text.quote formula ++ " into " ++ toString count ++ " tokens"⟩
  | parsed count =>
    some ⟨.debug, "parsed program with " ++ toString count ++ " top-level expressions"⟩
  | ignoring count =>
    some ⟨.debug, "ignoring " ++ toString count ++ " trailing top-level expressions"⟩
  | asked path (.ok value) => some ⟨.trace, path ++ " = " ++ valueText value⟩
  | asked _ (.error _) => none
  | applied name args result =>
    some ⟨.trace, name ++ "[" ++ String.intercalate ", " (args.map argumentText) ++ "] = "
      ++ valueText result⟩
  | evaluated formula value =>
    some ⟨.debug, Text.quote formula ++ " evaluated to " ++ valueText value⟩
  | invalid formula fault =>
    some ⟨.debug, Text.quote formula ++ " is invalid: " ++ fault.message⟩

end Event

/-- The records of a run. -/
def Traced.journal {α : Type} (run : Traced α) : List Record :=
  run.events.filterMap Event.record?

/-- The records of a run that are not single steps. -/
def Traced.summary {α : Type} (run : Traced α) : List Record :=
  run.journal.filter (·.level = .debug)

end Reckoner
