import Reckoner.CommandLine.Run
import Reckoner.Proofs.ArgumentSpelling
import Reckoner.Proofs.QuotedText

/-!
# What is printed of a fault

Each action and each format has its own way to print the code and the text of a fault, and
from what is printed both can be read off.

## Key results

- `CommandLine.pretty_fields`: where the code and the text stand in a JSON object
- `CommandLine.printed_inj`: what is printed gives away the code and the text
-/

namespace Reckoner.CommandLine

/-- A code and a text on one line. -/
def bracketed (code text : String) : String :=
  "[" ++ code ++ "] " ++ text

/-- A code and a text as fields. -/
def fields (code text : String) : List (String × Json) :=
  [("code", .string code), ("error", .string text)]

/-- What goes to the output and to the errors for a code and a text. -/
def printed (action : Action) (format : Format) (code text : String) : String × String :=
  match action, format with
  | .validate, .text => (line ("invalid: " ++ bracketed code text), "")
  | .validate, .json => (line (Json.object (("valid", .bool false) :: fields code text)).pretty, "")
  | _, .text => ("", line (bracketed code text))
  | _, .json => (line (Json.object (fields code text)).pretty, "")

section

variable {code text code' text' : String}

theorem line_inj (h : line text = line text') : text = text' :=
  (String.append_left_inj "\n").1 h

/-- A line gives away its code, which has no bracket in it, and its text. -/
private theorem bracketed_inj (hcode : ']' ∉ code.toList) (hcode' : ']' ∉ code'.toList)
    (h : bracketed code text = bracketed code' text') : code = code' ∧ text = text' := by
  -- No code contains a bracket, so the first one ends the code
  have hlists : code.toList ++ ']' :: ' ' :: text.toList =
      code'.toList ++ ']' :: ' ' :: text'.toList := by
    have hlists := congrArg String.toList h
    simpa [bracketed] using hlists
  obtain ⟨hcodes, htexts⟩ := append_mark_inj hcode hcode' hlists
  exact ⟨String.toList_inj.1 hcodes, String.toList_inj.1 (List.cons.inj htexts).2⟩

/-- Two strings at fixed places of a JSON text can be read off it. -/
private theorem quoted_pair_inj {before middle after : String}
    (h : before ++ (Json.quoted code ++ (middle ++ (Json.quoted text ++ after))) =
      before ++ (Json.quoted code' ++ (middle ++ (Json.quoted text' ++ after)))) :
    code = code' ∧ text = text' := by
  obtain ⟨hcode, hrest⟩ := Json.quoted_append_inj ((String.append_right_inj before).1 h)
  obtain ⟨htext, -⟩ := Json.quoted_append_inj ((String.append_right_inj middle).1 hrest)
  exact ⟨hcode, htext⟩

/-- Two rows of fields are written one after the other. -/
private theorem prettyFields_append (level : Nat) (front behind : List (String × Json)) :
    Json.prettyFields level (front ++ behind) =
      Json.prettyFields level front ++ Json.prettyFields level behind := by
  induction front with
  | nil => rfl
  | cons field front ih => simp only [List.cons_append, Json.prettyFields, ih]

/-- What stands in front of a row does not depend on the row. -/
private theorem exists_intercalate_append (separator : String) (front : List String) :
    ∃ before, ∀ behind, behind ≠ [] → String.intercalate separator (front ++ behind) =
      before ++ String.intercalate separator behind := by
  by_cases hfront : front = []
  · refine ⟨"", fun behind _ => ?_⟩
    rw [hfront, List.nil_append, String.empty_append]
  · exact ⟨String.intercalate separator front ++ separator,
      fun behind hbehind => String.intercalate_append_of_ne_nil hfront hbehind⟩

/-- Where the fields of a fault end an object, its text depends on them at two places. -/
theorem pretty_fields (front : List (String × Json)) :
    ∃ before middle after, ∀ code text, (Json.object (front ++ fields code text)).pretty =
      before ++ (Json.quoted code ++ (middle ++ (Json.quoted text ++ after))) := by
  obtain ⟨before, hbefore⟩ :=
    exists_intercalate_append ("," ++ Json.lineBreak 1) (Json.prettyFields 1 front)
  refine ⟨"\x7b" ++ Json.lineBreak 1 ++ before ++ (Json.quoted "code" ++ ": "),
    "," ++ Json.lineBreak 1 ++ (Json.quoted "error" ++ ": "), Json.lineBreak 0 ++ "\x7d", ?_⟩
  -- The code and the text stand between parts that do not depend on them
  intro code text
  have hfields : Json.prettyFields 1 (fields code text) =
      [Json.quoted "code" ++ ": " ++ Json.quoted code,
        Json.quoted "error" ++ ": " ++ Json.quoted text] := rfl
  rw [Json.pretty, Json.prettyAt, prettyFields_append, Json.enclose, if_neg (by simp [hfields]),
    hbefore _ (by simp [hfields]), hfields, String.intercalate_cons_cons,
    String.intercalate_singleton]
  simp only [String.append_assoc]

/-- What is printed gives away the code and the text. -/
theorem printed_inj {action : Action} {format : Format} (hcode : ']' ∉ code.toList)
    (hcode' : ']' ∉ code'.toList)
    (h : printed action format code text = printed action format code' text') :
    code = code' ∧ text = text' := by
  -- In JSON both are strings at fixed places; on a line the first bracket ends the code
  have hjson : ∀ front, (Json.object (front ++ fields code text)).pretty =
      (Json.object (front ++ fields code' text')).pretty → code = code' ∧ text = text' := by
    intro front heq
    obtain ⟨before, middle, after, hpretty⟩ := pretty_fields front
    rw [hpretty, hpretty] at heq
    exact quoted_pair_inj heq
  obtain ⟨houtput, herrors⟩ := Prod.mk.inj h
  cases format with
  | text =>
    cases action with
    | validate =>
      exact bracketed_inj hcode hcode' ((String.append_right_inj _).1 (line_inj houtput))
    | eval | tokens | ast => exact bracketed_inj hcode hcode' (line_inj herrors)
  | json =>
    cases action with
    | validate => exact hjson [("valid", .bool false)] (line_inj houtput)
    | eval | tokens | ast => exact hjson [] (line_inj houtput)

end

/-- Codes are words, in which no bracket stands. -/
theorem notMem_code (fault : Fault) : ']' ∉ fault.code.toList := by
  cases fault <;> simp only [Fault.code] <;> decide

end Reckoner.CommandLine
