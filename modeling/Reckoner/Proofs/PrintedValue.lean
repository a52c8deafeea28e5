import Reckoner.Proofs.StageOrder
import Reckoner.Proofs.WrittenNumber

/-!
# What is printed of a value

An evaluation that succeeds prints its value, in text as a line of its own and in JSON as the
field of an object.  A finite number can be read back from either.  What is no finite number
is named in text only; in JSON it is `null`.

## Key results

- `Decimal.Layout.render_of_isFinite_eq_false`: how a layout writes what is no finite number
- `CommandLine.eval_json_prints_value`: the two formats of one evaluation
- `CommandLine.eval_json_prints_value_loses_infinity`: in JSON an infinite value is lost
-/

namespace Reckoner

/-- What is no finite number is written as one of three words. -/
theorem Decimal.Layout.render_of_isFinite_eq_false (l : Layout) {x : Float}
    (h : x.isFinite = false) :
    l.render x = l.nan ∨ l.render x = l.infinity ∨ l.render x = l.negativeInfinity := by
  rw [render]
  -- What is not finite and is a number is infinite, and its sign decides
  cases hnan : x.isNaN with
  | true => exact .inl (if_pos rfl)
  | false =>
    rw [if_neg Bool.false_ne_true, if_pos (isInf_of_not_isFinite h hnan)]
    split
    · exact .inr (.inr rfl)
    · exact .inr (.inl rfl)

namespace CommandLine

/-- In JSON a value stands in the only field of an object. -/
private theorem valueOutput_json (value : Float) : valueOutput .json value =
    "\x7b\n  \"value\": " ++ Json.numberLayout.render value ++ "\n\x7d\n" := by
  have hbreak : Json.lineBreak 1 = "\n  " := rfl
  have hbreak' : Json.lineBreak 0 = "\n" := rfl
  have hkey : Json.quoted "value" = "\"value\"" := rfl
  have hfields : Json.prettyFields 1 [("value", .float value)] =
      [Json.quoted "value" ++ ": " ++ Json.numberLayout.render value] := rfl
  have hfront : "\x7b\n  \"value\": " = "\x7b" ++ ("\n  " ++ ("\"value\"" ++ ": ")) := rfl
  have hback : "\n\x7d\n" = "\n" ++ ("\x7d" ++ "\n") := rfl
  -- The texts are put together as the writer does, part by part
  rw [valueOutput, line, valueToJson, Json.pretty, Json.prettyAt, hfields, Json.enclose,
    List.isEmpty_cons, if_neg Bool.false_ne_true, String.intercalate_singleton, hbreak, hbreak',
    hkey, hfront, hback]
  simp only [String.append_assoc]

variable {files : String → Option String} {i : Invocation}

/-- An evaluation that exits with 0 has its data and a value. -/
private theorem exists_value_of_status_eq_zero (haction : i.action = .eval)
    (hzero : (i.run files).status = 0) :
    ∃ data value, loadData files i.context = some data ∧
      (Formula.evaluate i.limit data.numberAt i.formula).outcome = .ok value := by
  cases hdata : loadData files i.context with
  | none =>
    obtain ⟨fault, hload⟩ := exists_load_eq_error hdata
    rw [Invocation.run, haction] at hzero
    dsimp only at hzero
    rw [hload] at hzero
    cases hzero
  | some data =>
    refine ⟨data, ?_⟩
    -- With data the status tells whether there is a value
    have htells := Invocation.tells_run (i := i) fun _ => hdata
    rw [haction, verdict] at htells
    cases hvalue : (Formula.evaluate i.limit data.numberAt i.formula).outcome with
    | ok value => exact ⟨value, rfl, rfl⟩
    | error fault =>
      rw [hvalue] at htells
      have hone : (i.run files).status = 1 := htells.1
      rw [hone] at hzero
      cases hzero

/-- An evaluation that has its data and a value exits with 0 and prints the value. -/
private theorem run_of_value {data : Data} {value : Float} (haction : i.action = .eval)
    (hdata : loadData files i.context = some data)
    (hvalue : (Formula.evaluate i.limit data.numberAt i.formula).outcome = .ok value) :
    (i.run files).status = 0 ∧ (i.run files).output = valueOutput i.format value := by
  rw [Invocation.run, haction]
  dsimp only
  rw [load_eq_ok_of_loadData hdata]
  dsimp only
  rw [hvalue, Invocation.withLog]
  split <;> exact ⟨rfl, rfl⟩

/-- Two command lines ask for the same evaluation, one in JSON and one in text, and the first
    exits with 0.  Then there is a value.  The first prints it as the only field of an object,
    the second on a line of its own.  A finite number can be read back from both, sign
    included; any other is named in text, but it is `null` in JSON. -/
theorem eval_json_prints_value {asJson asText : List String} {formula : String} {limit : Nat}
    {context : Option String} {verbose verbose' : Bool}
    (hjson : parse asJson = .ok ⟨.eval, formula, .json, limit, context, verbose⟩)
    (htext : parse asText = .ok ⟨.eval, formula, .text, limit, context, verbose'⟩)
    (hzero : (run files asJson).status = 0) :
    ∃ data value text, loadData files context = some data ∧
      (Formula.evaluate limit data.numberAt formula).outcome = .ok value ∧
      (run files asJson).output = "\x7b\n  \"value\": " ++ text ++ "\n\x7d\n" ∧
      (run files asText).status = 0 ∧
      (run files asText).output = line (valueText value) ∧
      (value.isFinite = true → ReadsAs text value ∧ ReadsAs (valueText value) value) ∧
      (value.isFinite = false → text = "null" ∧
        (valueText value = "NaN" ∨ valueText value = "inf" ∨ valueText value = "-inf")) := by
  rw [run, hjson] at hzero
  obtain ⟨data, value, hdata, hvalue⟩ := exists_value_of_status_eq_zero rfl hzero
  obtain ⟨-, hprinted⟩ := run_of_value (i := ⟨.eval, formula, .json, limit, context, verbose⟩)
    rfl hdata hvalue
  obtain ⟨hzero', hprinted'⟩ :=
    run_of_value (i := ⟨.eval, formula, .text, limit, context, verbose'⟩) rfl hdata hvalue
  rw [valueOutput_json] at hprinted
  refine ⟨data, value, Json.numberLayout.render value, hdata, hvalue, ?_, ?_, ?_, ?_, ?_⟩
  · rw [run, hjson]
    exact hprinted
  · rw [run, htext]
    exact hzero'
  · rw [run, htext]
    exact hprinted'
  · intro hfinite
    exact ⟨Json.numberLayout.readsAs_render hfinite, valueLayout.readsAs_render hfinite⟩
  · intro hinfinite
    -- The three words of JSON are one
    refine ⟨?_, valueLayout.render_of_isFinite_eq_false hinfinite⟩
    obtain hnull | hnull | hnull := Json.numberLayout.render_of_isFinite_eq_false hinfinite
    all_goals exact hnull

/-- A sum is printed in both formats. -/
theorem eval_json_prints_value_sum :
    (run (fun _ => none) ["eval", "Add(1, 2)", "--format", "json"]).status = 0 ∧
      ∃ data value text, loadData (fun _ => none) none = some data ∧
        (Formula.evaluate defaultLimit data.numberAt "Add(1, 2)").outcome = .ok value ∧
        (run (fun _ => none) ["eval", "Add(1, 2)", "--format", "json"]).output =
          "\x7b\n  \"value\": " ++ text ++ "\n\x7d\n" ∧
        (run (fun _ => none) ["eval", "Add(1, 2)"]).status = 0 ∧
        (run (fun _ => none) ["eval", "Add(1, 2)"]).output = line (valueText value) ∧
        (value.isFinite = true → ReadsAs text value ∧ ReadsAs (valueText value) value) ∧
        (value.isFinite = false → text = "null" ∧
          (valueText value = "NaN" ∨ valueText value = "inf" ∨ valueText value = "-inf")) := by
  have hjson : parse ["eval", "Add(1, 2)", "--format", "json"] =
      .ok ⟨.eval, "Add(1, 2)", .json, defaultLimit, none, false⟩ := rfl
  have htext : parse ["eval", "Add(1, 2)"] =
      .ok ⟨.eval, "Add(1, 2)", .text, defaultLimit, none, false⟩ := rfl
  have hzero : (run (fun _ => none) ["eval", "Add(1, 2)", "--format", "json"]).status = 0 := by
    decide +kernel
  exact ⟨hzero, eval_json_prints_value hjson htext hzero⟩

/-- The square of `1e308` is infinite.  Text says so, and JSON prints `null` and exits with
    0 as well. -/
theorem eval_json_prints_value_loses_infinity :
    let files := fun _ => some "\x7b\"x\": 1e308\x7d"
    let asText := run files ["eval", "Multiply(x, x)", "--context", "data.json"]
    let asJson := run files ["eval", "Multiply(x, x)", "--context", "data.json", "--format", "json"]
    asText.status = 0 ∧ asText.output = "inf\n" ∧
      asJson.status = 0 ∧ asJson.output = "\x7b\n  \"value\": null\n\x7d\n" := by
  decide +kernel

end CommandLine

end Reckoner
