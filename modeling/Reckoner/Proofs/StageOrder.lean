import Reckoner.Proofs.Agreement
import Reckoner.Proofs.ArgumentSpelling
import Reckoner.Proofs.DataFromJson
import Reckoner.Proofs.FormulaStages
import Reckoner.Proofs.PrintedFaults

/-!
# The order of the stages

Scanning, reading, checking and evaluating fail in this order, and every action of the
command line reports the first fault of the earliest stage, in either format.

## Key results

- `Formula.foretells_validate`: validating a formula foretells its evaluation
- `CommandLine.loadData_eq_none_iff`: the three ways in which data cannot be loaded
- `CommandLine.Invocation.tells_run`: an invocation exits and prints as its verdict says
- `CommandLine.comesTo_of_asks`: a command line reports the fault of its verdict, and only it
- `CommandLine.actions_fail_in_order`: how the four actions on one formula compare
-/

namespace Reckoner

/-! ### Stages of a formula -/

/-- A stage comes before another: where it has a fault, the other has the same. -/
def Precedes {α β : Type} (first : Except Fault α) (second : Except Fault β) : Prop :=
  ∀ fault, first = .error fault → second = .error fault

namespace Precedes

variable {α β γ : Type} {first : Except Fault α} {second : Except Fault β}

theorem bind (outcome : Except Fault α) (next : α → Except Fault β) :
    Precedes outcome (outcome.bind next) := by
  rintro fault rfl
  rfl

/-- What is made of the values is of no concern to the order. -/
private theorem map_left (h : Precedes first second) (f : α → γ) :
    Precedes (first.map f) second := by
  intro fault hfault
  cases first with
  | error other =>
    cases hfault
    exact h fault rfl
  | ok value => cases hfault

private theorem map_right (h : Precedes first second) (f : β → γ) :
    Precedes first (second.map f) := by
  intro fault hfault
  rw [h fault hfault]
  rfl

end Precedes

namespace Formula

variable (limit : Nat) (formula : String)

/-- Scanning comes before parsing. -/
private theorem tokens_precedes_parse :
    Precedes (tokens formula).outcome (parse limit formula).outcome := by
  rw [outcome_parse]
  exact .bind _ _

/-- Parsing comes before checking. -/
private theorem parse_precedes_validate :
    Precedes (parse limit formula).outcome (validate limit formula).outcome := by
  rw [outcome_validate]
  exact .bind _ _

/-- Parsing comes before evaluating. -/
private theorem parse_precedes_evaluate (context : Context) :
    Precedes (parse limit formula).outcome (evaluate limit context formula).outcome := by
  rw [outcome_evaluate]
  exact .bind _ _

/-- Validating a formula foretells its evaluation over data. -/
theorem foretells_validate (d : Data) :
    Foretells (validate limit formula).outcome (evaluate limit d.numberAt formula).outcome := by
  rw [outcome_validate, outcome_evaluate]
  -- Where parsing fails both fail with its fault
  cases (parse limit formula).outcome with
  | error fault => exact .error fault
  | ok e => exact Expr.foretells_check (fun _ _ => Data.ofData_of_numberAt) e

end Formula

namespace CommandLine

/-! ### Data of a file -/

/-- A file whose data cannot be loaded: it has no text, or its text is no JSON, or something
    in the JSON is neither a number nor an object, be it in a field that does not count. -/
inductive Unloadable (files : String → Option String) : Option String → Prop where
  | unread {file : String} (htext : files file = none) : Unloadable files (some file)
  | malformed {file text : String} (htext : files file = some text)
    (hjson : Json.read? Data.maxTextDepth text = none) : Unloadable files (some file)
  | foreign {file text : String} {json part : Json} (htext : files file = some text)
    (hjson : Json.read? Data.maxTextDepth text = some json) (hpart : part.Occurs json)
    (hforeign : part.Foreign) : Unloadable files (some file)

/-- Loading succeeds with the data, or it fails and the file is to blame. -/
private theorem load_eq_ok_or_unloadable (files : String → Option String)
    (context : Option String) :
    (∃ data, load files context = .ok data ∧ ¬ Unloadable files context) ∨
      ∃ fault, load files context = .error fault ∧ Unloadable files context := by
  cases context with
  | none => exact .inl ⟨.empty, rfl, nofun⟩
  | some file =>
    -- One case for each thing that `load` looks at, in its order
    cases htext : files file with
    | none => exact .inr ⟨.unread file, by simp only [load, htext], .unread htext⟩
    | some text =>
      cases hjson : Json.read? Data.maxTextDepth text with
      | none =>
        exact .inr ⟨.malformed file, by simp only [load, htext, hjson], .malformed htext hjson⟩
      | some json =>
        cases hdata : Data.ofJson? json with
        | none =>
          have hpart : ¬ ∀ part : Json, part.Occurs json → ¬ part.Foreign := by
            rw [← Data.ofJson?_isSome_iff, hdata]
            exact Bool.false_ne_true
          push Not at hpart
          obtain ⟨part, hoccurs, hforeign⟩ := hpart
          exact .inr ⟨.foreign file, by simp only [load, htext, hjson, hdata],
            .foreign htext hjson hoccurs hforeign⟩
        | some data =>
          refine .inl ⟨data, by simp only [load, htext, hjson, hdata], ?_⟩
          have hparts : ∀ part : Json, part.Occurs json → ¬ part.Foreign :=
            Data.ofJson?_isSome_iff.1 (hdata ▸ rfl)
          -- The file has one text and the text one reading, so none of the three ways is open
          rintro (hnone | ⟨htext', hnone⟩ | ⟨htext', hjson', hpart, hforeign⟩)
          · simp [htext] at hnone
          · obtain rfl := Option.some.inj (htext.symm.trans htext')
            simp [hjson] at hnone
          · obtain rfl := Option.some.inj (htext.symm.trans htext')
            obtain rfl := Option.some.inj (hjson.symm.trans hjson')
            exact hparts _ hpart hforeign

/-- Data that can be loaded are loaded without a fault. -/
theorem load_eq_ok_of_loadData {files : String → Option String} {context : Option String}
    {data : Data} (h : loadData files context = some data) : load files context = .ok data := by
  rw [loadData] at h
  obtain ⟨loaded, hload, -⟩ | ⟨fault, hload, -⟩ := load_eq_ok_or_unloadable files context
  · rw [hload] at h
    exact hload.trans (congrArg Except.ok (Option.some.inj h))
  · rw [hload] at h
    cases h

/-- Data that cannot be loaded have a fault to report. -/
theorem exists_load_eq_error {files : String → Option String} {context : Option String}
    (h : loadData files context = none) : ∃ fault, load files context = .error fault := by
  rw [loadData] at h
  obtain ⟨data, hload, -⟩ | ⟨fault, hload, -⟩ := load_eq_ok_or_unloadable files context
  · rw [hload] at h
    cases h
  · exact ⟨fault, hload⟩

/-- There are no data exactly if the file is to blame. -/
theorem loadData_eq_none_iff {files : String → Option String} {context : Option String} :
    loadData files context = none ↔ Unloadable files context := by
  rw [loadData]
  obtain ⟨data, hload, hnot⟩ | ⟨fault, hload, hblame⟩ := load_eq_ok_or_unloadable files context
  · rw [hload]
    exact iff_of_false nofun hnot
  · rw [hload]
    exact iff_of_true rfl hblame

/-! ### Verdicts of invocations -/

/-- What an action finds out about a formula over data, less the value. -/
def verdict (action : Action) (formula : String) (limit : Nat) (data : Data) :
    Except Fault Unit :=
  match action with
  | .eval => (Formula.evaluate limit data.numberAt formula).outcome.map fun _ => ()
  | .validate => (Formula.validate limit formula).outcome
  | .tokens => (Formula.tokens formula).outcome.map fun _ => ()
  | .ast => (Formula.parse limit formula).outcome.map fun _ => ()

/-- An outcome tells a verdict by its status, and a fault by what is printed. -/
def Outcome.Tells (o : Outcome) (action : Action) (format : Format) : Except Fault Unit → Prop
  | .ok () => o.status = 0
  | .error fault =>
    o.status = 1 ∧ (o.output, o.errors) = printed action format fault.code fault.message

namespace Outcome

/-- The outcome of a result tells whether there is one. -/
private theorem tells_ofResult {α : Type} (action : Action) (haction : action ≠ .validate)
    (format : Format) (result : Except Fault α) (print : α → String) :
    (ofResult format (result.map print)).Tells action format (result.map fun _ => ()) := by
  -- Faults are told alike by all actions but the check, which has its own report
  cases result with
  | ok value => rfl
  | error fault =>
    cases action with
    | validate => exact absurd rfl haction
    | eval | tokens | ast => cases format <;> exact ⟨rfl, rfl⟩

/-- The outcome of a verdict tells the verdict. -/
private theorem tells_ofVerdict (format : Format) (verdict : Except Fault Unit) :
    (ofVerdict format verdict).Tells .validate format verdict := by
  cases verdict with
  | ok value => rfl
  | error fault => cases format <;> exact ⟨rfl, rfl⟩

end Outcome

/-- Asking for a log changes nothing of what an outcome tells. -/
private theorem Invocation.tells_withLog {α : Type} (i : Invocation) (run : Traced α) {o : Outcome}
    {action : Action} {format : Format} {v : Except Fault Unit} (h : o.Tells action format v) :
    (i.withLog run o).Tells action format v := by
  unfold Invocation.withLog
  split
  · cases v <;> exact h
  · exact h

/-- An invocation exits and prints as its verdict says, an evaluation if it has its data. -/
theorem Invocation.tells_run {files : String → Option String} {i : Invocation} {data : Data}
    (hdata : i.action = .eval → loadData files i.context = some data) :
    (i.run files).Tells i.action i.format (verdict i.action i.formula i.limit data) := by
  obtain ⟨action, formula, format, limit, context, verbose⟩ := i
  -- Only an evaluation looks at the data
  cases action with
  | eval =>
    simp only [Invocation.run, load_eq_ok_of_loadData (hdata rfl)]
    exact Invocation.tells_withLog _ _ (Outcome.tells_ofResult .eval nofun format _ _)
  | validate => exact Invocation.tells_withLog _ _ (Outcome.tells_ofVerdict format _)
  | tokens =>
    exact Invocation.tells_withLog _ _ (Outcome.tells_ofResult .tokens nofun format _ _)
  | ast => exact Invocation.tells_withLog _ _ (Outcome.tells_ofResult .ast nofun format _ _)

/-! ### What a command line comes to -/

/-- Arguments ask for an action on a formula under a limit, with the data of a file or
    without; in which format is left open. -/
def Asks (arguments : List String) (action : Action) (formula : String) (limit : Nat)
    (context : Option String) : Prop :=
  ∃ format verbose, parse arguments = .ok ⟨action, formula, format, limit, context, verbose⟩

/-- A command line fails over a formula and reports a code and a text, in the way of its
    action and format. -/
structure FailsWith (files : String → Option String) (arguments : List String)
    (code text : String) : Prop where
  status_eq : (run files arguments).status = 1
  /-- the code is one of those that faults have -/
  code_eq : ∃ fault : Fault, fault.code = code
  reported : ∃ i, parse arguments = .ok i ∧
    ((run files arguments).output, (run files arguments).errors) =
      printed i.action i.format code text

/-- A command line comes to a verdict: it exits with 0 if there is no fault, and fails with
    the code and the text of the fault if there is one. -/
structure ComesTo (files : String → Option String) (arguments : List String)
    (v : Except Fault Unit) : Prop where
  status_eq_zero_iff : (run files arguments).status = 0 ↔ v = .ok ()
  failsWith_iff : ∀ code text, FailsWith files arguments code text ↔
    ∃ fault, v = .error fault ∧ fault.code = code ∧ fault.message = text

variable {files : String → Option String} {arguments : List String} {action : Action}
  {formula : String} {limit : Nat} {context : Option String}

/-- What is told can be read off the outcome. -/
theorem comesTo_of_tells {i : Invocation} {v : Except Fault Unit} (hparse : parse arguments = .ok i)
    (htells : (run files arguments).Tells i.action i.format v) : ComesTo files arguments v := by
  -- Without a fault the status is zero, with one it is one and something is printed
  cases v with
  | ok value =>
    have hstatus : (run files arguments).status = 0 := htells
    refine ⟨⟨fun _ => rfl, fun _ => hstatus⟩, fun code text => ⟨fun hfails => ?_, ?_⟩⟩
    · have hone := hfails.status_eq
      omega
    · rintro ⟨fault, hfault, -⟩
      cases hfault
  | error fault =>
    obtain ⟨hstatus, hprinted⟩ : (run files arguments).status = 1 ∧ _ := htells
    refine ⟨⟨fun hzero => by omega, nofun⟩, fun code text => ⟨fun hfails => ?_, ?_⟩⟩
    · -- What is reported was printed of the fault, so it is the fault that is reported
      obtain ⟨-, ⟨other, rfl⟩, j, hj, hreported⟩ := hfails
      obtain rfl := Except.ok.inj (hparse.symm.trans hj)
      rw [hprinted] at hreported
      obtain ⟨hcode, htext⟩ := printed_inj (notMem_code fault) (notMem_code other) hreported
      exact ⟨fault, rfl, hcode, htext⟩
    · rintro ⟨other, hother, rfl, rfl⟩
      cases hother
      exact ⟨hstatus, ⟨fault, rfl⟩, i, hparse, hprinted⟩

/-- A command line comes to the verdict of what it asks for, an evaluation if it has its
    data. -/
theorem comesTo_of_asks {data : Data} (h : Asks arguments action formula limit context)
    (hdata : action = .eval → loadData files context = some data) :
    ComesTo files arguments (verdict action formula limit data) := by
  obtain ⟨format, verbose, hparse⟩ := h
  apply comesTo_of_tells hparse
  rw [run, hparse]
  exact Invocation.tells_run hdata

namespace ComesTo

variable {first second : List String} {v w : Except Fault Unit}

/-- Command lines that come to the same exit alike and report the same. -/
theorem same (hv : ComesTo files first v) (hw : ComesTo files second v) :
    (run files first).status = (run files second).status ∧
      ∀ code text, FailsWith files first code text ↔ FailsWith files second code text := by
  refine ⟨?_, fun code text => (hv.failsWith_iff code text).trans (hw.failsWith_iff code text).symm⟩
  cases v with
  | ok value => rw [hv.status_eq_zero_iff.2 rfl, hw.status_eq_zero_iff.2 rfl]
  | error fault =>
    rw [((hv.failsWith_iff _ _).2 ⟨fault, rfl, rfl, rfl⟩).status_eq,
      ((hw.failsWith_iff _ _).2 ⟨fault, rfl, rfl, rfl⟩).status_eq]

/-- What an earlier stage reports, a later one reports as well. -/
theorem failsWith_of_precedes (hv : ComesTo files first v) (hw : ComesTo files second w)
    (h : Precedes v w) {code text : String} (hfails : FailsWith files first code text) :
    FailsWith files second code text := by
  obtain ⟨fault, hfault, hcode, htext⟩ := (hv.failsWith_iff code text).1 hfails
  exact (hw.failsWith_iff code text).2 ⟨fault, h fault hfault, hcode, htext⟩

/-- What passes a later stage has passed the earlier. -/
theorem status_of_precedes (hv : ComesTo files first v) (hw : ComesTo files second w)
    (h : Precedes v w) (hzero : (run files second).status = 0) : (run files first).status = 0 := by
  rw [hw.status_eq_zero_iff] at hzero
  rw [hv.status_eq_zero_iff]
  -- A fault of the first would come back in the second, which has none
  cases v with
  | ok value => rfl
  | error fault =>
    rw [h fault rfl] at hzero
    cases hzero

/-- A command line passes, or it fails with one code and one text. -/
theorem passes_or_fails (hv : ComesTo files first v) :
    (run files first).status = 0 ∨
      ∃ code text, ∀ code' text',
        FailsWith files first code' text' ↔ code' = code ∧ text' = text := by
  cases v with
  | ok value => exact .inl (hv.status_eq_zero_iff.2 rfl)
  | error fault =>
    -- What fails with a code and a text fails with those of the fault
    refine .inr ⟨fault.code, fault.message, fun code' text' => ?_⟩
    rw [hv.failsWith_iff]
    constructor
    · rintro ⟨other, hother, rfl, rfl⟩
      cases hother
      exact ⟨rfl, rfl⟩
    · rintro ⟨rfl, rfl⟩
      exact ⟨fault, rfl, rfl, rfl⟩

end ComesTo

/-- Without its data an evaluation is not begun. -/
private theorem status_of_loadData_eq_none (h : Asks arguments .eval formula limit context)
    (hdata : loadData files context = none) : (run files arguments).status = 2 := by
  obtain ⟨format, verbose, hparse⟩ := h
  obtain ⟨fault, hload⟩ := exists_load_eq_error hdata
  simp only [run, hparse, Invocation.run, hload]
  rfl

variable (files action formula limit context) in
/-- All arguments that ask for the same come to one verdict, unless they ask for an
    evaluation without its data. -/
private theorem comesTo_or_loadData_eq_none :
    (∃ v, ∀ arguments, Asks arguments action formula limit context →
        ComesTo files arguments v) ∨
      action = .eval ∧ loadData files context = none := by
  -- Which data an evaluation gets is in what is asked for; the others need none
  by_cases haction : action = .eval
  · cases hdata : loadData files context with
    | none => exact .inr ⟨haction, rfl⟩
    | some data => exact .inl ⟨_, fun arguments h => comesTo_of_asks h fun _ => hdata⟩
  · exact .inl ⟨verdict action formula limit .empty,
      fun arguments h => comesTo_of_asks h (absurd · haction)⟩

/-- Arguments that ask for the same exit alike and report the same, whatever the format. -/
theorem same_of_asks {other : List String} (h : Asks arguments action formula limit context)
    (h' : Asks other action formula limit context) :
    (run files arguments).status = (run files other).status ∧
      ∀ code text, FailsWith files arguments code text ↔ FailsWith files other code text := by
  obtain ⟨v, hcomes⟩ | ⟨rfl, hnone⟩ :=
    comesTo_or_loadData_eq_none files action formula limit context
  · exact (hcomes arguments h).same (hcomes other h')
  · have htwo := status_of_loadData_eq_none h hnone
    have htwo' := status_of_loadData_eq_none h' hnone
    -- A status of two is no failure over a formula
    have hnever : ∀ {line}, (run files line).status = 2 → ∀ code text,
        ¬ FailsWith files line code text := by
      intro line htwo code text hfails
      rw [hfails.status_eq] at htwo
      cases htwo
    exact ⟨htwo.trans htwo'.symm,
      fun code text => iff_of_false (hnever htwo code text) (hnever htwo' code text)⟩

/-- Every formula can be handed over behind the mark that ends the options. -/
private theorem asks_arguments {i : Invocation} (h : i.Askable) :
    Asks i.arguments i.action i.formula i.limit i.context :=
  ⟨i.format, i.verbose, parse_arguments h⟩

/-- What fails as tokens fails as a tree, with the same fault. -/
private theorem tokens_precedes_ast (data data' : Data) :
    Precedes (verdict .tokens formula limit data) (verdict .ast formula limit data') :=
  ((Formula.tokens_precedes_parse limit formula).map_left _).map_right _

/-- What fails as a tree is found invalid, with the same fault. -/
private theorem ast_precedes_validate (data data' : Data) :
    Precedes (verdict .ast formula limit data) (verdict .validate formula limit data') :=
  (Formula.parse_precedes_validate limit formula).map_left _

/-- What fails as a tree has no value, with the same fault. -/
private theorem ast_precedes_eval (data data' : Data) :
    Precedes (verdict .ast formula limit data) (verdict .eval formula limit data') :=
  ((Formula.parse_precedes_evaluate limit formula data'.numberAt).map_left _).map_right _

/-- A formula that has a value over some data passes its validation. -/
private theorem validate_eq_ok_of_eval (data data' : Data)
    (h : verdict .eval formula limit data' = .ok ()) :
    verdict .validate formula limit data = .ok () := by
  have hforetells := Formula.foretells_validate limit formula data'
  show (Formula.validate limit formula).outcome = _
  -- A fault that the check foretells leaves no value under any data
  cases hverdict : (Formula.validate limit formula).outcome with
  | ok value => rfl
  | error fault =>
    rw [hverdict] at hforetells
    cases hvalue : (Formula.evaluate limit data'.numberAt formula).outcome with
    | ok value => exact absurd hvalue (hforetells.ne_ok value)
    | error other =>
      rw [verdict, hvalue] at h
      cases h

/-- Four command lines ask for the four actions on one formula, each in a format of its own.
    What passes an action passes those before it; the code and the text with which scanning
    or parsing fails are those of the later actions, too, and what fails its validation has
    no value.  An evaluation without its data is refused, and the data are missing exactly if the
    file cannot be read, holds no JSON, or holds something other than numbers and objects.
    Every other command line passes or fails with exactly one code and text, on which the
    format has no influence, and every formula can be handed over. -/
theorem actions_fail_in_order {asTokens asAst asValidate asEval : List String}
    (htokens : Asks asTokens .tokens formula limit none)
    (hast : Asks asAst .ast formula limit none)
    (hvalidate : Asks asValidate .validate formula limit none)
    (heval : Asks asEval .eval formula limit context) :
    ((run files asEval).status = 0 → (run files asValidate).status = 0) ∧
      ((run files asValidate).status = 0 → (run files asAst).status = 0) ∧
      ((run files asAst).status = 0 → (run files asTokens).status = 0) ∧
      (∀ code text, FailsWith files asTokens code text →
        FailsWith files asAst code text ∧ FailsWith files asValidate code text ∧
          ((loadData files context).isSome → FailsWith files asEval code text)) ∧
      (∀ code text, FailsWith files asAst code text →
        FailsWith files asValidate code text ∧
          ((loadData files context).isSome → FailsWith files asEval code text)) ∧
      ((∃ code text, FailsWith files asValidate code text) → (loadData files context).isSome →
        ∃ code text, FailsWith files asEval code text) ∧
      (loadData files context = none → (run files asEval).status = 2) ∧
      (loadData files context = none ↔ Unloadable files context) ∧
      (∀ action context arguments other, Asks arguments action formula limit context →
        Asks other action formula limit context →
        (run files arguments).status = (run files other).status ∧
          ∀ code text, FailsWith files arguments code text ↔ FailsWith files other code text) ∧
      (∀ action context arguments, Asks arguments action formula limit context →
        (run files arguments).status = 0 ∨
          (∃ code text, ∀ code' text',
            FailsWith files arguments code' text' ↔ code' = code ∧ text' = text) ∨
          action = .eval ∧ loadData files context = none) ∧
      (∀ i : Invocation, i.Askable → i.formula = formula → i.limit = limit →
        Asks i.arguments i.action formula limit i.context) := by
  -- Only an evaluation looks at the data, so any will do for the others
  have hT : ComesTo files asTokens (verdict .tokens formula limit .empty) :=
    comesTo_of_asks htokens nofun
  have hA : ComesTo files asAst (verdict .ast formula limit .empty) := comesTo_of_asks hast nofun
  have hV : ComesTo files asValidate (verdict .validate formula limit .empty) :=
    comesTo_of_asks hvalidate nofun
  have hE : ∀ {data}, loadData files context = some data →
      ComesTo files asEval (verdict .eval formula limit data) :=
    fun hdata => comesTo_of_asks heval fun _ => hdata
  have hTA : ∀ {code text}, FailsWith files asTokens code text → FailsWith files asAst code text :=
    hT.failsWith_of_precedes hA (tokens_precedes_ast _ _)
  have hAV : ∀ {code text}, FailsWith files asAst code text →
      FailsWith files asValidate code text :=
    hA.failsWith_of_precedes hV (ast_precedes_validate _ _)
  have hAE : ∀ {code text}, FailsWith files asAst code text →
      (loadData files context).isSome → FailsWith files asEval code text := by
    intro code text hfails hsome
    obtain ⟨data, hdata⟩ := Option.isSome_iff_exists.1 hsome
    exact hA.failsWith_of_precedes (hE hdata) (ast_precedes_eval _ _) hfails
  have hEV : (run files asEval).status = 0 → (run files asValidate).status = 0 := by
    intro hzero
    cases hdata : loadData files context with
    | none =>
      rw [status_of_loadData_eq_none heval hdata] at hzero
      cases hzero
    | some data =>
      rw [(hE hdata).status_eq_zero_iff] at hzero
      exact hV.status_eq_zero_iff.2 (validate_eq_ok_of_eval _ data hzero)
  refine ⟨hEV, hA.status_of_precedes hV (ast_precedes_validate _ _),
    hT.status_of_precedes hA (tokens_precedes_ast _ _),
    fun _ _ h => ⟨hTA h, hAV (hTA h), hAE (hTA h)⟩, fun _ _ h => ⟨hAV h, hAE h⟩, ?_,
    status_of_loadData_eq_none heval, loadData_eq_none_iff,
    fun _ _ _ _ h h' => same_of_asks h h', ?_, ?_⟩
  · -- With its data an evaluation passes or fails, and it cannot pass
    rintro ⟨code, text, hfails⟩ hsome
    obtain ⟨data, hdata⟩ := Option.isSome_iff_exists.1 hsome
    obtain hzero | ⟨code', text', hall⟩ := (hE hdata).passes_or_fails
    · have hone := hfails.status_eq
      rw [hEV hzero] at hone
      cases hone
    · exact ⟨code', text', (hall _ _).2 ⟨rfl, rfl⟩⟩
  · intro action context arguments h
    obtain ⟨v, hcomes⟩ | hnone := comesTo_or_loadData_eq_none files action formula limit context
    · exact (hcomes arguments h).passes_or_fails.imp_right .inl
    · exact .inr (.inr hnone)
  · rintro i hi rfl rfl
    exact asks_arguments hi

/-- An illegal character is what an evaluation reports, though a call is nested too deep in
    front of it. -/
theorem actions_fail_in_order_illegal :
    FailsWith (fun _ => none) ["-v", "eval", "--max-depth=0", "-fjson", "--", "f(?"]
      "LEXICAL_ERROR" "Unknown character `?` at offset 2" := by
  have htokens : Asks ["tokens", "--max-depth", "0", "f(?"] .tokens "f(?" 0 none :=
    ⟨.text, false, rfl⟩
  have hast : Asks ["--max-depth=0", "ast", "f(?"] .ast "f(?" 0 none := ⟨.text, false, rfl⟩
  have hvalidate : Asks ["validate", "f(?", "--max-depth=+0"] .validate "f(?" 0 none :=
    ⟨.text, false, rfl⟩
  have heval : Asks ["-v", "eval", "--max-depth=0", "-fjson", "--", "f(?"] .eval "f(?" 0 none :=
    ⟨.json, true, rfl⟩
  -- The scan goes past the parenthesis and stops at the third character
  have hscan : (Formula.tokens "f(?").outcome = .error (.illegalCharacter '?' 2) := by
    have hbyte : '('.utf8Size = 1 := rfl
    rw [Formula.outcome_tokens]
    show Token.collect (Token.scanFrom 0 ['f', '(', '?']) = _
    simp [Token.scanFrom, Token.ofSymbol, Token.collect, hbyte]
  have hcomes : ComesTo (fun _ => none) ["tokens", "--max-depth", "0", "f(?"]
      (verdict .tokens "f(?" 0 .empty) := comesTo_of_asks htokens (absurd · (by decide))
  have hfails : FailsWith (fun _ => none) ["tokens", "--max-depth", "0", "f(?"]
      "LEXICAL_ERROR" "Unknown character `?` at offset 2" :=
    (hcomes.failsWith_iff _ _).2 ⟨_, congrArg (Except.map _) hscan, rfl, rfl⟩
  obtain ⟨-, -, -, hfirst, -⟩ := actions_fail_in_order htokens hast hvalidate heval
  exact (hfirst _ _ hfails).2.2 rfl

end CommandLine

end Reckoner
