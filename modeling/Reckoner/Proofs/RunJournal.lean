import Reckoner.Proofs.AskedPaths
import Reckoner.Proofs.RecordTexts

/-!
# How far a run got

The journal of a run says how far it got.  Scanning and reading a formula leave a record of what
they made, as far as they came.  Evaluation leaves one for every path and every call that has a
value, in post-order, up to the first node that fails.  What came out is recorded last.

## Key results

- `Formula.reading_journal_parse`: the records of scanning and reading
- `Expr.Records.bind`: runs one after the other record their nodes one after the other
- `Expr.records_eval`: evaluation records the nodes that it gets past
- `Formula.journals_say_how_far`: whole journals of evaluations and of checks
-/

namespace Reckoner

/-! ## Journals of runs one after the other -/

namespace Traced

variable {α β : Type} {run : Traced α} {next : α → Traced β}

/-- The records of two runs, if the first has a value. -/
private theorem journal_bind_of_ok {value : α} (h : run.outcome = .ok value) :
    (run >>= next).journal = run.journal ++ (next value).journal := by
  rw [bind_of_ok h]
  exact List.filterMap_append ..

/-- The records of a run that fails are those of the whole. -/
private theorem journal_bind_of_error {fault : Fault} (h : run.outcome = .error fault) :
    (run >>= next).journal = run.journal := by
  rw [bind_of_error h]
  rfl

/-- The fault that ended a run. -/
def fault? (run : Traced α) : Option Fault :=
  match run.outcome with
  | .ok _ => none
  | .error fault => some fault

end Traced

/-! ## Scanning and reading -/

namespace Token

/-- Tokens come first among the items behind which they stand. -/
private theorem leading_map_ok_append (ts : List Token) (rest : List (Except Fault Token)) :
    leading (ts.map .ok ++ rest) = ts ++ leading rest := by
  induction ts with
  | nil => rfl
  | cons t ts ih => rw [List.map_cons, List.cons_append, leading, ih, List.cons_append]

end Token

namespace Formula

/-- The records of a formula that is scanned and read: one for every token in front of the
    first fault of scanning; if there is none, their number; and if they are read as a program,
    the number of its expressions. -/
inductive Reading (limit : Nat) (formula : String) : List Record → Prop where
  | unscanned {ts : List Token} {fault : Fault} {rest : List (Except Fault Token)}
    {records : List Record} (hscan : Token.scan formula = ts.map .ok ++ .error fault :: rest)
    (htokens : List.Forall₂ Token.RecordedAs ts records) : Reading limit formula records
  | unread {ts : List Token} {fault : Fault} {records : List Record}
    (hscan : Token.scan formula = ts.map .ok) (htokens : List.Forall₂ Token.RecordedAs ts records)
    (hparse : (parse limit formula).outcome = .error fault) :
    Reading limit formula (records ++
      [⟨.trace, "tokenized " ++ Text.quote formula ++ " into " ++ toString ts.length ++ " tokens"⟩])
  | read {ts : List Token} {body : List Expr} {records : List Record}
    (hscan : Token.scan formula = ts.map .ok) (htokens : List.Forall₂ Token.RecordedAs ts records)
    (hparse : (parse limit formula).outcome = .ok (.program body)) :
    Reading limit formula (records ++
      [⟨.trace, "tokenized " ++ Text.quote formula ++ " into " ++ toString ts.length ++ " tokens"⟩,
        ⟨.debug,
          "parsed program with " ++ toString body.length ++ " top-level expressions"⟩])

/-- A text without faults is scanned into all its tokens, and their number is told. -/
private theorem tokens_of_scan {formula : String} {ts : List Token}
    (hscan : Token.scan formula = ts.map .ok) :
    tokens formula = ⟨ts.map .token ++ [.tokenized formula ts.length], .ok ts⟩ := by
  have hleading : Token.leading (ts.map .ok) = ts := by
    simpa [Token.leading] using Token.leading_map_ok_append ts []
  simp only [tokens, hscan, Token.collect_map_ok, hleading]

/-- Scanning ends at the first fault, and the tokens in front of it were made. -/
private theorem tokens_of_scan_error {formula : String} {ts : List Token} {fault : Fault}
    {rest : List (Except Fault Token)}
    (hscan : Token.scan formula = ts.map .ok ++ .error fault :: rest) :
    tokens formula = ⟨ts.map .token, .error fault⟩ := by
  have hleading : Token.leading (ts.map .ok ++ .error fault :: rest) = ts := by
    simpa [Token.leading] using Token.leading_map_ok_append ts (.error fault :: rest)
  have hcollect := Token.collect_eq_error_iff.mpr ⟨ts, rest, hscan⟩
  simp only [tokens, hcollect]
  rw [hscan, hleading]

/-- The tokens in front of the first fault are spellable. -/
private theorem spellable_leading {formula : String} {ts : List Token}
    {rest : List (Except Fault Token)} (hscan : Token.scan formula = ts.map .ok ++ rest) :
    ∀ t ∈ ts, t.Spellable := by
  intro t ht
  have hmem : .ok t ∈ Token.scan formula := by
    rw [hscan]
    exact List.mem_append_left _ (List.mem_map_of_mem ht)
  exact Token.spellable_of_mem_scanFrom hmem

/-- The records of scanning and reading go as far as the stages do. -/
theorem reading_journal_parse (limit : Nat) (formula : String) :
    Reading limit formula (parse limit formula).journal := by
  cases houtcome : (tokens formula).outcome with
  | ok ts =>
    have hscan := outcome_tokens_eq_ok_iff.mp houtcome
    have htokens := tokens_of_scan hscan
    have hspell : ∀ t ∈ ts, t.Spellable := spellable_leading (hscan.trans (List.append_nil _).symm)
    have hrecorded := Token.forall₂_recordedAs hspell
    -- The whole text was scanned, so the number of its tokens is told behind them
    have hjournal : (tokens formula).journal = (ts.map Event.token).filterMap Event.record? ++
        [⟨.trace,
          "tokenized " ++ Text.quote formula ++ " into " ++ toString ts.length ++ " tokens"⟩] := by
      rw [htokens, Traced.journal, List.filterMap_append]
      rfl
    cases hbody : Expr.listOfTokens limit ts with
    | error fault =>
      have hparse : (parse limit formula).outcome = .error fault := by
        rw [outcome_parse, houtcome, Except.bind, Expr.ofTokens, hbody]
        rfl
      have hread : (parse limit formula).journal = (tokens formula).journal := by
        rw [parse, Traced.journal_bind_of_ok houtcome, hbody, Traced.journal_bind_of_error rfl]
        exact List.append_nil _
      rw [hread, hjournal]
      exact .unread hscan hrecorded hparse
    | ok body =>
      have hparse : (parse limit formula).outcome = .ok (.program body) :=
        outcome_parse_eq_ok_iff.mpr ⟨ts, body, houtcome, hbody, rfl⟩
      have hread : (parse limit formula).journal = (tokens formula).journal ++
          [⟨.debug,
            "parsed program with " ++ toString body.length ++ " top-level expressions"⟩] := by
        rw [parse, Traced.journal_bind_of_ok houtcome, hbody]
        rfl
      rw [hread, hjournal, List.append_assoc]
      exact .read hscan hrecorded hparse
  | error fault =>
    -- Nothing is recorded of the fault itself, nor of what stands behind it
    obtain ⟨ts, rest, hscan⟩ := outcome_tokens_eq_error_iff.mp houtcome
    have hread : (parse limit formula).journal = (tokens formula).journal := by
      rw [parse, Traced.journal_bind_of_error houtcome]
    rw [hread, tokens_of_scan_error hscan]
    exact .unscanned hscan (Token.forall₂_recordedAs (spellable_leading hscan))

end Formula

/-! ## Evaluation -/

namespace Expr

variable {context : Context}

/-- How far a run gets through nodes: past all of them if none fails, else past those in front
    of the first that does, whose fault then ends the run. -/
inductive GetsPast (context : Context) (nodes : List Expr) : List Expr → Option Fault → Prop where
  | all (hsound : ∀ node ∈ nodes, Sound context node) : GetsPast context nodes nodes none
  | upTo {before after : List Expr} {node : Expr} {fault : Fault}
    (hnodes : nodes = before ++ node :: after) (hsound : ∀ n ∈ before, Sound context n)
    (hfails : Fails context node fault) : GetsPast context nodes before (some fault)

/-- Nodes that are recorded when a run gets past them. -/
def isRecorded : Expr → Bool
  | path _ => true
  | call .. => true
  | literal _ => false
  | program _ => false

/-- The record of a node: of a path the number that the context has for it, and of a call the
    values of its arguments in order and its own value. -/
inductive RecordedAs (context : Context) : Expr → Record → Prop where
  | path {dotted : String} {x : Float} (hanswer : context dotted = .ok x) :
    RecordedAs context (.path dotted) ⟨.trace, dotted ++ " = " ++ valueText x⟩
  | call {name : String} {args : List Expr} {values : List Float} {x : Float}
    (hargs : List.Forall₂ (HasValue context) args values)
    (hvalue : HasValue context (.call name args) x) :
    RecordedAs context (.call name args)
      ⟨.trace, name ++ "[" ++ String.intercalate ", " (values.map argumentText) ++ "] = "
        ++ valueText x⟩

/-- A run records the nodes that it gets past, one after the other, those that are recorded at
    all. -/
def Records (context : Context) {α : Type} (nodes : List Expr) (run : Traced α) : Prop :=
  ∃ before, GetsPast context nodes before run.fault? ∧
    List.Forall₂ (RecordedAs context) (before.filter isRecorded) run.journal

namespace GetsPast

variable {nodes others before : List Expr} {fault : Fault}

/-- A run that gets past all nodes goes on through the others. -/
theorem append {others' : List Expr} {fault? : Option Fault}
    (h : GetsPast context nodes before none) (hothers : GetsPast context others others' fault?) :
    GetsPast context (nodes ++ others) (before ++ others') fault? := by
  cases h with
  | all hsound =>
    cases hothers with
    | all hsound' => exact .all (List.forall_mem_append.mpr ⟨hsound, hsound'⟩)
    | upTo hnodes hsound' hfails =>
      rw [hnodes, ← List.append_assoc]
      exact .upTo rfl (List.forall_mem_append.mpr ⟨hsound, hsound'⟩) hfails

/-- A run that a node ended does not reach others. -/
private theorem append_of_some (h : GetsPast context nodes before (some fault))
    (others : List Expr) :
    GetsPast context (nodes ++ others) before (some fault) := by
  cases h with
  | upTo hnodes hsound hfails =>
    rw [hnodes, List.append_assoc, List.cons_append]
    exact .upTo rfl hsound hfails

end GetsPast

namespace Records

variable {α β : Type} {nodes others : List Expr} {run : Traced α} {next : α → Traced β}

/-- One run after the other records the nodes of both, one after the other. -/
theorem bind (h : Records context nodes run)
    (hnext : ∀ value, run.outcome = .ok value → Records context others (next value)) :
    Records context (nodes ++ others) (run >>= next) := by
  obtain ⟨before, hpast, hrecorded⟩ := h
  -- The second run is there only if the first has a value, and then it got past all nodes
  cases houtcome : run.outcome with
  | error fault =>
    rw [Traced.fault?, houtcome] at hpast
    refine ⟨before, ?_, ?_⟩
    · rw [Traced.bind_of_error houtcome]
      exact hpast.append_of_some others
    · rwa [Traced.journal_bind_of_error houtcome]
  | ok value =>
    rw [Traced.fault?, houtcome] at hpast
    obtain ⟨before', hpast', hrecorded'⟩ := hnext value houtcome
    refine ⟨before ++ before', ?_, ?_⟩
    · rw [Traced.bind_of_ok houtcome]
      exact hpast.append hpast'
    · rw [Traced.journal_bind_of_ok houtcome, List.filter_append]
      exact List.rel_append hrecorded hrecorded'

/-- A run records a single node that it gets past, if that is recorded at all. -/
theorem single {node : Expr}
    (hok : ∀ value, run.outcome = .ok value → Sound context node ∧
      List.Forall₂ (RecordedAs context) ([node].filter isRecorded) run.journal)
    (herror : ∀ fault, run.outcome = .error fault → Fails context node fault ∧ run.journal = []) :
    Records context [node] run := by
  -- A value means that the node is sound, a fault that it is the one to fail
  cases houtcome : run.outcome with
  | ok value =>
    obtain ⟨hsound, hrecorded⟩ := hok value houtcome
    refine ⟨[node], ?_, hrecorded⟩
    rw [Traced.fault?, houtcome]
    exact .all (List.forall_mem_singleton.mpr hsound)
  | error fault =>
    obtain ⟨hfails, hrecorded⟩ := herror fault houtcome
    refine ⟨[], ?_, ?_⟩
    · rw [Traced.fault?, houtcome]
      exact .upTo rfl (fun _ h => absurd h List.not_mem_nil) hfails
    · rw [hrecorded]
      exact .nil

/-- A run that only goes on with what was there records nothing more. -/
theorem map (h : Records context nodes run) (f : α → β) :
    Records context nodes (run >>= fun value => (Pure.pure (f value) : Traced β)) := by
  rw [← List.append_nil nodes]
  refine h.bind fun value _ => ⟨[], ?_, .nil⟩
  exact .all fun _ h => absurd h List.not_mem_nil

end Records

/-- A call whose arguments have values is recorded if it has one itself. -/
theorem callRun_eq (name : String) (values : List Float) :
    callRun name values =
      match callOutcome name values with
      | .ok x => ⟨[.applied name values x], .ok x⟩
      | .error fault => ⟨[], .error fault⟩ := by
  rw [callRun, callOutcome]
  -- Neither an unknown name nor a fault of the operator is an event
  cases Operator.named name with
  | error fault => rfl
  | ok operator =>
    rw [Traced.bind_of_ok (Traced.outcome_lift _), Except.bind]
    cases operator.apply values with
    | error fault => rfl
    | ok x => rfl

/-- A row records the nodes that it gets past, if its expressions do. -/
theorem records_evalAll {es : List Expr}
    (hes : ∀ e ∈ es, Records context e.postorder (e.eval context)) :
    Records context (postorders es) (evalAll context es) := by
  induction es with
  | nil => exact ⟨[], .all fun _ h => absurd h List.not_mem_nil, .nil⟩
  | cons e es ih =>
    obtain ⟨he, hes⟩ := List.forall_mem_cons.mp hes
    rw [evalAll, postorders]
    exact he.bind fun value _ => (ih hes).map (value :: ·)

/-- Evaluation records the nodes of an expression that it gets past, in post-order. -/
theorem records_eval (e : Expr) : Records context e.postorder (e.eval context) := by
  -- The induction follows post-order: the arguments in turn, and then the call
  induction e using Expr.induction with
  | literal value =>
    refine .single (fun _ _ => ⟨(HasValue.literal value).sound, .nil⟩) fun fault hfault => ?_
    cases hfault
  | path dotted =>
    refine .single (fun x hanswer => ?_) (fun fault hanswer => ?_)
    · have hanswer : context dotted = .ok x := hanswer
      refine ⟨(HasValue.path hanswer).sound, ?_⟩
      rw [eval, ask, hanswer]
      exact .cons (.path hanswer) .nil
    · have hanswer : context dotted = .error fault := hanswer
      refine ⟨.path hanswer, ?_⟩
      rw [eval, ask, hanswer]
      rfl
  | call name args ih =>
    rw [postorder, eval_call]
    refine (records_evalAll ih).bind fun values hvalues =>
      .single (fun x hx => ?_) fun fault hx => ?_
    · -- With the values of its arguments the call has a value, which is recorded beside them
      rw [outcome_callRun] at hx
      have hcall : HasValue context (call name args) x := by
        rw [← outcome_eval_eq_ok_iff, outcome_eval_call, hvalues]
        exact hx
      refine ⟨hcall.sound, ?_⟩
      rw [callRun_eq, hx]
      exact .cons (.call (outcome_evalAll_eq_ok_iff.mp hvalues) hcall) .nil
    · rw [outcome_callRun] at hx
      refine ⟨fails_call_iff.mpr ⟨values, hvalues, hx⟩, ?_⟩
      rw [callRun_eq, hx]
      rfl
  | program body _ =>
    refine .single (fun value hvalue => ?_) fun fault hfault => ⟨?_, rfl⟩
    · cases hvalue
    · obtain rfl := Except.error.inj hfault
      exact .unknownNode body

end Expr

/-! ## Whole journals -/

namespace Formula

variable {limit : Nat} {context : Context} {formula : String}

/-- The records while the program of a formula is evaluated: how many expressions stand behind
    the first, if any, and the nodes of the first that evaluation gets past. -/
inductive Evaluating (limit : Nat) (context : Context) (formula : String) : List Record → Prop where
  | none
    (hparse : ∀ first others, (parse limit formula).outcome ≠ .ok (.program (first :: others))) :
    Evaluating limit context formula []
  | first {first : Expr} {others before : List Expr} {records : List Record}
    (hparse : (parse limit formula).outcome = .ok (.program (first :: others)))
    (hpast : Expr.GetsPast context first.postorder before (evaluate limit context formula).fault?)
    (hrecords : List.Forall₂ (Expr.RecordedAs context) (before.filter Expr.isRecorded) records) :
    Evaluating limit context formula
      ((if others = [] then []
        else [⟨.debug,
          "ignoring " ++ toString others.length ++ " trailing top-level expressions"⟩]) ++ records)

/-- The last record of an evaluation: its value, if it has one. -/
def valueRecords (formula : String) : Except Fault Float → List Record
  | .ok x => [⟨.debug, Text.quote formula ++ " evaluated to " ++ valueText x⟩]
  | .error _ => []

/-- The last record of a check: the text of the fault, if it found one. -/
def faultRecords (formula : String) : Except Fault Unit → List Record
  | .ok () => []
  | .error fault => [⟨.debug, Text.quote formula ++ " is invalid: " ++ fault.message⟩]

/-- Expressions behind the first are counted in front of all records of the first. -/
private theorem journal_evalFirst (context : Context) (first : Expr) (others : List Expr) :
    (Expr.evalFirst context (.program (first :: others))).journal =
      (if others = [] then []
        else [⟨.debug,
          "ignoring " ++ toString others.length ++ " trailing top-level expressions"⟩]) ++
        (first.eval context).journal := by
  cases others with
  | nil => rfl
  | cons next others =>
    rw [Expr.evalFirst_cons_cons, Traced.journal_bind_of_ok (Traced.outcome_emit _),
      if_neg (List.cons_ne_nil next others)]
    rfl

/-- Where reading fails there is no more to record. -/
private theorem journal_evaluate_of_error {fault : Fault}
    (h : (parse limit formula).outcome = .error fault) :
    (evaluate limit context formula).journal = (parse limit formula).journal := by
  rw [evaluate, Traced.journal_bind_of_error h]

/-- An evaluation leaves the records of reading, those of evaluating the program, and its
    value. -/
private theorem journal_evaluate_of_ok {e : Expr} (h : (parse limit formula).outcome = .ok e) :
    (evaluate limit context formula).journal =
      (parse limit formula).journal ++ (e.evalFirst context).journal ++
        valueRecords formula (evaluate limit context formula).outcome := by
  have houtcome : (evaluate limit context formula).outcome = (e.evalFirst context).outcome := by
    rw [outcome_evaluate, h, Except.bind]
  rw [houtcome, evaluate, Traced.journal_bind_of_ok h, List.append_assoc]
  -- The record of the value is written last, and not at all if there is none
  cases hvalue : (e.evalFirst context).outcome with
  | error fault => rw [Traced.journal_bind_of_error hvalue, valueRecords, List.append_nil]
  | ok x =>
    rw [Traced.journal_bind_of_ok hvalue]
    rfl

/-- The records of evaluating stand between those of reading and that of the value. -/
private theorem exists_evaluating (limit : Nat) (context : Context) (formula : String) :
    ∃ records, Evaluating limit context formula records ∧
      (evaluate limit context formula).journal = (parse limit formula).journal ++ records ++
        valueRecords formula (evaluate limit context formula).outcome := by
  cases hparse : (parse limit formula).outcome with
  | error fault =>
    have houtcome : (evaluate limit context formula).outcome = .error fault := by
      rw [outcome_evaluate, hparse, Except.bind]
    refine ⟨[], .none fun first others => by rw [hparse]; exact nofun, ?_⟩
    rw [journal_evaluate_of_error hparse, houtcome, valueRecords, List.append_nil, List.append_nil]
  | ok e =>
    obtain ⟨-, body, -, -, rfl⟩ := outcome_parse_eq_ok_iff.mp hparse
    refine ⟨_, ?_, journal_evaluate_of_ok hparse⟩
    cases body with
    | nil => exact .none fun first others => by rw [hparse]; exact nofun
    | cons first others =>
      have hfirst : Expr.Records context first.postorder (first.eval context) :=
        Expr.records_eval first
      obtain ⟨before, hpast, hrecords⟩ := hfirst
      -- The fault of the formula is that of its first expression
      have hfault : (evaluate limit context formula).fault? = (first.eval context).fault? := by
        rw [Traced.fault?, Traced.fault?, outcome_evaluate, hparse, Except.bind,
          Expr.outcome_evalFirst_program]
      rw [journal_evalFirst]
      exact .first hparse (hfault ▸ hpast) hrecords

/-- A check leaves the records of reading, and the fault that it found. -/
private theorem journal_validate (limit : Nat) (formula : String) :
    (validate limit formula).journal =
      (parse limit formula).journal ++ faultRecords formula (validate limit formula).outcome := by
  -- The check itself writes nothing, so only a fault adds a record
  have hverify : (verify limit formula).journal = (parse limit formula).journal := by
    cases hparse : (parse limit formula).outcome with
    | error fault => rw [verify, Traced.journal_bind_of_error hparse]
    | ok e =>
      rw [verify, Traced.journal_bind_of_ok hparse]
      exact List.append_nil _
  rw [validate, Traced.outcome_onFault, ← hverify, Traced.onFault]
  cases (verify limit formula).outcome with
  | error fault => exact List.filterMap_append ..
  | ok value => exact (List.append_nil _).symm

/-- The journals of evaluating a formula and of checking it start with the same records, of
    scanning and reading, as far as these come.  Evaluation goes on with the nodes that it
    gets past and ends with its value, if it has one; the check ends with the text of the fault
    that it found, if there is one.  There are no other records, and the texts of numbers in
    them tell the numbers. -/
theorem journals_say_how_far (limit : Nat) (context : Context) (formula : String) :
    ∃ reading evaluating, Reading limit formula reading ∧
      Evaluating limit context formula evaluating ∧
      (evaluate limit context formula).journal =
        reading ++ evaluating ++ valueRecords formula (evaluate limit context formula).outcome ∧
      (validate limit formula).journal =
        reading ++ faultRecords formula (validate limit formula).outcome ∧
      ∀ x, Tells (valueText x) x ∧ Tells (argumentText x) x := by
  obtain ⟨records, hevaluating, hjournal⟩ := exists_evaluating limit context formula
  exact ⟨(parse limit formula).journal, records, reading_journal_parse limit formula, hevaluating,
    hjournal, journal_validate limit formula, fun x => ⟨tells_valueText x, tells_argumentText x⟩⟩

end Formula

end Reckoner
