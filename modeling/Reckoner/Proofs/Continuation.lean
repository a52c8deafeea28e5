import Reckoner.Proofs.DraftSteps

/-!
# What further tokens can change

A list of tokens that is no program is either unfinished or wrong.  Where the end of the
tokens is at fault, further tokens can still make a program of them, for every draft can be
completed.  Where a token is at fault nothing behind it is looked at, and that token is the
first behind which no program is possible.

## Key results

- `SyntaxFault.message_endsWith_iff`: the messages that speak of the end of input
- `Draft.completable`: every draft can be completed, whatever the limit
- `Draft.exists_step_of_run_error`: a run fails at a token that a draft refuses
- `Expr.ofTokens_fault_of_append`: which faults further tokens can mend
-/

namespace Reckoner

/-! ## Faults of tokens and of the end -/

/-- A token is at fault: it is not what has to stand there, or it nests a call too deep. -/
inductive Fault.OfToken (limit : Nat) : Fault → Prop where
  | unexpected (wanted : Expectation) (kind : Token.Kind) :
    OfToken limit (.malformed (.expected wanted (some kind)))
  | nestedTooDeep : OfToken limit (.nestedTooDeep limit)

/-- The end of the tokens is at fault. -/
inductive Fault.OfEnd : Fault → Prop where
  | missing (wanted : Expectation) : OfEnd (.malformed (.expected wanted none))

namespace SyntaxFault

/-- A text that ends in a quoted token does not end in the name for the end of input. -/
private theorem append_backtick_ne (text front : String) :
    text ++ "`" ≠ front ++ "found end of input" := by
  intro h
  -- The two texts differ in their last character
  have hlast := congrArg (fun text : String => text.toList.getLast?) h
  have htick : "`".toList.getLast? = some '`' := rfl
  have hinput : "found end of input".toList.getLast? = some 't' := rfl
  simp only [String.toList_append, List.getLast?_append, htick, hinput, Option.some_or,
    Option.some.injEq] at hlast
  exact absurd hlast (by decide)

/-- A token that was found is named between backticks. -/
private theorem append_foundText (front : String) (kind : Token.Kind) :
    front ++ foundText (some kind) = front ++ "`" ++ kind.text ++ "`" := by
  simp only [foundText, String.append_assoc]

/-- A token that was found is named last, with a backtick behind its name. -/
theorem exists_message_some (wanted : Expectation) (kind : Token.Kind) :
    ∃ text, (expected wanted (some kind)).message = text ++ kind.text ++ "`" := by
  cases wanted with
  | expression => exact ⟨"Unexpected token of type `", rfl⟩
  | opening => exact ⟨_, append_foundText _ kind⟩
  | separator => exact ⟨_, append_foundText _ kind⟩
  | segment => exact ⟨_, append_foundText _ kind⟩

/-- A message ends in the words for the end of input exactly if no token was found. -/
theorem message_endsWith_iff {wanted : Expectation} {found : Option Token.Kind} :
    (∃ front, (expected wanted found).message = front ++ "found end of input") ↔
      found = none := by
  constructor
  · rintro ⟨front, h⟩
    cases found with
    | none => rfl
    | some kind =>
      -- A token that was found closes the message with a backtick
      obtain ⟨text, htext⟩ := exists_message_some wanted kind
      exact absurd (htext.symm.trans h) (append_backtick_ne (text ++ kind.text) front)
  · rintro rfl
    -- Each expectation has a front of its own
    cases wanted with
    | expression => exact ⟨"Expected expression, ", by decide⟩
    | opening => exact ⟨"Expected `(`, ", by decide⟩
    | separator => exact ⟨"Expected `,` or `)`, ", by decide⟩
    | segment => exact ⟨"Expected `variable` after `dot`, ", by decide⟩

end SyntaxFault

namespace Draft

variable {limit : Nat} {d d' : Draft} {t : Token} {ts : List Token} {fault : Fault}

/-- Where a step fails its token is at fault. -/
private theorem ofToken_of_step (h : d.step limit t = .error fault) : fault.OfToken limit := by
  cases refuses_of_step h with
  | unexpected t hwants => exact .unexpected _ t.kind
  | nestedTooDeep name hawaits hlimit => exact .nestedTooDeep

/-- A draft that cannot be finished lacks a token. -/
private theorem ofEnd_of_finish (h : d.finish = .error fault) : fault.OfEnd := by
  obtain ⟨wanted, -, rfl⟩ := wants_of_finish h
  exact .missing wanted

/-! ## Completing a draft -/

/-- Some tokens make a program of the draft. -/
def Completable (limit : Nat) (d : Draft) : Prop :=
  ∃ us d' body, d.run limit us = .ok d' ∧ d'.finish = .ok body

/-- A draft can be completed if one of its steps leads to one that can. -/
theorem Completable.of_advance (h : Advance limit d t d') (hnext : d'.Completable limit) :
    d.Completable limit := by
  obtain ⟨us, last, body, hrun, hfinish⟩ := hnext
  exact ⟨t :: us, last, body, run_cons_eq_ok_iff.mpr ⟨d', h, hrun⟩, hfinish⟩

/-- An expression that is taken in leaves as many calls open as there were. -/
theorem length_calls_deliver (d : Draft) (e : Expr) :
    (d.deliver e).calls.length = d.calls.length := by
  obtain ⟨body, calls, phase⟩ := d
  cases calls with
  | nil => rfl
  | cons c calls => rfl

/-- Behind a finished expression closing parentheses end the calls that are open. -/
private theorem completable_of_settle_between (h : d.settle.phase = .between) :
    d.Completable limit := by
  -- One call is closed after the other, the innermost first
  generalize hn : d.settle.calls.length = n
  induction n generalizing d with
  | zero =>
    refine ⟨[], d, d.settle.body.reverse, rfl, finish_eq_ok_iff.mpr ⟨h, ?_, rfl⟩⟩
    exact List.eq_nil_of_length_eq_zero hn
  | succ n ih =>
    obtain ⟨c, calls, hcalls⟩ := List.exists_cons_of_length_eq_add_one hn
    have hlength : calls.length = n := by
      rw [hcalls] at hn
      exact Nat.succ.inj hn
    apply Completable.of_advance (.close (.inl h) hcalls)
    apply ih
    · rw [settle_deliver, phase_deliver]
    · rw [settle_deliver, length_calls_deliver]
      exact hlength

/-- Where an expression may start, a number is one. -/
theorem completable_of_awaits (h : d.Awaits) : d.Completable limit := by
  apply Completable.of_advance (.literal 0 h)
  apply completable_of_settle_between
  rw [settle_deliver, phase_deliver]

/-- Every draft can be completed without a further call, so no limit stands against it. -/
theorem completable (limit : Nat) (d : Draft) : d.Completable limit := by
  obtain ⟨body, calls, phase⟩ := d
  cases phase with
  | between => exact completable_of_settle_between rfl
  | argument => exact completable_of_awaits (.inl rfl)
  | firstArgument => exact completable_of_awaits (.inr (.inl rfl))
  | opening name =>
    -- The call was counted against the limit with its name, so its parenthesis passes
    apply Completable.of_advance (.leftParen rfl)
    exact completable_of_awaits (.inr (.inl rfl))
  -- A path may end where a segment does, and behind a dot any name will do
  | path path => exact completable_of_settle_between (phase_deliver _ _)
  | segment path =>
    apply Completable.of_advance (.segment "a" rfl)
    exact completable_of_settle_between (phase_deliver _ _)

/-! ## Where a run fails -/

/-- Nothing behind a fault is looked at. -/
private theorem run_append_of_error (h : d.run limit ts = .error fault) (us : List Token) :
    d.run limit (ts ++ us) = .error fault := by
  rw [run_append, h]
  rfl

/-- A run fails at a token that the draft before it refuses. -/
theorem exists_step_of_run_error (h : d.run limit ts = .error fault) :
    ∃ before t after next, ts = before ++ t :: after ∧ d.run limit before = .ok next ∧
      next.step limit t = .error fault := by
  induction ts generalizing d with
  | nil => exact nomatch h
  | cons t ts ih =>
    rw [run] at h
    -- The run fails at its first step, or behind it
    cases hstep : d.step limit t with
    | error other =>
      rw [hstep] at h
      obtain rfl := Except.error.inj h
      exact ⟨[], t, ts, d, rfl, rfl, hstep⟩
    | ok d₁ =>
      rw [hstep] at h
      obtain ⟨before, u, after, next, rfl, hrun, hfault⟩ := ih h
      exact ⟨t :: before, u, after, next, rfl,
        run_cons_eq_ok_iff.mpr ⟨d₁, step_eq_ok_iff.mp hstep, hrun⟩, hfault⟩

end Draft

/-! ## Faults of token lists -/

namespace Expr

variable {limit : Nat} {ts : List Token} {fault : Fault}

/-- A fault of a run is the fault of reading its tokens. -/
theorem ofTokens_of_run_error (h : Draft.start.run limit ts = .error fault) :
    ofTokens limit ts = .error fault := by
  simp only [ofTokens, listOfTokens, h]
  rfl

/-- Reading tokens fails at a token, or at their end. -/
theorem ofTokens_eq_error_iff :
    ofTokens limit ts = .error fault ↔
      Draft.start.run limit ts = .error fault ∨
        ∃ d, Draft.start.run limit ts = .ok d ∧ d.finish = .error fault := by
  cases hrun : Draft.start.run limit ts with
  | error other => simp [ofTokens, listOfTokens, hrun, Except.map]
  | ok d =>
    cases hfinish : d.finish with
    | error other => simp [ofTokens, listOfTokens, hrun, hfinish, Except.map]
    | ok body => simp [ofTokens, listOfTokens, hrun, hfinish, Except.map]

/-- Tokens that were taken in can be continued to a program. -/
private theorem exists_ofTokens_append {d : Draft} (h : Draft.start.run limit ts = .ok d) :
    ∃ us body, ofTokens limit (ts ++ us) = .ok (.program body) := by
  -- Every draft that is reached can be completed, for instance by closing its calls
  obtain ⟨us, d', body, hrun, hfinish⟩ := d.completable limit
  refine ⟨us, body, ?_⟩
  have hall : Draft.start.run limit (ts ++ us) = .ok d' := by
    rw [Draft.run_append_of_ok h, hrun]
  simp only [ofTokens, listOfTokens, hall, hfinish]
  rfl

/-- Tokens are no program for a fault of syntax or for their nesting.  Where the message of
    a fault of syntax ends in the words for the end of input, some further tokens make a
    program of them.  With any other fault no further tokens change anything: what stands in
    front of one of the tokens can be continued to a program, and with that token it fails
    with this fault, whatever follows. -/
theorem ofTokens_fault_of_append (limit : Nat) (ts : List Token) :
    (∀ fault, ofTokens limit ts = .error fault →
      (∃ cause, fault = .malformed cause) ∨ fault = .nestedTooDeep limit) ∧
    (∀ cause, ofTokens limit ts = .error (.malformed cause) →
      (∃ front, cause.message = front ++ "found end of input") →
      ∃ us body, ofTokens limit (ts ++ us) = .ok (.program body)) ∧
    ∀ fault, ofTokens limit ts = .error fault →
      (∀ cause, fault = .malformed cause →
        ¬ ∃ front, cause.message = front ++ "found end of input") →
      (∀ us, ofTokens limit (ts ++ us) = .error fault) ∧
      ∃ before t after, ts = before ++ t :: after ∧
        (∃ us body, ofTokens limit (before ++ us) = .ok (.program body)) ∧
        ∀ us, ofTokens limit (before ++ t :: us) = .error fault := by
  refine ⟨fun fault h => ?_, fun cause h hend => ?_, fun fault h hother => ?_⟩
  · -- A fault arises at a token or at the end, and both are faults of syntax or of nesting
    rcases ofTokens_eq_error_iff.mp h with hrun | ⟨d, -, hfinish⟩
    · obtain ⟨-, t, -, next, -, -, hstep⟩ := Draft.exists_step_of_run_error hrun
      cases Draft.ofToken_of_step hstep with
      | unexpected wanted kind => exact .inl ⟨_, rfl⟩
      | nestedTooDeep => exact .inr rfl
    · cases Draft.ofEnd_of_finish hfinish with
      | missing wanted => exact .inl ⟨_, rfl⟩
  · rcases ofTokens_eq_error_iff.mp h with hrun | ⟨d, hrun, -⟩
    · -- A token that is found is named in the message
      obtain ⟨-, t, -, next, -, -, hstep⟩ := Draft.exists_step_of_run_error hrun
      cases Draft.ofToken_of_step hstep with
      | unexpected wanted kind => exact nomatch SyntaxFault.message_endsWith_iff.mp hend
    · exact exists_ofTokens_append hrun
  · rcases ofTokens_eq_error_iff.mp h with hrun | ⟨d, -, hfinish⟩
    · refine ⟨fun us => ofTokens_of_run_error (Draft.run_append_of_error hrun us), ?_⟩
      -- The tokens in front of the one that fails can be completed, and no others
      obtain ⟨before, t, after, next, hts, hbefore, hstep⟩ := Draft.exists_step_of_run_error hrun
      refine ⟨before, t, after, hts, exists_ofTokens_append hbefore, fun us => ?_⟩
      apply ofTokens_of_run_error
      rw [Draft.run_append_of_ok hbefore, Draft.run, hstep]
    · cases Draft.ofEnd_of_finish hfinish with
      | missing wanted => exact absurd (SyntaxFault.message_endsWith_iff.mpr rfl) (hother _ rfl)

/-- An open call can still be closed, and a number behind an argument cannot be mended. -/
theorem ofTokens_fault_of_append_open_call :
    let ts : List Token := [.function "f", .leftParen, .number 1]
    ofTokens 1 ts = .error (.malformed (.expected .separator none)) ∧
      (∃ us body, ofTokens 1 (ts ++ us) = .ok (.program body)) ∧
      ∀ us, ofTokens 1 (ts ++ [.number 2] ++ us) =
        .error (.malformed (.expected .separator (some .number))) := by
  intro ts
  -- The same message, but at the end of the tokens it can still be averted
  have hopen : ofTokens 1 ts = .error (.malformed (.expected .separator none)) := rfl
  have hwrong : ofTokens 1 (ts ++ [.number 2]) =
      .error (.malformed (.expected .separator (some .number))) := rfl
  refine ⟨hopen, (ofTokens_fault_of_append 1 ts).2.1 _ hopen ?_, ?_⟩
  · exact SyntaxFault.message_endsWith_iff.mpr rfl
  · refine ((ofTokens_fault_of_append 1 (ts ++ [.number 2])).2.2 _ hwrong ?_).1
    rintro cause ⟨⟩ hend
    exact nomatch SyntaxFault.message_endsWith_iff.mp hend

end Expr

end Reckoner
