import Reckoner.Draft

/-!
# Steps of a draft

All that a step of `Draft.step` can do, said once.  A path that was just read may go on
with a dot; any other token first settles it as a finished expression.  `Draft.settle` does
that ahead of the token, which leaves one kind of state behind a finished expression in
place of two.

## Key results

- `step_eq_ok_iff`: a step succeeds exactly in the eight ways of `Draft.Advance`
- `refuses_of_step`: a step fails only in the two ways of `Draft.Refuses`
- `finish_eq_ok_iff`: a draft is finished exactly behind a finished expression outside of
  all calls
-/

namespace Reckoner.Draft

variable {limit : Nat} {d d' : Draft} {t : Token}

/-! ## Settling a path -/

/-- Take a path that was just read for finished. -/
def settle (d : Draft) : Draft :=
  match d.phase with
  | .path path => d.deliver (.path path)
  | _ => d

@[simp] theorem phase_deliver (d : Draft) (e : Expr) : (d.deliver e).phase = .between := by
  unfold deliver
  split <;> rfl

/-- Where an expression is taken in does not depend on what may come next. -/
theorem deliver_mk (body : List Expr) (calls : List OpenCall) (phase phase' : Phase) (e : Expr) :
    deliver ⟨body, calls, phase⟩ e = deliver ⟨body, calls, phase'⟩ e := by
  cases calls with
  | nil => rfl
  | cons c calls => rfl

@[simp] theorem settle_deliver (d : Draft) (e : Expr) : (d.deliver e).settle = d.deliver e := by
  rw [settle, phase_deliver]

/-- Only a dot goes on with a path; every other token is taken in behind it. -/
theorem step_of_settle_between (h : d.settle.phase = .between) (ht : t ≠ .dot) :
    d.step limit t = d.settle.follow limit t := by
  obtain ⟨body, calls, phase⟩ := d
  -- Only a path takes the dot for itself; all other tokens first end it
  cases phase with
  | between => rfl
  | path path =>
    cases t with
    | dot => exact absurd rfl ht
    | _ => rfl
  | _ => exact nomatch h

/-- The tokens may end behind a finished expression outside of all calls, where a path
    that was just read is finished. -/
theorem finish_eq_ok_iff {body : List Expr} :
    d.finish = .ok body ↔
      d.settle.phase = .between ∧ d.settle.calls = [] ∧ d.settle.body.reverse = body := by
  -- `finish` settles a path by itself, and refuses in all phases but these two
  have hconclude : d.settle.phase = .between → d.finish = d.settle.conclude := by
    intro h
    obtain ⟨body', calls, phase⟩ := d
    cases phase with
    | between => rfl
    | path path => rfl
    | _ => exact nomatch h
  constructor
  · intro h
    have hphase : d.settle.phase = .between := by
      obtain ⟨body', calls, phase⟩ := d
      cases phase with
      | between => rfl
      | path path => exact phase_deliver _ _
      | _ => exact nomatch h
    rw [hconclude hphase, conclude] at h
    split at h
    · exact ⟨hphase, ‹_›, Except.ok.inj h⟩
    · exact nomatch h
  · rintro ⟨hphase, hcalls, rfl⟩
    rw [hconclude hphase]
    unfold conclude
    rw [hcalls]

/-! ## Behind a finished expression -/

/-- Outside of calls another expression follows. -/
private theorem follow_of_calls_eq_nil (h : d.calls = []) : d.follow limit t = d.begin limit t := by
  obtain ⟨body, calls, phase⟩ := d
  obtain rfl : calls = [] := h
  rfl

/-- A comma within a call asks for another argument. -/
private theorem follow_comma (h : d.calls ≠ []) :
    d.follow limit .comma = .ok ⟨d.body, d.calls, .argument⟩ := by
  obtain ⟨body, calls, phase⟩ := d
  cases calls with
  | nil => exact absurd rfl h
  | cons c calls => rfl

/-- A closing parenthesis makes a finished expression of the innermost open call. -/
private theorem close_of_calls_eq_cons {c : OpenCall} {calls : List OpenCall}
    (h : d.calls = c :: calls) :
    d.close = .ok (deliver ⟨d.body, calls, .between⟩ (.call c.name c.args.reverse)) := by
  obtain ⟨body, calls', phase⟩ := d
  obtain rfl : calls' = _ := h
  rfl

/-- Inside of a call a closing parenthesis ends it. -/
private theorem follow_rightParen {c : OpenCall} {calls : List OpenCall}
    (h : d.calls = c :: calls) :
    d.follow limit .rightParen = d.close := by
  obtain ⟨body, calls', phase⟩ := d
  obtain rfl : calls' = _ := h
  rfl

/-! ## Starting an expression -/

/-- An expression may start here: an argument, or outside of all calls an expression of
    the program. -/
def Awaits (d : Draft) : Prop :=
  d.phase = .argument ∨ d.phase = .firstArgument ∨
    d.settle.phase = .between ∧ d.settle.calls = []

/-- Where an expression may start, a token other than a closing parenthesis and a dot has
    to start one. -/
theorem step_of_awaits (h : d.Awaits) (hclose : t ≠ .rightParen) (hdot : t ≠ .dot) :
    d.step limit t = d.settle.begin limit t := by
  -- An expression is awaited behind a comma, behind an open parenthesis, or outside of calls
  rcases h with hphase | hphase | ⟨hphase, hcalls⟩
  · obtain ⟨body, calls, phase⟩ := d
    obtain rfl : phase = .argument := hphase
    rfl
  · obtain ⟨body, calls, phase⟩ := d
    obtain rfl : phase = .firstArgument := hphase
    cases t with
    | rightParen => exact absurd rfl hclose
    | _ => rfl
  · rw [step_of_settle_between hphase hdot]
    exact follow_of_calls_eq_nil hcalls

/-! ## What a step does -/

/-- The ways in which a draft takes in a token. -/
inductive Advance (limit : Nat) (d : Draft) : Token → Draft → Prop where
  | literal (value : Int) (hawaits : d.Awaits) :
    Advance limit d (.number value) (d.settle.deliver (.literal value))
  | word (name : String) (hawaits : d.Awaits) :
    Advance limit d (.word name) ⟨d.settle.body, d.settle.calls, .path name⟩
  | function (name : String) (hawaits : d.Awaits) (hlimit : d.settle.calls.length < limit) :
    Advance limit d (.function name) ⟨d.settle.body, d.settle.calls, .opening name⟩
  | comma (hphase : d.settle.phase = .between) (hcalls : d.settle.calls ≠ []) :
    Advance limit d .comma ⟨d.settle.body, d.settle.calls, .argument⟩
  | close {c : OpenCall} {calls : List OpenCall}
    (hphase : d.settle.phase = .between ∨ d.phase = .firstArgument)
    (hcalls : d.settle.calls = c :: calls) :
    Advance limit d .rightParen
      (deliver ⟨d.settle.body, calls, .between⟩ (.call c.name c.args.reverse))
  | leftParen {name : String} (hphase : d.phase = .opening name) :
    Advance limit d .leftParen ⟨d.body, ⟨name, []⟩ :: d.calls, .firstArgument⟩
  | dot {path : String} (hphase : d.phase = .path path) :
    Advance limit d .dot ⟨d.body, d.calls, .segment path⟩
  | segment {path : String} (name : String) (hphase : d.phase = .segment path) :
    Advance limit d (.word name) ⟨d.body, d.calls, .path (path ++ "." ++ name)⟩

/-- Where an expression may start, a step starts one. -/
private theorem advance_of_begin (hawaits : d.Awaits) (h : d.settle.begin limit t = .ok d') :
    Advance limit d t d' := by
  -- Only three kinds of tokens start an expression
  cases t with
  | number value =>
    obtain rfl := Except.ok.inj h
    exact .literal value hawaits
  | word name =>
    obtain rfl := Except.ok.inj h
    exact .word name hawaits
  | function name =>
    simp only [begin] at h
    split at h
    · exact nomatch h
    · rename_i hlimit
      obtain rfl := Except.ok.inj h
      exact .function name hawaits (Nat.lt_of_not_le hlimit)
  | _ => exact nomatch h

/-- Behind an expression a step goes on with what may follow. -/
private theorem advance_of_follow (hphase : d.settle.phase = .between)
    (h : d.settle.follow limit t = .ok d') : Advance limit d t d' := by
  -- Outside of calls another expression starts; inside, a comma or the end of the call follows
  cases hcalls : d.settle.calls with
  | nil =>
    rw [follow_of_calls_eq_nil hcalls] at h
    exact advance_of_begin (.inr (.inr ⟨hphase, hcalls⟩)) h
  | cons c calls =>
    cases t with
    | comma =>
      have hne : d.settle.calls ≠ [] := by simp [hcalls]
      rw [follow_comma hne] at h
      obtain rfl := Except.ok.inj h
      exact .comma hphase hne
    | rightParen =>
      rw [follow_rightParen hcalls, close_of_calls_eq_cons hcalls] at h
      obtain rfl := Except.ok.inj h
      exact .close (.inl hphase) hcalls
    | _ =>
      unfold follow at h
      rw [hcalls] at h
      exact nomatch h

/-- A step that succeeds is one of the eight. -/
private theorem advance_of_step (h : d.step limit t = .ok d') : Advance limit d t d' := by
  obtain ⟨body, calls, phase⟩ := d
  cases phase with
  | between => exact advance_of_follow rfl h
  | argument => exact advance_of_begin (.inl rfl) h
  | firstArgument =>
    -- The call ends without arguments, or its first argument starts
    by_cases ht : t = .rightParen
    · subst ht
      cases calls with
      | nil => exact nomatch h
      | cons c calls =>
        obtain rfl := Except.ok.inj h
        exact .close (.inr rfl) rfl
    · have hdot : t ≠ .dot := by
        rintro rfl
        exact nomatch h
      rw [step_of_awaits (.inr (.inl rfl)) ht hdot] at h
      exact advance_of_begin (.inr (.inl rfl)) h
  | opening name =>
    cases t with
    | leftParen =>
      obtain rfl := Except.ok.inj h
      exact .leftParen rfl
    | _ => exact nomatch h
  | path path =>
    -- A dot goes on with the path, any other token comes behind the settled path
    by_cases ht : t = .dot
    · subst ht
      obtain rfl := Except.ok.inj h
      exact .dot rfl
    · have hphase : (settle ⟨body, calls, .path path⟩).phase = .between := phase_deliver _ _
      rw [step_of_settle_between hphase ht] at h
      exact advance_of_follow hphase h
  | segment path =>
    cases t with
    | word name =>
      obtain rfl := Except.ok.inj h
      exact .segment name rfl
    | _ => exact nomatch h

/-- Each of the eight is a step that succeeds. -/
theorem step_of_advance (h : Advance limit d t d') : d.step limit t = .ok d' := by
  cases h with
  | literal value hawaits =>
    rw [step_of_awaits hawaits (by simp) (by simp), begin]
  | word name hawaits =>
    rw [step_of_awaits hawaits (by simp) (by simp), begin]
  | function name hawaits hlimit =>
    rw [step_of_awaits hawaits (by simp) (by simp), begin, if_neg (Nat.not_le_of_lt hlimit)]
  | comma hphase hcalls =>
    rw [step_of_settle_between hphase (by simp), follow_comma hcalls]
  | close hphase hcalls =>
    -- Either behind the last argument or without any
    rcases hphase with hphase | hphase
    · rw [step_of_settle_between hphase (by simp), follow_rightParen hcalls,
        close_of_calls_eq_cons hcalls]
    · obtain ⟨body, calls', phase⟩ := d
      obtain rfl : phase = .firstArgument := hphase
      exact close_of_calls_eq_cons hcalls
  | leftParen hphase =>
    unfold step
    rw [hphase]
  | dot hphase =>
    unfold step
    rw [hphase]
  | segment name hphase =>
    unfold step
    rw [hphase]

/-- A step succeeds in these ways and no other. -/
theorem step_eq_ok_iff : d.step limit t = .ok d' ↔ Advance limit d t d' :=
  ⟨advance_of_step, step_of_advance⟩

/-! ## What a step refuses -/

/-- What has to stand next behind a draft, where not everything may. -/
inductive Wants (d : Draft) : Expectation → Prop where
  | expression (hawaits : d.Awaits) : Wants d .expression
  | opening {name : String} (hphase : d.phase = .opening name) : Wants d .opening
  | separator (hphase : d.settle.phase = .between) (hcalls : d.settle.calls ≠ []) :
    Wants d .separator
  | segment {path : String} (hphase : d.phase = .segment path) : Wants d .segment

/-- The ways in which a draft refuses a token. -/
inductive Refuses (limit : Nat) (d : Draft) : Token → Fault → Prop where
  | unexpected {wanted : Expectation} (t : Token) (hwants : d.Wants wanted) :
    Refuses limit d t (.malformed (.expected wanted (some t.kind)))
  | nestedTooDeep (name : String) (hawaits : d.Awaits) (hlimit : limit ≤ d.settle.calls.length) :
    Refuses limit d (.function name) (.nestedTooDeep limit)

/-- Where an expression may start, a fault refuses what starts none. -/
private theorem refuses_of_begin {fault : Fault} (hawaits : d.Awaits)
    (h : d.settle.begin limit t = .error fault) : Refuses limit d t fault := by
  -- A function name is refused for its depth, and what starts no expression for its kind
  cases t with
  | number value => exact nomatch h
  | word name => exact nomatch h
  | function name =>
    simp only [begin] at h
    split at h
    · rename_i hlimit
      obtain rfl := Except.error.inj h
      exact .nestedTooDeep name hawaits hlimit
    · exact nomatch h
  | _ =>
    obtain rfl := Except.error.inj h
    exact .unexpected _ (.expression hawaits)

/-- Behind an expression a fault refuses what may not follow. -/
private theorem refuses_of_follow {fault : Fault} (hphase : d.settle.phase = .between)
    (h : d.settle.follow limit t = .error fault) : Refuses limit d t fault := by
  -- Inside of a call all but two tokens are refused
  cases hcalls : d.settle.calls with
  | nil =>
    rw [follow_of_calls_eq_nil hcalls] at h
    exact refuses_of_begin (.inr (.inr ⟨hphase, hcalls⟩)) h
  | cons c calls =>
    have hne : d.settle.calls ≠ [] := by simp [hcalls]
    cases t with
    | comma =>
      rw [follow_comma hne] at h
      exact nomatch h
    | rightParen =>
      rw [follow_rightParen hcalls, close_of_calls_eq_cons hcalls] at h
      exact nomatch h
    | _ =>
      unfold follow at h
      rw [hcalls] at h
      obtain rfl := Except.error.inj h
      exact .unexpected _ (.separator hphase hne)

/-- A step that fails is one of the two. -/
theorem refuses_of_step {fault : Fault} (h : d.step limit t = .error fault) :
    Refuses limit d t fault := by
  obtain ⟨body, calls, phase⟩ := d
  cases phase with
  | between => exact refuses_of_follow rfl h
  | argument => exact refuses_of_begin (.inl rfl) h
  | firstArgument =>
    cases t with
    | rightParen =>
      -- Only outside of all calls there is none to end
      cases calls with
      | nil =>
        obtain rfl := Except.error.inj h
        exact .unexpected _ (.expression (.inr (.inl rfl)))
      | cons c calls => exact nomatch h
    | _ => exact refuses_of_begin (.inr (.inl rfl)) h
  | opening name =>
    cases t with
    | leftParen => exact nomatch h
    | _ =>
      obtain rfl := Except.error.inj h
      exact .unexpected _ (.opening rfl)
  | path path =>
    -- A dot is taken in, any other token comes behind the settled path
    by_cases ht : t = .dot
    · subst ht
      exact nomatch h
    · have hphase : (settle ⟨body, calls, .path path⟩).phase = .between := phase_deliver _ _
      rw [step_of_settle_between hphase ht] at h
      exact refuses_of_follow hphase h
  | segment path =>
    cases t with
    | word name => exact nomatch h
    | _ =>
      obtain rfl := Except.error.inj h
      exact .unexpected _ (.segment rfl)

/-- A draft that cannot be concluded reports what it wants instead of the end. -/
private theorem wants_of_conclude {fault : Fault} (hphase : d.settle.phase = .between)
    (h : d.settle.conclude = .error fault) :
    ∃ wanted, d.Wants wanted ∧ fault = .malformed (.expected wanted none) := by
  unfold conclude at h
  split at h
  · exact nomatch h
  · rename_i c calls hcalls
    exact ⟨_, .separator hphase (by simp [hcalls]), (Except.error.inj h).symm⟩

/-- A draft that cannot be finished wants something, and the end stands there. -/
theorem wants_of_finish {fault : Fault} (h : d.finish = .error fault) :
    ∃ wanted, d.Wants wanted ∧ fault = .malformed (.expected wanted none) := by
  obtain ⟨body, calls, phase⟩ := d
  -- The end of the tokens is allowed between expressions and behind a path only
  cases phase with
  | between => exact wants_of_conclude rfl h
  | argument => exact ⟨_, .expression (.inl rfl), (Except.error.inj h).symm⟩
  | firstArgument => exact ⟨_, .expression (.inr (.inl rfl)), (Except.error.inj h).symm⟩
  | opening name => exact ⟨_, .opening rfl, (Except.error.inj h).symm⟩
  | path path => exact wants_of_conclude (phase_deliver _ _) h
  | segment path => exact ⟨_, .segment rfl, (Except.error.inj h).symm⟩

/-! ## Runs -/

/-- Behind a run that succeeds the next run goes on. -/
theorem run_append_of_ok {ts : List Token} (h : d.run limit ts = .ok d') (us : List Token) :
    d.run limit (ts ++ us) = d'.run limit us := by
  rw [run_append, h]
  rfl

/-- A run succeeds if its first step and the run behind it do. -/
theorem run_cons_eq_ok_iff {ts : List Token} :
    d.run limit (t :: ts) = .ok d' ↔
      ∃ next, Advance limit d t next ∧ next.run limit ts = .ok d' := by
  simp only [← step_eq_ok_iff]
  rw [run]
  cases d.step limit t with
  | error fault => simp
  | ok next => simp

end Reckoner.Draft
