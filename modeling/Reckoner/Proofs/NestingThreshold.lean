import Reckoner.Proofs.DraftSteps
import Reckoner.Proofs.Spelling

/-!
# What the nesting limit does

The limit of nesting only cuts.  Every list of tokens has a threshold: a smaller limit
refuses the tokens for their nesting, and all other limits make the same of them.  How far
a limit has to reach for what was read so far is `Draft.depth`, which no step lowers.

## Key results

- `CutAt.bind_ok`, `CutAt.bind_error`: thresholds of two stages make one of both
- `Draft.Advance.depth_eq`: only a function name can deepen a draft
- `Draft.exists_cutAt_run`: a run has a threshold, which is the depth that it reaches
- `Expr.exists_nesting_threshold`: the threshold of a list of tokens
-/

namespace Reckoner

/-! ## Outcomes that a limit cuts -/

/-- A value, or a fault of syntax. -/
def OkOrMalformed {α : Type} (result : Except Fault α) : Prop :=
  ∀ fault, result = .error fault → ∃ cause, fault = .malformed cause

private theorem okOrMalformed_ok {α : Type} (value : α) : OkOrMalformed (.ok value) := nofun

private theorem okOrMalformed_refuse {α : Type} (wanted : Expectation) (found : Option Token) :
    OkOrMalformed (Draft.refuse wanted found : Except Fault α) := by
  intro fault h
  cases h
  exact ⟨_, rfl⟩

/-- A limit cuts an outcome at a threshold: below it the nesting is refused, and from it on
    the limit makes no difference. -/
structure CutAt {α : Type} (outcome : Nat → Except Fault α) (threshold : Nat)
    (result : Except Fault α) : Prop where
  below : ∀ limit, limit < threshold → outcome limit = .error (.nestedTooDeep limit)
  above : ∀ limit, threshold ≤ limit → outcome limit = result
  okOrMalformed : OkOrMalformed result

namespace CutAt

variable {α β : Type} {outcome : Nat → Except Fault α} {next : Nat → α → Except Fault β}
  {m n : Nat}

/-- Where the limit is not looked at, nothing is cut. -/
theorem const {result : Except Fault α} (hresult : OkOrMalformed result) :
    CutAt (fun _ => result) 0 result where
  below := fun limit h => absurd h (Nat.not_lt_zero limit)
  above := fun _ _ => rfl
  okOrMalformed := hresult

/-- Behind a value the next stage is cut too, and the greater threshold counts. -/
theorem bind_ok {value : α} {result : Except Fault β} (h : CutAt outcome m (.ok value))
    (hnext : CutAt (fun limit => next limit value) n result) :
    CutAt (fun limit => (outcome limit).bind (next limit)) (max m n) result where
  below := by
    intro limit hlimit
    show (outcome limit).bind (next limit) = _
    -- Below the greater threshold one of the two stages refuses, the first if it can
    by_cases hm : limit < m
    · rw [h.below limit hm]
      rfl
    · rw [h.above limit (by omega)]
      exact hnext.below limit (by omega)
  above := by
    intro limit hlimit
    show (outcome limit).bind (next limit) = _
    rw [h.above limit (by omega)]
    exact hnext.above limit (by omega)
  okOrMalformed := hnext.okOrMalformed

/-- Behind a fault there is no next stage. -/
theorem bind_error {fault : Fault} (h : CutAt outcome m (.error fault)) :
    CutAt (fun limit => (outcome limit).bind (next limit)) m (.error fault) where
  -- A fault goes through unchanged on both sides of the threshold
  below := by
    intro limit hlimit
    show (outcome limit).bind (next limit) = _
    rw [h.below limit hlimit]
    rfl
  above := by
    intro limit hlimit
    show (outcome limit).bind (next limit) = _
    rw [h.above limit hlimit]
    rfl
  okOrMalformed := by
    rintro fault' ⟨⟩
    exact h.okOrMalformed fault rfl

end CutAt

/-! ## The depth of a draft -/

/-- The order of expressions is of no concern to their depth. -/
private theorem Expr.maxDepth_reverse (es : List Expr) : maxDepth es.reverse = maxDepth es := by
  apply Nat.le_antisymm
  · exact maxDepth_le_iff.mpr fun e he =>
      maxDepth_le_iff.mp (Nat.le_refl _) e (List.mem_reverse.mp he)
  · exact maxDepth_le_iff.mpr fun e he =>
      maxDepth_le_iff.mp (Nat.le_refl _) e (List.mem_reverse.mpr he)

namespace Draft

variable {limit : Nat} {d d' : Draft} {t : Token}

/-- How deeply calls are nested in open calls, their arguments included. -/
def callsDepth : List OpenCall → Nat
  | [] => 0
  | c :: calls => max (Expr.maxDepth c.args + (calls.length + 1)) (callsDepth calls)

/-- The number of calls that are about to be opened. -/
def Phase.opens : Phase → Nat
  | .opening _ => 1
  | _ => 0

/-- How deeply calls are nested in what was read so far. -/
def depth (d : Draft) : Nat :=
  max (Expr.maxDepth d.body) (max (callsDepth d.calls) (d.calls.length + d.phase.opens))

@[simp] theorem depth_start : start.depth = 0 := rfl

/-- Open calls are inside each other. -/
private theorem length_le_callsDepth (calls : List OpenCall) : calls.length ≤ callsDepth calls := by
  cases calls with
  | nil => exact Nat.le_refl 0
  | cons c calls =>
    simp only [callsDepth, List.length_cons]
    omega

/-- Unless a call is about to be opened, the phase does not count. -/
private theorem depth_of_opens_eq_zero (h : d.phase.opens = 0) :
    d.depth = max (Expr.maxDepth d.body) (callsDepth d.calls) := by
  have := length_le_callsDepth d.calls
  rw [depth, h]
  omega

/-- A finished expression counts from the level where it stands. -/
theorem depth_deliver (d : Draft) (e : Expr) :
    (d.deliver e).depth =
      max (max (Expr.maxDepth d.body) (callsDepth d.calls)) (e.depth + d.calls.length) := by
  rw [depth_of_opens_eq_zero (by rw [phase_deliver]; rfl)]
  obtain ⟨body, calls, phase⟩ := d
  -- The expression is side by side with the body, or inside of the innermost call
  cases calls with
  | nil =>
    simp only [deliver, Expr.maxDepth, callsDepth, List.length_nil]
    omega
  | cons c calls =>
    simp only [deliver, Expr.maxDepth, callsDepth, List.length_cons]
    omega

/-- An expression without calls leaves the depth as it is. -/
private theorem depth_deliver_of_depth_eq_zero (h : d.phase.opens = 0) {e : Expr}
    (he : e.depth = 0) :
    (d.deliver e).depth = d.depth := by
  have := length_le_callsDepth d.calls
  rw [depth_deliver, depth_of_opens_eq_zero h, he]
  omega

/-- Ending a path leaves the depth as it is. -/
@[simp] theorem depth_settle (d : Draft) : d.settle.depth = d.depth := by
  unfold settle
  split
  · rename_i path hphase
    exact depth_deliver_of_depth_eq_zero (by rw [hphase]; rfl) rfl
  · rfl

/-- A call that ends keeps the depth that it had while it was open. -/
theorem depth_close (body : List Expr) (c : OpenCall) (calls : List OpenCall) :
    (deliver ⟨body, calls, .between⟩ (.call c.name c.args.reverse)).depth =
      max (Expr.maxDepth body) (callsDepth (c :: calls)) := by
  rw [depth_deliver]
  simp only [Expr.depth, Expr.maxDepth_reverse, callsDepth]
  omega

/-! ## How a step deepens a draft -/

/-- No call is about to be opened where an expression may start. -/
private theorem Awaits.opens_settle (h : d.Awaits) : d.settle.phase.opens = 0 := by
  obtain ⟨body, calls, phase⟩ := d
  rcases h with hphase | hphase | ⟨hphase, -⟩
  · obtain rfl : phase = .argument := hphase
    rfl
  · obtain rfl : phase = .firstArgument := hphase
    rfl
  · rw [hphase]
    rfl

/-- How far the limit has to reach for a token that may come next. -/
def demand (d : Draft) : Token → Nat
  | .function _ => d.settle.calls.length + 1
  | _ => 0

/-- Only a function name deepens a draft, to one more than the calls that are open. -/
theorem Advance.depth_eq (h : Advance limit d t d') : d'.depth = max d.depth (d.demand t) := by
  have hsettle := d.depth_settle
  cases h with
  | literal value hawaits =>
    rw [depth_deliver_of_depth_eq_zero hawaits.opens_settle rfl, hsettle]
    exact (Nat.max_zero _).symm
  | word name hawaits =>
    rw [depth_of_opens_eq_zero hawaits.opens_settle] at hsettle
    rw [depth_of_opens_eq_zero rfl, hsettle]
    exact (Nat.max_zero _).symm
  | function name hawaits hlimit =>
    -- The name is counted before its parenthesis, when the limit is looked at
    rw [depth_of_opens_eq_zero hawaits.opens_settle] at hsettle
    simp only [depth, Phase.opens, demand] at hsettle ⊢
    omega
  | comma hphase hcalls =>
    rw [depth_of_opens_eq_zero (by rw [hphase]; rfl)] at hsettle
    rw [depth_of_opens_eq_zero rfl, hsettle]
    exact (Nat.max_zero _).symm
  | @close c calls hphase hcalls =>
    have hopens : d.settle.phase.opens = 0 := by
      rcases hphase with hphase | hphase
      · rw [hphase]
        rfl
      · exact Awaits.opens_settle (.inr (.inl hphase))
    rw [depth_of_opens_eq_zero hopens, hcalls] at hsettle
    rw [depth_close, hsettle]
    exact (Nat.max_zero _).symm
  | leftParen hphase =>
    -- The call was counted when its name was read
    simp only [depth, hphase, Phase.opens, callsDepth, Expr.maxDepth, List.length_cons, demand]
    omega
  | dot hphase => simp only [depth, hphase, Phase.opens, demand, Nat.max_zero]
  | segment name hphase => simp only [depth, hphase, Phase.opens, demand, Nat.max_zero]

/-! ## Steps that do not look at the limit -/

private theorem okOrMalformed_close (d : Draft) : OkOrMalformed d.close := by
  unfold close
  split
  · exact okOrMalformed_refuse _ _
  · exact okOrMalformed_ok _

private theorem okOrMalformed_conclude (d : Draft) : OkOrMalformed d.conclude := by
  unfold conclude
  split
  · exact okOrMalformed_ok _
  · exact okOrMalformed_refuse _ _

private theorem okOrMalformed_finish (d : Draft) : OkOrMalformed d.finish := by
  unfold finish
  split
  · exact okOrMalformed_conclude _
  · exact okOrMalformed_refuse _ _
  · exact okOrMalformed_refuse _ _
  · exact okOrMalformed_refuse _ _
  · exact okOrMalformed_conclude _
  · exact okOrMalformed_refuse _ _

/-- Of all tokens that start an expression only a function name is held against the
    limit. -/
private theorem exists_cutAt_begin (d : Draft) (ht : t.kind ≠ .function) :
    ∃ result, CutAt (fun limit => d.begin limit t) 0 result := by
  cases t with
  | function name => exact absurd rfl ht
  | number value => exact ⟨_, .const (okOrMalformed_ok _)⟩
  | word name => exact ⟨_, .const (okOrMalformed_ok _)⟩
  | _ => exact ⟨_, .const (okOrMalformed_refuse _ _)⟩

/-- Within a call no expression starts behind another. -/
private theorem exists_cutAt_follow (d : Draft) (ht : t.kind ≠ .function ∨ d.calls ≠ []) :
    ∃ result, CutAt (fun limit => d.follow limit t) 0 result := by
  obtain ⟨body, calls, phase⟩ := d
  -- Outside of calls an expression starts, inside a separator is due
  cases calls with
  | nil => exact exists_cutAt_begin _ (ht.resolve_right fun h => h rfl)
  | cons c calls =>
    cases t with
    | comma => exact ⟨_, .const (okOrMalformed_ok _)⟩
    | rightParen => exact ⟨_, .const (okOrMalformed_close ⟨body, c :: calls, phase⟩)⟩
    | _ => exact ⟨_, .const (okOrMalformed_refuse _ _)⟩

/-- Only a function name that may start an expression is held against the limit. -/
private theorem exists_cutAt_step_of_not (h : t.kind ≠ .function ∨ ¬ d.Awaits) :
    ∃ result, CutAt (fun limit => d.step limit t) 0 result := by
  obtain ⟨body, calls, phase⟩ := d
  -- Behind a finished expression a call has to be open, else another may start
  have hcalls : ∀ d : Draft, d.settle.phase = .between → (t.kind ≠ .function ∨ ¬ d.Awaits) →
      t.kind ≠ .function ∨ d.settle.calls ≠ [] := fun d hphase h =>
    h.imp_right fun hawaits hcalls => hawaits (.inr (.inr ⟨hphase, hcalls⟩))
  cases phase with
  | between => exact exists_cutAt_follow _ (hcalls _ rfl h)
  | argument => exact exists_cutAt_begin _ (h.resolve_right fun h => h (.inl rfl))
  | firstArgument =>
    have ht := h.resolve_right fun h => h (.inr (.inl rfl))
    cases t with
    | rightParen => exact ⟨_, .const (okOrMalformed_close _)⟩
    | _ => exact exists_cutAt_begin ⟨body, calls, .firstArgument⟩ ht
  | opening name =>
    cases t with
    | leftParen => exact ⟨_, .const (okOrMalformed_ok _)⟩
    | _ => exact ⟨_, .const (okOrMalformed_refuse _ _)⟩
  | path path =>
    by_cases ht : t = .dot
    · subst ht
      exact ⟨_, .const (okOrMalformed_ok _)⟩
    · have hphase : (settle ⟨body, calls, .path path⟩).phase = .between := phase_deliver _ _
      simp only [step_of_settle_between hphase ht]
      exact exists_cutAt_follow _ (hcalls _ hphase h)
  | segment path =>
    cases t with
    | word name => exact ⟨_, .const (okOrMalformed_ok _)⟩
    | _ => exact ⟨_, .const (okOrMalformed_refuse _ _)⟩

/-! ## Thresholds of steps and runs -/

/-- A draft deepens to a threshold: what comes out is as deep as the threshold says, and no
    token but a function name raises the threshold above the depth that was there. -/
structure DeepensTo (d : Draft) (names threshold : Nat) (result : Except Fault Draft) : Prop where
  le_depth_add : threshold ≤ d.depth + names
  depth_eq : ∀ d', result = .ok d' → d'.depth = max d.depth threshold

/-- A step has a threshold. -/
theorem exists_cutAt_step (d : Draft) (t : Token) :
    ∃ threshold result, CutAt (fun limit => d.step limit t) threshold result ∧
      d.DeepensTo ([t].countP (·.kind = .function)) threshold result := by
  by_cases h : t.kind = .function ∧ d.Awaits
  · obtain ⟨ht, hawaits⟩ := h
    cases t with
    | function name =>
      -- The name is refused exactly where the open calls have reached the limit
      have hstep : ∀ limit, d.step limit (.function name) =
          if limit ≤ d.settle.calls.length then .error (.nestedTooDeep limit)
          else .ok ⟨d.settle.body, d.settle.calls, .opening name⟩ := fun limit =>
        step_of_awaits hawaits (by simp) (by simp)
      refine ⟨d.settle.calls.length + 1, .ok ⟨d.settle.body, d.settle.calls, .opening name⟩,
        ⟨?_, ?_, okOrMalformed_ok _⟩, ?_, ?_⟩
      · intro limit hlimit
        exact (hstep limit).trans (if_pos (by omega))
      · intro limit hlimit
        exact (hstep limit).trans (if_neg (by omega))
      · have := length_le_callsDepth d.settle.calls
        have hsettle := d.depth_settle
        rw [depth_of_opens_eq_zero hawaits.opens_settle] at hsettle
        simp only [List.countP_singleton, Token.kind, decide_true, if_true]
        omega
      · rintro d' ⟨⟩
        exact (Advance.function name hawaits (Nat.lt_succ_self _)).depth_eq
    | _ => exact nomatch ht
  · obtain ⟨result, hcut⟩ := exists_cutAt_step_of_not (Decidable.not_and_iff_not_or_not.mp h)
    refine ⟨0, result, hcut, Nat.zero_le _, ?_⟩
    rintro d' rfl
    have hadvance : Advance 0 d t d' := step_eq_ok_iff.mp (hcut.above 0 (Nat.le_refl 0))
    -- With a limit of zero no function name gets through
    cases t with
    | function name =>
      cases hadvance with
      | function _ _ hlimit => exact absurd hlimit (Nat.not_lt_zero _)
    | _ => exact hadvance.depth_eq

private theorem run_cons (limit : Nat) (d : Draft) (t : Token) (ts : List Token) :
    d.run limit (t :: ts) = (d.step limit t).bind fun next => next.run limit ts := by
  rw [run]
  cases d.step limit t with
  | error fault => rfl
  | ok next => rfl

/-- A run has a threshold. -/
theorem exists_cutAt_run (d : Draft) (ts : List Token) :
    ∃ threshold result, CutAt (fun limit => d.run limit ts) threshold result ∧
      d.DeepensTo (ts.countP (·.kind = .function)) threshold result := by
  induction ts generalizing d with
  | nil =>
    refine ⟨0, .ok d, .const (okOrMalformed_ok d), Nat.zero_le _, ?_⟩
    rintro d' ⟨⟩
    rw [Nat.max_zero]
  | cons t ts ih =>
    obtain ⟨m, result, hstep, hle, hdepth⟩ := exists_cutAt_step d t
    simp only [run_cons]
    have hcount : (t :: ts).countP (·.kind = .function) =
        [t].countP (·.kind = .function) + ts.countP (·.kind = .function) := by
      rw [← List.countP_append, List.singleton_append]
    cases result with
    | error fault => exact ⟨m, .error fault, hstep.bind_error, by omega, nofun⟩
    | ok next =>
      -- What the first step reaches is where the others start
      obtain ⟨n, result, hrun, hle', hdepth'⟩ := ih next
      have hnext : next.depth = max d.depth m := hdepth next rfl
      refine ⟨max m n, result, hstep.bind_ok hrun, by omega, fun d' hd' => ?_⟩
      have := hdepth' d' hd'
      omega

/-- Behind all tokens nothing is left open, and the depth is that of the expressions. -/
private theorem maxDepth_of_finish {body : List Expr} (h : d.finish = .ok body) :
    Expr.maxDepth body = d.depth := by
  obtain ⟨hphase, hcalls, rfl⟩ := finish_eq_ok_iff.mp h
  rw [← depth_settle, depth_of_opens_eq_zero (by rw [hphase]; rfl), hcalls, Expr.maxDepth_reverse,
    callsDepth, Nat.max_zero]

end Draft

/-! ## The threshold of a list of tokens -/

namespace Expr

/-- Tokens are read by a run, and then the draft is finished. -/
theorem listOfTokens_eq_bind (limit : Nat) (ts : List Token) :
    listOfTokens limit ts = (Draft.start.run limit ts).bind Draft.finish := by
  rw [listOfTokens]
  cases Draft.start.run limit ts with
  | error fault => rfl
  | ok d => rfl

/-- Reading tokens has a threshold, which is the depth of what is read. -/
theorem exists_cutAt_listOfTokens (ts : List Token) :
    ∃ threshold result, CutAt (fun limit => listOfTokens limit ts) threshold result ∧
      threshold ≤ ts.countP (·.kind = .function) ∧
      ∀ body, result = .ok body → threshold = maxDepth body := by
  obtain ⟨m, result, hrun, hle, hdepth⟩ := Draft.start.exists_cutAt_run ts
  simp only [Draft.depth_start, Nat.zero_add, Nat.zero_max] at hle hdepth
  simp only [listOfTokens_eq_bind]
  -- Finishing the draft does not look at the limit, so only the run is cut
  cases result with
  | error fault => exact ⟨m, .error fault, hrun.bind_error, hle, nofun⟩
  | ok d =>
    have hfinish : CutAt (fun _ => d.finish) 0 d.finish := .const d.okOrMalformed_finish
    refine ⟨max m 0, d.finish, hrun.bind_ok hfinish, by omega, fun body hbody => ?_⟩
    rw [Draft.maxDepth_of_finish hbody, hdepth d rfl, Nat.max_zero]

/-- Every list of tokens has a threshold, at most the number of function names in it.
    Below the threshold the tokens are refused for their nesting; from it on all limits
    have the same result, a program or a fault of syntax.  The threshold of a program is
    the depth to which its calls are nested, for which expressions side by side count one
    by one.  So a greater limit changes nothing but a refusal. -/
theorem exists_nesting_threshold (ts : List Token) :
    ∃ (threshold : Nat) (result : Except Fault Expr),
      threshold ≤ ts.countP (·.kind = .function) ∧
      ((∃ body, result = .ok (.program body)) ∨ ∃ cause, result = .error (.malformed cause)) ∧
      (∀ limit, limit < threshold → ofTokens limit ts = .error (.nestedTooDeep limit)) ∧
      (∀ limit, threshold ≤ limit → ofTokens limit ts = result) ∧
      (∀ e, result = .ok e → threshold = e.depth) ∧
      (∀ body, result = .ok (.program body) →
        ∀ limit, threshold ≤ limit ↔ ∀ e ∈ body, e.depth ≤ limit) ∧
      ∀ limit limit', limit ≤ limit' → ofTokens limit ts ≠ .error (.nestedTooDeep limit) →
        ofTokens limit' ts = ofTokens limit ts := by
  obtain ⟨threshold, result, hcut, hle, hdepth⟩ := exists_cutAt_listOfTokens ts
  have hbelow : ∀ limit, limit < threshold →
      ofTokens limit ts = .error (.nestedTooDeep limit) := by
    intro limit hlimit
    rw [ofTokens, hcut.below limit hlimit]
    rfl
  have habove : ∀ limit, threshold ≤ limit → ofTokens limit ts = result.map program := by
    intro limit hlimit
    rw [ofTokens, hcut.above limit hlimit]
  -- What is above the threshold has one result, so all parts are facts about that
  refine ⟨threshold, result.map program, hle, ?_, hbelow, habove, ?_, ?_, ?_⟩
  · cases result with
    | error fault =>
      obtain ⟨cause, rfl⟩ := hcut.okOrMalformed fault rfl
      exact .inr ⟨cause, rfl⟩
    | ok body => exact .inl ⟨body, rfl⟩
  · intro e he
    cases result with
    | error fault => exact nomatch he
    | ok body =>
      obtain rfl := Except.ok.inj he
      exact hdepth body rfl
  · intro body hbody limit
    cases result with
    | error fault => exact nomatch hbody
    | ok body' =>
      obtain rfl : body' = body := by simpa [Except.map] using hbody
      rw [hdepth body' rfl]
      exact maxDepth_le_iff
  · intro limit limit' hlimit hne
    -- A limit that does not refuse is not below the threshold
    have hreach : threshold ≤ limit := by
      by_cases hlt : limit < threshold
      · exact absurd (hbelow limit hlt) hne
      · omega
    rw [habove limit hreach, habove limit' (by omega)]

/-- Two calls side by side inside a third need a limit of two, not of three. -/
theorem exists_nesting_threshold_siblings :
    let ts := [.function "f", .leftParen, .function "g", .leftParen, .rightParen, .comma,
      .function "h", .leftParen, .rightParen, .rightParen]
    ofTokens 1 ts = .error (.nestedTooDeep 1) ∧
      ofTokens 2 ts = .ok (program [call "f" [call "g" [], call "h" []]]) := by
  intro ts
  obtain ⟨threshold, result, hle, -, hbelow, habove, hdepth, -⟩ := exists_nesting_threshold ts
  have hthree : threshold ≤ 3 := hle
  have hresult : result = .ok (program [call "f" [call "g" [], call "h" []]]) :=
    (habove 3 hthree).symm
  -- The depth of the tree counts calls in each other, and the siblings are not
  have htwo : threshold = 2 := hdepth _ hresult
  exact ⟨hbelow 1 (by omega), (habove 2 (by omega)).trans hresult⟩

end Expr

end Reckoner
