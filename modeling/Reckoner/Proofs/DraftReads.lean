import Reckoner.Proofs.DraftSteps
import Reckoner.Proofs.Spelling

/-!
# What a draft has read

A draft stands for the tokens that it has taken in.  `Draft.Reads` says which tokens
these are, and every step adds one token to them, so nothing of a formula is lost,
changed or added while a program is read.

## Key results

- `Draft.Reads.step`, `Draft.Reads.run`: taking in tokens
- `Draft.Reads.finish`: the tokens of a finished draft spell its expressions
-/

namespace Reckoner

/-- The tokens of an open call up to where its next argument starts. -/
def OpenCall.spelling (c : OpenCall) : List Token :=
  .function c.name :: .leftParen :: c.args.reverse.flatMap fun e => e.spelling ++ [.comma]

/-- The parenthesis that ends a call takes the place of the comma behind its last
    argument. -/
private theorem OpenCall.spelling_of_args_ne_nil {c : OpenCall} (hargs : c.args ≠ []) :
    ∃ init, c.spelling = init ++ [.comma] ∧
      (Expr.call c.name c.args.reverse).spelling = init ++ [.rightParen] := by
  have hne : c.args.reverse.map Expr.spelling ≠ [] := by simpa using hargs
  -- A comma behind each argument makes commas between them and one at the end
  refine ⟨.function c.name :: .leftParen ::
    [Token.comma].intercalate (c.args.reverse.map Expr.spelling), ?_, ?_⟩
  · rw [List.cons_append, List.cons_append, ← flatMap_append_eq_intercalate hne,
      List.flatMap_map, spelling]
  · rw [Expr.spelling, Expr.spellings_eq_map, List.cons_append, List.cons_append]

namespace Draft

variable {limit : Nat} {d d' : Draft} {ts us : List Token} {t : Token}

/-! ## The tokens of a draft -/

/-- The tokens of a draft up to where its next expression starts. -/
def before (d : Draft) : List Token :=
  d.body.reverse.flatMap Expr.spelling ++ d.calls.reverse.flatMap OpenCall.spelling

/-- These tokens were taken in to reach the draft.  Behind an argument no comma was read
    yet. -/
def Reads (d : Draft) (ts : List Token) : Prop :=
  match d.phase with
  | .between =>
    match d.calls with
    | [] => ts = d.before
    | c :: _ => c.args ≠ [] ∧ ts ++ [.comma] = d.before
  | .argument => ts = d.before
  | .firstArgument => ts = d.before ∧ ∀ c ∈ d.calls.head?, c.args = []
  | .opening name => ts = d.before ++ [.function name]
  | .path path => ts = d.before ++ Path.spelling path
  | .segment path => ts = d.before ++ Path.spelling path ++ [.dot]

theorem reads_start : start.Reads [] := rfl

/-- The innermost open call is the last of what stands before the next expression. -/
private theorem before_cons (body : List Expr) (c : OpenCall) (calls : List OpenCall)
    (phase : Phase) :
    before ⟨body, c :: calls, phase⟩ = before ⟨body, calls, .between⟩ ++ c.spelling := by
  simp [before]

/-- A finished expression adds the tokens that spell it. -/
theorem reads_deliver (d : Draft) (e : Expr) : (d.deliver e).Reads (d.before ++ e.spelling) := by
  obtain ⟨body, calls, phase⟩ := d
  cases calls with
  | nil => simp [deliver, Reads, before]
  | cons c calls => simp [deliver, Reads, before, OpenCall.spelling]

/-- Settling a path takes in no token. -/
theorem Reads.settle (hreads : d.Reads ts) (hphase : d.settle.phase = .between) :
    d.settle.Reads ts := by
  obtain ⟨body, calls, phase⟩ := d
  -- A path comes to its end, and everywhere else nothing is settled
  cases phase with
  | between => exact hreads
  | path path =>
    obtain rfl : ts = _ := hreads
    exact reads_deliver ⟨body, calls, .path path⟩ (.path path)
  | _ => exact nomatch hphase

/-- Where an expression may start, all tokens stand before it. -/
private theorem Reads.eq_before (hreads : d.Reads ts) (hawaits : d.Awaits) :
    ts = d.settle.before := by
  -- In the first two phases there is no path to settle
  rcases hawaits with hphase | hphase | ⟨hphase, hcalls⟩
  · obtain ⟨body, calls, phase⟩ := d
    obtain rfl : phase = .argument := hphase
    exact hreads
  · obtain ⟨body, calls, phase⟩ := d
    obtain rfl : phase = .firstArgument := hphase
    exact hreads.1
  · have hsettled := hreads.settle hphase
    unfold Reads at hsettled
    rw [hphase, hcalls] at hsettled
    exact hsettled

/-- Behind an argument, all tokens and a comma stand before the next one. -/
theorem Reads.append_comma (hreads : d.Reads ts) (hphase : d.phase = .between) {c : OpenCall}
    {calls : List OpenCall} (hcalls : d.calls = c :: calls) :
    c.args ≠ [] ∧ ts ++ [.comma] = d.before := by
  unfold Reads at hreads
  rw [hphase, hcalls] at hreads
  exact hreads

/-- A parenthesis behind the last argument ends the tokens that spell the call. -/
theorem Reads.append_rightParen (hreads : d.Reads ts) (hphase : d.phase = .between)
    {c : OpenCall} {calls : List OpenCall} (hcalls : d.calls = c :: calls) :
    ts ++ [.rightParen] =
      before ⟨d.body, calls, .between⟩ ++ (Expr.call c.name c.args.reverse).spelling := by
  obtain ⟨hargs, hts⟩ := hreads.append_comma hphase hcalls
  obtain ⟨init, hopen, hcall⟩ := OpenCall.spelling_of_args_ne_nil hargs
  obtain ⟨body, calls', phase⟩ := d
  obtain rfl : calls' = _ := hcalls
  -- The comma that is not there yet stands where the parenthesis closes the call
  have hinit : ts ++ [.comma] = before ⟨body, calls, .between⟩ ++ init ++ [.comma] := by
    rw [hts, before_cons, hopen, List.append_assoc]
  rw [List.append_cancel_right hinit, hcall, List.append_assoc]

/-! ## Taking in tokens -/

/-- A step takes in its token and nothing else. -/
theorem Reads.step (hreads : d.Reads ts) (hword : ∀ name, t = .word name → '.' ∉ name.toList)
    (h : Advance limit d t d') : d'.Reads (ts ++ [t]) := by
  cases h with
  | literal value hawaits =>
    rw [hreads.eq_before hawaits]
    exact reads_deliver d.settle (.literal value)
  | word name hawaits =>
    rw [hreads.eq_before hawaits, ← Path.spelling_of_not_mem (hword name rfl)]
    rfl
  | function name hawaits hlimit =>
    rw [hreads.eq_before hawaits]
    rfl
  | comma hphase hcalls =>
    -- The comma is the one that stands behind each argument of an open call
    obtain ⟨c, calls, hcalls⟩ := List.exists_cons_of_ne_nil hcalls
    exact ((hreads.settle hphase).append_comma hphase hcalls).2
  | @close c calls hphase hcalls =>
    rcases hphase with hphase | hphase
    · rw [(hreads.settle hphase).append_rightParen hphase hcalls]
      exact reads_deliver _ _
    · -- Without arguments there is no comma whose place the parenthesis takes
      obtain ⟨body, calls', phase⟩ := d
      obtain rfl : phase = .firstArgument := hphase
      obtain rfl : calls' = c :: calls := hcalls
      obtain ⟨rfl, hargs⟩ := hreads
      have hnil : c.args = [] := hargs c rfl
      have hcall : c.spelling ++ [.rightParen] = (Expr.call c.name c.args.reverse).spelling := by
        simp [OpenCall.spelling, hnil, Expr.spelling, Expr.spellings]
      rw [before_cons, List.append_assoc, hcall]
      exact reads_deliver _ _
  | @leftParen name hphase =>
    obtain ⟨body, calls, phase⟩ := d
    obtain rfl : phase = .opening name := hphase
    obtain rfl : ts = _ := hreads
    simp [Reads, before, OpenCall.spelling]
  | @dot path hphase =>
    obtain ⟨body, calls, phase⟩ := d
    obtain rfl : phase = .path path := hphase
    obtain rfl : ts = _ := hreads
    rfl
  | @segment path name hphase =>
    obtain ⟨body, calls, phase⟩ := d
    obtain rfl : phase = .segment path := hphase
    obtain rfl : ts = _ := hreads
    simp [Reads, Path.spelling_append_dot path (hword name rfl), before]

/-- A run takes in its tokens and nothing else. -/
theorem Reads.run (hreads : d.Reads ts) (hwords : ∀ name, .word name ∈ us → '.' ∉ name.toList)
    (h : d.run limit us = .ok d') : d'.Reads (ts ++ us) := by
  -- The tokens read so far grow with the draft
  induction us generalizing d ts with
  | nil =>
    obtain rfl := Except.ok.inj h
    rwa [List.append_nil]
  | cons u us ih =>
    obtain ⟨next, hstep, hrest⟩ := run_cons_eq_ok_iff.mp h
    have hnext : next.Reads (ts ++ [u]) :=
      hreads.step (fun name hu => hwords name (hu ▸ List.mem_cons_self)) hstep
    have := ih hnext (fun name hname => hwords name (List.mem_cons_of_mem _ hname)) hrest
    rwa [List.append_assoc] at this

/-- Nothing is left open at the end: the tokens of a finished draft spell its
    expressions. -/
theorem Reads.finish {body : List Expr} (hreads : d.Reads ts) (h : d.finish = .ok body) :
    ts = body.flatMap Expr.spelling := by
  obtain ⟨hphase, hcalls, rfl⟩ := finish_eq_ok_iff.mp h
  have hsettled := hreads.settle hphase
  unfold Reads at hsettled
  rw [hphase, hcalls] at hsettled
  rw [hsettled, before, hcalls, List.reverse_nil, List.flatMap_nil, List.append_nil]

end Draft

end Reckoner
