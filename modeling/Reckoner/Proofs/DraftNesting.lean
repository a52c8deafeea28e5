import Reckoner.Proofs.DraftSteps
import Reckoner.Proofs.Spelling

/-!
# Nesting in a draft

Every step keeps the open calls, and the calls inside the expressions that were finished
within them, to the limit.

## Key results

- `Draft.Within.step`, `Draft.Within.run`: every step keeps to the limit
- `Draft.Within.finish`: the expressions of a finished draft keep to the limit
-/

namespace Reckoner

/-- A tree that may stand inside so many open calls: no program is in it, and its own calls
    do not go deeper than the limit. -/
def Expr.Fits (limit outer : Nat) (e : Expr) : Prop :=
  e.ProgramFree ∧ e.depth + outer ≤ limit

/-- A call fits one level further out than its arguments. -/
private theorem Expr.fits_call {limit outer : Nat} {name : String} {args : List Expr}
    (houter : outer < limit) (hargs : ∀ e ∈ args, e.Fits limit (outer + 1)) :
    (Expr.call name args).Fits limit outer := by
  refine ⟨.call fun e he => (hargs e he).1, ?_⟩
  have : (Expr.call name args).depth ≤ limit - outer := by
    refine depth_call_le_iff.mpr ⟨by omega, fun e he => ?_⟩
    have := (hargs e he).2
    omega
  omega

namespace Draft

variable {limit : Nat} {d d' : Draft} {t : Token}

/-- Open calls within the limit, each with arguments that fit into it. -/
def CallsWithin (limit : Nat) : List OpenCall → Prop
  | [] => True
  | c :: calls =>
    calls.length < limit ∧ (∀ e ∈ c.args, e.Fits limit (calls.length + 1)) ∧
      CallsWithin limit calls

/-- A draft whose calls, open or finished, are within the limit. -/
structure Within (limit : Nat) (d : Draft) : Prop where
  body : ∀ e ∈ d.body, e.Fits limit 0
  calls : CallsWithin limit d.calls
  opening : ∀ name, d.phase = .opening name → d.calls.length < limit

theorem within_start (limit : Nat) : start.Within limit where
  body := by simp [start]
  calls := trivial
  opening := by simp [start]

/-- No more calls are open than the limit allows. -/
theorem CallsWithin.length_le {calls : List OpenCall} (h : CallsWithin limit calls) :
    calls.length ≤ limit := by
  cases calls with
  | nil => exact Nat.zero_le limit
  | cons c calls => exact h.1

/-- Without calls inside, an expression fits wherever a draft stands. -/
private theorem Within.fits_of_depth_eq_zero (h : d.Within limit) {e : Expr} (hfree : e.ProgramFree)
    (hdepth : e.depth = 0) : e.Fits limit d.calls.length := by
  refine ⟨hfree, ?_⟩
  rw [hdepth, Nat.zero_add]
  exact h.calls.length_le

/-- Taking in an expression that fits keeps to the limit. -/
theorem Within.deliver (h : d.Within limit) {e : Expr} (he : e.Fits limit d.calls.length) :
    (d.deliver e).Within limit := by
  obtain ⟨body, calls, phase⟩ := d
  -- The expression goes to the body, or to the arguments of the innermost call
  cases calls with
  | nil =>
    exact {
      body := List.forall_mem_cons.mpr ⟨he, h.body⟩
      calls := trivial
      opening := nofun }
  | cons c calls =>
    obtain ⟨houter, hargs, hcalls⟩ := h.calls
    exact {
      body := h.body
      calls := ⟨houter, List.forall_mem_cons.mpr ⟨he, hargs⟩, hcalls⟩
      opening := nofun }

/-- Settling a path keeps to the limit. -/
theorem Within.settle (h : d.Within limit) : d.settle.Within limit := by
  unfold Draft.settle
  split
  · exact h.deliver (h.fits_of_depth_eq_zero (.path _) rfl)
  · exact h

/-- Ending the innermost open call keeps to the limit. -/
theorem Within.close (h : d.Within limit) {c : OpenCall} {calls : List OpenCall}
    (hcalls : d.calls = c :: calls) :
    (Draft.deliver ⟨d.body, calls, .between⟩ (.call c.name c.args.reverse)).Within limit := by
  have hwithin := h.calls
  rw [hcalls] at hwithin
  obtain ⟨houter, hargs, hrest⟩ := hwithin
  -- The finished call stands one level further out than its arguments did
  have hinner : Within limit ⟨d.body, calls, .between⟩ :=
    { body := h.body, calls := hrest, opening := nofun }
  refine hinner.deliver (Expr.fits_call houter fun e he => ?_)
  exact hargs e (List.mem_reverse.mp he)

/-- A step keeps to the limit: a name is refused where the open calls have reached it. -/
theorem Within.step (h : d.Within limit) (hstep : Advance limit d t d') : d'.Within limit := by
  cases hstep with
  | literal value hawaits =>
    exact h.settle.deliver (h.settle.fits_of_depth_eq_zero (.literal value) rfl)
  | word name hawaits =>
    exact { body := h.settle.body, calls := h.settle.calls, opening := nofun }
  | function name hawaits hlimit =>
    exact { body := h.settle.body, calls := h.settle.calls, opening := fun _ _ => hlimit }
  | comma hphase hcalls =>
    exact { body := h.settle.body, calls := h.settle.calls, opening := nofun }
  | close hphase hcalls => exact h.settle.close hcalls
  | leftParen hphase =>
    -- The name was held against the limit when it was read
    exact {
      body := h.body
      calls := ⟨h.opening _ hphase, by simp, h.calls⟩
      opening := nofun }
  | dot hphase => exact { body := h.body, calls := h.calls, opening := nofun }
  | segment name hphase => exact { body := h.body, calls := h.calls, opening := nofun }

/-- A run keeps to the limit. -/
theorem Within.run {ts : List Token} (h : d.Within limit) (hrun : d.run limit ts = .ok d') :
    d'.Within limit := by
  -- Each token keeps the draft within the limit, so all of them do
  induction ts generalizing d with
  | nil =>
    obtain rfl := Except.ok.inj hrun
    exact h
  | cons t ts ih =>
    obtain ⟨next, hstep, hrest⟩ := run_cons_eq_ok_iff.mp hrun
    exact ih (h.step hstep) hrest

/-- The expressions of a finished draft keep to the limit. -/
theorem Within.finish {body : List Expr} (h : d.Within limit) (hfinish : d.finish = .ok body) :
    ∀ e ∈ body, e.Fits limit 0 := by
  obtain ⟨-, -, rfl⟩ := finish_eq_ok_iff.mp hfinish
  exact fun e he => h.settle.body e (List.mem_reverse.mp he)

end Draft

end Reckoner
