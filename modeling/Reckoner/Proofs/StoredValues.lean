import Reckoner.Proofs.CollectedPairs
import Reckoner.Proofs.PathWalk
import Reckoner.Proofs.Substitution
import Reckoner.Session

/-!
# Values that a session stores

A session stores the values of formulas under names, one after the other.  A name then has the
value that was stored under it last, and a formula that asks for nothing under these names has
the outcome that it had before.

## Key results

- `Session.store_eq_ok_iff`: what a session becomes by storing a value
- `Session.Stores.numberAt_name`: a name leads to what was stored under it last
- `Session.Stores.remembers`: what a session gives after it has stored values
-/

namespace Reckoner

namespace Session

/-! ## One step -/

variable {s t : Session} {name formula : String} {x : Float}

/-- A value is stored if the formula has it; the limit stays and only the data change. -/
theorem store_eq_ok_iff :
    s.store name formula = .ok (x, t) ↔
      s.evaluate formula = .ok x ∧ t = s.withData (s.data.put name x) := by
  rw [store]
  -- A fault stores nothing
  cases s.evaluate formula with
  | error fault => simp
  | ok value =>
    simp only [Except.ok.injEq, Prod.mk.injEq]
    constructor
    · rintro ⟨rfl, rfl⟩
      exact ⟨rfl, rfl⟩
    · rintro ⟨rfl, rfl⟩
      exact ⟨rfl, rfl⟩

/-! ## Any number of steps -/

/-- A session becomes another by storing values of formulas.  The pairs are the names with the
    values, in the order in which these are stored. -/
inductive Stores (s : Session) : List (String × Float) → Session → Prop where
  | none : Stores s [] s
  | next {stored : List (String × Float)} {t u : Session} {name formula : String} {x : Float}
    (h : Stores s stored t) (hstore : t.store name formula = .ok (x, u)) :
    Stores s (stored ++ [(name, x)]) u

namespace Stores

variable {stored : List (String × Float)}

/-- Storing leaves the limit as it is. -/
theorem limit_eq (h : Stores s stored t) : t.limit = s.limit := by
  induction h with
  | none => rfl
  | next _ hstore ih =>
    obtain ⟨-, rfl⟩ := store_eq_ok_iff.mp hstore
    exact ih

/-- Data with children still have children. -/
private theorem exists_children (h : Stores s stored t) {entries : List (String × Data)}
    (hdata : s.data = .children entries) : ∃ entries', t.data = .children entries' := by
  induction h with
  | none => exact ⟨entries, hdata⟩
  | next _ hstore ih =>
    obtain ⟨-, rfl⟩ := store_eq_ok_iff.mp hstore
    obtain ⟨entries', hentries⟩ := ih
    rw [withData, hentries]
    exact ⟨_, rfl⟩

/-- A path that starts with none of the names is answered as before. -/
theorem numberAt_of_ne (h : Stores s stored t) {path : String}
    (hpath : ∀ pair ∈ stored, (Path.segments path).head? ≠ some pair.1) :
    t.data.numberAt path = s.data.numberAt path := by
  -- Along the stored values, none of which is on the way of the path
  induction h with
  | none => rfl
  | next _ hstore ih =>
    obtain ⟨-, rfl⟩ := store_eq_ok_iff.mp hstore
    obtain ⟨hbefore, hlast⟩ := List.forall_mem_append.mp hpath
    have hhead := hlast _ (List.mem_singleton_self _)
    exact (Data.numberAt_put_of_ne _ hhead _).trans (ih hbefore)

/-- A name leads to what was stored under it last. -/
theorem numberAt_name (h : Stores s stored t) {entries : List (String × Data)}
    (hdata : s.data = .children entries) (hname : '.' ∉ name.toList)
    (hlast : Data.lastValue? name stored = some x) : t.data.numberAt name = .ok x := by
  induction h with
  | none => cases hlast
  | @next stored t u other formula y h hstore ih =>
    obtain ⟨-, rfl⟩ := store_eq_ok_iff.mp hstore
    rw [Data.lastValue?_concat] at hlast
    by_cases hother : other = name
    · obtain rfl : y = x := Option.some.inj ((if_pos hother).symm.trans hlast)
      obtain ⟨entries', hentries⟩ := h.exists_children hdata
      rw [withData, hentries, hother]
      exact Data.numberAt_put_self entries' hname y
    · -- The last step was under another name, so an earlier one counts
      have hhead : (Path.segments name).head? ≠ some other := by
        rw [Path.segments_of_not_mem hname]
        exact fun heq => hother (Option.some.inj heq).symm
      exact (Data.numberAt_put_of_ne _ hhead y).trans (ih ((if_neg hother).symm.trans hlast))

/-- A session whose data have children stores values.  Its limit stays; a name that a formula
    can spell has the value that was stored under it last; and a formula that asked for no path
    that starts with one of the names comes to the same as before, value or fault. -/
theorem remembers (h : Stores s stored t) {entries : List (String × Data)}
    (hdata : s.data = .children entries) :
    t.limit = s.limit ∧
      (∀ name x, Token.IsName name → Data.lastValue? name stored = some x →
        t.evaluate name = .ok x) ∧
      ∀ formula, (∀ path ∈ (Formula.evaluate s.limit s.data.numberAt formula).askedPaths,
          ∀ pair ∈ stored, (Path.segments path).head? ≠ some pair.1) →
        t.evaluate formula = s.evaluate formula := by
  refine ⟨h.limit_eq, fun name x hname hlast => ?_, fun formula hasked => ?_⟩
  · -- A name is a path of one segment, which no limit refuses
    have hparse : (Formula.parse t.limit name).outcome =
        .ok (.program [.path (Path.join [name])]) :=
      Formula.parse_of_dotted (.single name) (List.forall_mem_singleton.mpr hname)
    have hvalue := ((Formula.outcomes_of_parse_cons hparse).2 t.data.numberAt).1
    exact hvalue.trans (h.numberAt_name hdata hname.not_mem_dot hlast)
  · rw [evaluate, evaluate, h.limit_eq]
    -- What the formula asked for before is answered as before, so its run is the same
    refine congrArg Traced.outcome (Formula.evaluate_eq_of_asked fun path hpath => ?_)
    exact h.numberAt_of_ne (hasked path hpath)

end Stores

end Session

end Reckoner
