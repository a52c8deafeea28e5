import Reckoner.Proofs.AskedPaths
import Reckoner.Proofs.PathSegments
import Reckoner.Proofs.Reprint

/-!
# Suitable data

A valid formula without divisions has a value on suitable data, whatever numbers its paths
are to have, if no path of it goes on where another ends.  If one does, no data are suitable.

## Key results

- `Data.descend_eq_ok_iff`, `Data.descend_eq_error_iff`: where following a path ends, and where it
  fails
- `Data.at?_plant_self`, `Data.at?_plant_of_apart`: putting a number at the end of a path
- `Data.exists_numberAt`: data for paths of which none goes on where another ends
- `Formula.validate_promises`: what it means for evaluation that a formula is valid
-/

namespace Reckoner

namespace Data

variable {d : Data} {x : Float} {segments others : List String}

/-! ## Following segments -/

/-- The children of data; a number has none. -/
def entries : Data → List (String × Data)
  | number _ => []
  | children entries => entries

private theorem child?_eq (d : Data) (name : String) : d.child? name = entry? name d.entries := by
  cases d with
  | number x => rfl
  | children entries => rfl

/-- What segments lead to, if anything. -/
def at? (d : Data) : List String → Option Data
  | [] => some d
  | segment :: segments =>
    match d.child? segment with
    | none => none
    | some child => child.at? segments

/-- Walking on is walking from where the walk has come to. -/
private theorem at?_append (d : Data) (segments others : List String) :
    d.at? (segments ++ others) = (d.at? segments).bind (·.at? others) := by
  induction segments generalizing d with
  | nil => rfl
  | cons segment segments ih =>
    rw [List.cons_append, at?, at?]
    cases d.child? segment with
    | none => rfl
    | some child => exact ih child

/-- A number leads nowhere. -/
private theorem at?_number_of_ne_nil (x : Float) (h : segments ≠ []) :
    (number x).at? segments = none := by
  obtain ⟨segment, rest, rfl⟩ := List.exists_cons_of_ne_nil h
  rfl

private theorem at?_empty_of_ne_nil (h : segments ≠ []) : empty.at? segments = none := by
  obtain ⟨segment, rest, rfl⟩ := List.exists_cons_of_ne_nil h
  rfl

/-- Following a path ends where its segments lead, and the path itself only says where it
    fails. -/
theorem descend_eq_ok_iff {path : String} {child : Data} :
    d.descend path segments = .ok child ↔ d.at? segments = some child := by
  induction segments generalizing d with
  | nil => simp [descend, at?]
  | cons segment segments ih =>
    rw [descend, at?]
    cases d.child? segment with
    | none => simp
    | some next => exact ih

/-- Following a path fails at the first segment that leads nowhere, and names this segment. -/
theorem descend_eq_error_iff {path : String} {fault : Fault} :
    d.descend path segments = .error fault ↔
      ∃ before segment after last, segments = before ++ segment :: after ∧
        d.at? before = some last ∧ last.child? segment = none ∧
        fault = .unknownVariable segment path := by
  induction segments generalizing d with
  | nil => simp [descend]
  | cons first rest ih =>
    rw [descend]
    cases hnext : d.child? first with
    | none =>
      constructor
      · rintro ⟨⟩
        exact ⟨[], first, rest, d, rfl, rfl, hnext, rfl⟩
      · rintro ⟨before, segment, after, last, hsegments, hlast, hnone, rfl⟩
        cases before with
        | nil => rw [(List.cons.inj hsegments).1]
        | cons other before =>
          -- A segment in front of the failing one would have led somewhere
          obtain rfl := (List.cons.inj hsegments).1
          rw [at?, hnext] at hlast
          cases hlast
    | some next =>
      rw [ih]
      constructor
      · rintro ⟨before, segment, after, last, rfl, hlast, hnone, rfl⟩
        refine ⟨first :: before, segment, after, last, rfl, ?_, hnone, rfl⟩
        rw [at?, hnext]
        exact hlast
      · rintro ⟨before, segment, after, last, hsegments, hlast, hnone, rfl⟩
        cases before with
        | nil =>
          obtain rfl := Option.some.inj hlast
          obtain rfl := (List.cons.inj hsegments).1
          cases hnext.symm.trans hnone
        | cons other before =>
          obtain ⟨rfl, hrest⟩ := List.cons.inj hsegments
          rw [at?, hnext] at hlast
          exact ⟨before, segment, after, last, hrest, hlast, hnone, rfl⟩

/-- A path has a number if its segments lead to one. -/
theorem numberAt_eq_ok_iff {path : String} :
    d.numberAt path = .ok x ↔ d.at? (Path.segments path) = some (number x) := by
  have hdescend {child : Data} :
      d.descend path (Path.segments path) = .ok child ↔ d.at? (Path.segments path) = some child :=
    descend_eq_ok_iff
  rw [← hdescend, numberAt]
  cases d.descend path (Path.segments path) with
  | error fault => simp
  | ok child => cases child <;> simp

/-! ## Names in order -/

/-- Data with the names of children in order and apart, at every depth. -/
inductive Ordered : Data → Prop where
  | number (x : Float) : Ordered (number x)
  | children {entries : List (String × Data)}
    (hnames : entries.Pairwise fun entry next => entry.1 < next.1)
    (hentries : ∀ entry ∈ entries, Ordered entry.2) : Ordered (children entries)

private theorem ordered_empty : Ordered empty :=
  .children .nil fun _ h => absurd h List.not_mem_nil

/-- What is put in is the only entry that is new. -/
private theorem mem_insertEntry {α : Type} {name : String} {value : α} {entry : String × α}
    {entries : List (String × α)} (h : entry ∈ insertEntry name value entries) :
    entry = (name, value) ∨ entry ∈ entries := by
  induction entries with
  | nil => exact .inl (List.mem_singleton.mp h)
  | cons first rest ih =>
    unfold insertEntry at h
    -- The entry is put in front of a later name, in the place of its own, or further back
    split at h
    · exact List.mem_cons.mp h
    · split at h
      · rcases List.mem_cons.mp h with rfl | h
        · exact .inl rfl
        · exact .inr (List.mem_cons_of_mem _ h)
      · rcases List.mem_cons.mp h with rfl | h
        · exact .inr List.mem_cons_self
        · exact (ih h).imp id (List.mem_cons_of_mem _)

/-- Putting an entry in leaves the names in order. -/
theorem pairwise_insertEntry {α : Type} {entries : List (String × α)}
    (h : entries.Pairwise fun entry next => entry.1 < next.1) (name : String) (value : α) :
    (insertEntry name value entries).Pairwise fun entry next => entry.1 < next.1 := by
  induction entries with
  | nil => exact List.pairwise_singleton ..
  | cons first rest ih =>
    obtain ⟨hfirst, hrest⟩ := List.pairwise_cons.mp h
    unfold insertEntry
    split
    · rename_i hbefore
      refine .cons (fun entry hentry => ?_) h
      rcases List.mem_cons.mp hentry with rfl | hentry
      · exact hbefore
      · exact String.lt_trans hbefore (hfirst entry hentry)
    · rename_i hbefore
      split
      · rename_i hsame
        refine .cons (fun entry hentry => ?_) hrest
        rw [hsame]
        exact hfirst entry hentry
      · rename_i hsame
        -- The new name comes behind the first one, being neither before it nor the same
        refine .cons (fun entry hentry => ?_) (ih hrest)
        rcases mem_insertEntry hentry with rfl | hentry
        · exact Std.lt_of_le_of_ne (String.not_lt.mp hbefore) (Ne.symm hsame)
        · exact hfirst entry hentry

/-- The entries of ordered data are in order, and so is each of them. -/
theorem Ordered.entries (h : d.Ordered) :
    (d.entries.Pairwise fun entry next => entry.1 < next.1) ∧
      ∀ entry ∈ d.entries, entry.2.Ordered := by
  cases h with
  | number x => exact ⟨.nil, fun _ h => absurd h List.not_mem_nil⟩
  | children hnames hentries => exact ⟨hnames, hentries⟩

/-- An entry that is found is there. -/
theorem mem_of_entry?_eq_some {α : Type} {name : String} {value : α} {entries : List (String × α)}
    (h : entry? name entries = some value) : (name, value) ∈ entries := by
  induction entries with
  | nil => exact nomatch h
  | cons first rest ih =>
    rw [ entry?] at h
    -- The first entry with the name is the one that counts
    split at h
    · rename_i hname
      obtain rfl := Option.some.inj h
      rw [hname]
      exact List.mem_cons_self
    · exact List.mem_cons_of_mem _ (ih h)

/-! ## Putting numbers at the ends of paths -/

/-- The child of a name, or data without anything in them. -/
def childOrEmpty (d : Data) (name : String) : Data :=
  (d.child? name).getD empty

/-- Put a number at the end of segments.  A number on the way gives place to children. -/
def plant (x : Float) : List String → Data → Data
  | [], _ => number x
  | segment :: segments, d =>
    children (insertEntry segment (plant x segments (d.childOrEmpty segment)) d.entries)

/-- Planting goes on inside of the child of the first segment. -/
private theorem child?_plant_self (x : Float) (segment : String) (segments : List String)
    (d : Data) :
    (plant x (segment :: segments) d).child? segment =
      some (plant x segments (d.childOrEmpty segment)) :=
  entry?_insertEntry_self ..

/-- Planting leaves the other children as they are. -/
private theorem child?_plant_of_ne (x : Float) {segment other : String} (h : other ≠ segment)
    (segments : List String) (d : Data) :
    (plant x (segment :: segments) d).child? other = d.child? other := by
  rw [child?_eq d]
  exact entry?_insertEntry_of_ne h ..

/-- A child of ordered data is in order, also one that is made. -/
private theorem ordered_childOrEmpty (h : d.Ordered) (name : String) :
    (d.childOrEmpty name).Ordered := by
  rw [childOrEmpty]
  -- The empty data stand in for a child that is missing
  cases hchild : d.child? name with
  | none => exact ordered_empty
  | some child =>
    rw [child?_eq] at hchild
    exact h.entries.2 _ (mem_of_entry?_eq_some hchild)

/-- Putting a number somewhere leaves the names in order. -/
theorem ordered_plant (h : d.Ordered) (x : Float) (segments : List String) :
    (plant x segments d).Ordered := by
  -- The induction is on the way down to where the number is planted
  induction segments generalizing d with
  | nil => exact .number x
  | cons segment segments ih =>
    obtain ⟨hnames, hentries⟩ := h.entries
    refine .children (pairwise_insertEntry hnames _ _) fun entry hentry => ?_
    rcases mem_insertEntry hentry with rfl | hentry
    · exact ih (ordered_childOrEmpty h segment)
    · exact hentries entry hentry

/-- The number is where it was put. -/
theorem at?_plant_self (x : Float) (segments : List String) (d : Data) :
    (plant x segments d).at? segments = some (number x) := by
  induction segments generalizing d with
  | nil => rfl
  | cons segment segments ih =>
    rw [at?, child?_plant_self]
    exact ih (d.childOrEmpty segment)

/-- Where there is no child nothing is found behind it, nor in empty data in its place. -/
private theorem at?_childOrEmpty (d : Data) (segment : String) (h : segments ≠ []) :
    (d.childOrEmpty segment).at? segments = d.at? (segment :: segments) := by
  rw [childOrEmpty, at?]
  cases d.child? segment with
  | none => exact at?_empty_of_ne_nil h
  | some child => rfl

/-- Segments that part from those of the number lead where they led before. -/
theorem at?_plant_of_apart (x : Float) (hshort : ¬ others <+: segments)
    (hlong : ¬ segments <+: others) (d : Data) :
    (plant x segments d).at? others = d.at? others := by
  induction segments generalizing others d with
  | nil => exact absurd List.nil_prefix hlong
  | cons segment segments ih =>
    cases others with
    | nil => exact absurd List.nil_prefix hshort
    | cons other others =>
      -- The two ways share their first name, or they part here
      by_cases hsame : other = segment
      · subst hsame
        rw [List.prefix_cons_inj] at hshort hlong
        have hne : others ≠ [] := by
          rintro rfl
          exact hshort List.nil_prefix
        rw [at?, child?_plant_self]
        exact (ih hshort hlong _).trans (at?_childOrEmpty d other hne)
      · rw [at?, child?_plant_of_ne x hsame, at?]

end Data

/-! ## Paths that go on where others end -/

/-- A path goes on where another ends. -/
def Path.GoesOn (longer shorter : String) : Prop :=
  Path.segments shorter <+: Path.segments longer ∧ shorter ≠ longer

instance : DecidableRel Path.GoesOn := fun longer shorter =>
  inferInstanceAs (Decidable (Path.segments shorter <+: Path.segments longer ∧ shorter ≠ longer))

namespace Data

variable {d : Data}

/-- Data with numbers at the ends of paths. -/
def planted (wish : String → Float) (paths : List String) : Data :=
  paths.foldr (fun path d => plant (wish path) (Path.segments path) d) empty

/-- Data in which all wishes are planted are in order. -/
private theorem ordered_planted (wish : String → Float) (paths : List String) :
    (planted wish paths).Ordered := by
  induction paths with
  | nil => exact ordered_empty
  | cons path paths ih => exact ordered_plant ih _ _

/-- If no path goes on where another ends, each has the number that was put at its end. -/
theorem numberAt_planted (wish : String → Float) {paths : List String}
    (h : ∀ p ∈ paths, ∀ q ∈ paths, ¬ Path.GoesOn q p) {path : String} (hpath : path ∈ paths) :
    (planted wish paths).numberAt path = .ok (wish path) := by
  rw [numberAt_eq_ok_iff]
  induction paths with
  | nil => exact absurd hpath List.not_mem_nil
  | cons first paths ih =>
    by_cases hsame : path = first
    · subst hsame
      exact at?_plant_self ..
    · -- The path parts from the first one, so planting that changes nothing for it
      have hrest := ih (fun p hp q hq => h p (List.mem_cons_of_mem _ hp) q
        (List.mem_cons_of_mem _ hq)) ((List.mem_cons.mp hpath).resolve_left hsame)
      have hshort : ¬ Path.segments path <+: Path.segments first :=
        fun hstart => h path hpath first List.mem_cons_self ⟨hstart, hsame⟩
      have hlong : ¬ Path.segments first <+: Path.segments path :=
        fun hstart => h first List.mem_cons_self path hpath ⟨hstart, Ne.symm hsame⟩
      exact (at?_plant_of_apart _ hshort hlong _).trans hrest

/-- No data have a number at the end of a path and at that of one that goes on there. -/
private theorem not_numberAt_of_goesOn {p q : String} (h : Path.GoesOn q p) {x y : Float}
    (hp : d.numberAt p = .ok x) : d.numberAt q ≠ .ok y := by
  intro hq
  obtain ⟨⟨rest, hrest⟩, hne⟩ := h
  rw [numberAt_eq_ok_iff] at hp hq
  rw [← hrest, at?_append, hp] at hq
  -- A number has no children, and the longer path would need one
  have hlast : rest ≠ [] := by
    rintro rfl
    rw [List.append_nil] at hrest
    exact hne (by rw [← Path.join_segments p, hrest, Path.join_segments])
  exact nomatch (at?_number_of_ne_nil x hlast).symm.trans hq

end Data

/-! ## Valid expressions -/

namespace Expr

variable {context : Context} {e : Expr}

/-- A valid expression without divisions has a value over every context that has numbers for
    its paths. -/
private theorem exists_value_of_checkNode
    (hcontext : ∀ path fault, context path = .error fault → fault.OfData)
    (hcheck : e.checkNode = .ok ()) (hpaths : ∀ p ∈ paths e.postorder, ∃ x, context p = .ok x)
    (hdivide : ∀ args, call Operator.divide.name args ∉ e.postorder) :
    ∃ x, (e.eval context).outcome = .ok x := by
  cases houtcome : (e.eval context).outcome with
  | ok x => exact ⟨x, rfl⟩
  | error fault =>
    -- Only the data can be at fault, and so one of the paths or a division
    have hdata : fault.OfData := by
      have hforetells := foretells_checkNode hcontext e
      rw [hcheck, houtcome] at hforetells
      exact hforetells.ofData
    obtain ⟨before, node, after, hnodes, -, hfails⟩ :=
      ((visits_eval e).error_iff fault).mp houtcome
    have hnode : node ∈ e.postorder := by simp [hnodes]
    cases hfails with
    | path hanswer =>
      obtain ⟨x, hx⟩ := hpaths _ (mem_paths_iff.mpr hnode)
      exact nomatch hanswer.symm.trans hx
    | divisionByZero => exact absurd hnode (hdivide _)
    | unknownFunction => exact hdata.elim
    | arityMismatch => exact hdata.elim
    | unknownNode => exact hdata.elim

/-- An expression that has a value has a number for each of its paths. -/
private theorem exists_number_of_outcome {x : Float} (h : (e.eval context).outcome = .ok x)
    {dotted : String} (hpath : dotted ∈ paths e.postorder) : ∃ y, context dotted = .ok y := by
  have hsound := (visits_eval e).exists_ok_iff.mp ⟨x, h⟩ _ (mem_paths_iff.mp hpath)
  cases hanswer : context dotted with
  | ok y => exact ⟨y, rfl⟩
  | error fault => exact absurd (.path hanswer) (hsound fault)

end Expr

namespace Formula

/-- A formula is valid exactly if its program has a first expression, and that is valid. -/
theorem validate_eq_ok_iff {limit : Nat} {formula : String} :
    (validate limit formula).outcome = .ok () ↔
      ∃ first others, (parse limit formula).outcome = .ok (.program (first :: others)) ∧
        first.checkNode = .ok () := by
  rw [outcome_validate]
  constructor
  · intro h
    cases hparse : (parse limit formula).outcome with
    | error fault =>
      rw [hparse] at h
      exact nomatch h
    | ok e =>
      rw [hparse] at h
      obtain ⟨body, rfl, -⟩ := wellFormed_of_parse hparse
      -- An empty program is refused by the check
      cases body with
      | nil => exact nomatch h
      | cons first others => exact ⟨first, others, rfl, h⟩
  · rintro ⟨first, others, hparse, hcheck⟩
    rw [hparse]
    exact hcheck

/-- What is promised of a valid formula, whose first expression is the one that counts.  If
    it has no division, and no path of it goes on where another ends, then whatever numbers
    its paths are to have, there are data that have them and over which the formula has a
    value.  If a path does go on where another ends, the formula fails over all data, and
    the data are at fault. -/
theorem validate_promises (limit : Nat) (formula : String)
    (h : (validate limit formula).outcome = .ok ()) :
    ∃ first others, (parse limit formula).outcome = .ok (.program (first :: others)) ∧
      ((∀ args, .call Operator.divide.name args ∉ first.postorder) →
        (∀ p ∈ Expr.paths first.postorder, ∀ q ∈ Expr.paths first.postorder,
          ¬ Path.GoesOn q p) →
        ∀ wish : String → Float, ∃ d : Data, d.Ordered ∧
          (∀ p ∈ Expr.paths first.postorder, d.numberAt p = .ok (wish p)) ∧
          ∃ x, (evaluate limit d.numberAt formula).outcome = .ok x) ∧
      ∀ p ∈ Expr.paths first.postorder, ∀ q ∈ Expr.paths first.postorder, Path.GoesOn q p →
        ∀ d : Data, ∃ fault, fault.OfData ∧
          (evaluate limit d.numberAt formula).outcome = .error fault := by
  obtain ⟨first, others, hparse, hcheck⟩ := validate_eq_ok_iff.mp h
  have hevaluate : ∀ context,
      (evaluate limit context formula).outcome = (first.eval context).outcome := by
    intro context
    rw [outcome_evaluate, hparse]
    exact Expr.outcome_evalFirst_program first others
  refine ⟨first, others, hparse, fun hdivide hapart wish => ?_, fun p hp q hq hgoesOn d => ?_⟩
  · have hnumbers : ∀ p ∈ Expr.paths first.postorder,
        (Data.planted wish (Expr.paths first.postorder)).numberAt p = .ok (wish p) :=
      fun p hp => Data.numberAt_planted wish hapart hp
    refine ⟨_, Data.ordered_planted wish _, hnumbers, ?_⟩
    rw [hevaluate]
    exact Expr.exists_value_of_checkNode (fun _ _ => Data.ofData_of_numberAt) hcheck
      (fun p hp => ⟨_, hnumbers p hp⟩) hdivide
  · rw [hevaluate]
    have hforetells : Foretells (.ok ()) (first.eval d.numberAt).outcome := by
      rw [← hcheck]
      exact Expr.foretells_checkNode (fun _ _ => Data.ofData_of_numberAt) first
    cases houtcome : (first.eval d.numberAt).outcome with
    | error fault =>
      rw [houtcome] at hforetells
      exact ⟨fault, hforetells.ofData, rfl⟩
    | ok x =>
      -- A value needs numbers at both paths
      obtain ⟨y, hy⟩ := Expr.exists_number_of_outcome houtcome hp
      obtain ⟨z, hz⟩ := Expr.exists_number_of_outcome houtcome hq
      exact absurd hz (Data.not_numberAt_of_goesOn hgoesOn hy)

/-- Two paths that part have any numbers in suitable data; a path and one that goes on where
    it ends have numbers in none. -/
theorem validate_promises_sum_of_paths :
    (validate 1 "Add(a.b, a.c)").outcome = .ok () ∧
      (∀ x y, ∃ d : Data, d.Ordered ∧ d.numberAt "a.b" = .ok x ∧ d.numberAt "a.c" = .ok y ∧
        ∃ z, (evaluate 1 d.numberAt "Add(a.b, a.c)").outcome = .ok z) ∧
      (validate 1 "Add(a, a.b)").outcome = .ok () ∧
      ∀ d : Data, ∃ fault, fault.OfData ∧
        (evaluate 1 d.numberAt "Add(a, a.b)").outcome = .error fault := by
  have hsum {p q : String} (hp : (Expr.path p).Spellable) (hq : (Expr.path q).Spellable) :
      (Expr.call "Add" [.path p, .path q]).Spellable :=
    .call (by decide) (List.forall_mem_cons.mpr ⟨hp, List.forall_mem_singleton.mpr hq⟩)
  have ha : (Expr.path "a").Spellable := .path (List.cons_ne_nil "a" []) (by decide)
  have hab : (Expr.path "a.b").Spellable := .path (List.cons_ne_nil "a" ["b"]) (by decide)
  have hac : (Expr.path "a.c").Spellable := .path (List.cons_ne_nil "a" ["c"]) (by decide)
  have hparts : (parse 1 "Add(a.b, a.c)").outcome =
      .ok (.program [.call "Add" [.path "a.b", .path "a.c"]]) :=
    parse_of_text (hsum hab hac) (by decide) (by decide +kernel)
  have hgoesOn : (parse 1 "Add(a, a.b)").outcome =
      .ok (.program [.call "Add" [.path "a", .path "a.b"]]) :=
    parse_of_text (hsum ha hab) (by decide) (by decide +kernel)
  have hvalid : (validate 1 "Add(a.b, a.c)").outcome = .ok () :=
    validate_eq_ok_iff.mpr ⟨_, [], hparts, rfl⟩
  have hvalid' : (validate 1 "Add(a, a.b)").outcome = .ok () :=
    validate_eq_ok_iff.mpr ⟨_, [], hgoesOn, rfl⟩
  refine ⟨hvalid, fun x y => ?_, hvalid', ?_⟩
  · obtain ⟨first, others, hfirst, hpromise, -⟩ := validate_promises 1 _ hvalid
    cases hparts.symm.trans hfirst
    have hpaths : Expr.paths (Expr.call "Add" [.path "a.b", .path "a.c"]).postorder =
      ["a.b", "a.c"] := rfl
    rw [hpaths] at hpromise
    obtain ⟨d, hordered, hnumbers, hvalue⟩ := hpromise
      (by simp [Expr.postorder, Expr.postorders, Operator.name]) (by decide)
      fun path => if path = "a.b" then x else y
    exact ⟨d, hordered, hnumbers "a.b" (by simp), hnumbers "a.c" (by simp), hvalue⟩
  · obtain ⟨first, others, hfirst, -, hfail⟩ := validate_promises 1 _ hvalid'
    cases hgoesOn.symm.trans hfirst
    have hpaths : Expr.paths (Expr.call "Add" [.path "a", .path "a.b"]).postorder =
      ["a", "a.b"] := rfl
    rw [hpaths] at hfail
    exact hfail "a" (by simp) "a.b" (by simp) (by decide)

end Formula

end Reckoner
