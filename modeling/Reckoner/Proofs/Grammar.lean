import Reckoner.Proofs.DraftReads
import Reckoner.Proofs.DraftNesting

/-!
# The grammar of programs

Tokens are read as a program exactly if they spell its expressions side by side and no
call is nested deeper than the limit.

## Key results

- `Draft.takes_of_programFree`: the tokens of a tree are taken in as that tree
- `Expr.listOfTokens_sound`, `Expr.listOfTokens_complete`: the two directions
- `Expr.ofTokens_eq_ok_program_iff`: both together, for programs
-/

namespace Reckoner

namespace Draft

variable {limit : Nat} {d : Draft}

/-! ## Taking in a tree -/

/-- Behind the first word of a path the others are taken in, each with its dot. -/
private theorem run_segments (limit : Nat) (body : List Expr) (calls : List OpenCall)
    (path : String) (segments : List String) :
    run limit ⟨body, calls, .path path⟩
        (segments.flatMap fun segment => [.dot, .word segment]) =
      .ok ⟨body, calls, .path (Path.join (path :: segments))⟩ := by
  -- The path that was read so far grows with each word
  induction segments generalizing path with
  | nil => rw [Path.join, String.intercalate_singleton]; rfl
  | cons segment segments ih =>
    have hjoin : Path.join (path :: segment :: segments) =
        Path.join ((path ++ "." ++ segment) :: segments) := by
      rw [Path.join, String.intercalate_cons_cons, Path.join, String.intercalate_cons_append]
    rw [hjoin, ← ih]
    rfl

/-- The tokens of a path are taken in as that path, which may still go on. -/
private theorem run_path_spelling (h : d.Awaits) (path : String) :
    d.run limit (Path.spelling path) = .ok ⟨d.settle.body, d.settle.calls, .path path⟩ := by
  obtain ⟨segment, segments, hsegments⟩ :=
    List.exists_cons_of_ne_nil (Path.segments_ne_nil path)
  rw [Path.spelling, hsegments, List.map_cons, intercalate_cons, List.flatMap_map]
  have hpath : path = Path.join (segment :: segments) := by
    rw [← hsegments, Path.join_segments]
  rw [hpath]
  -- The first segment starts the path, and each further one comes behind a dot
  refine run_cons_eq_ok_iff.mpr ⟨_, .word segment h, ?_⟩
  exact run_segments limit _ _ segment segments

/-- The tokens of the tree, taken in where an expression may start, leave the draft with
    that tree. -/
def Takes (limit : Nat) (e : Expr) : Prop :=
  ∀ d : Draft, d.Awaits → e.depth + d.settle.calls.length ≤ limit →
    ∃ d', d.run limit e.spelling = .ok d' ∧ d'.settle = d.settle.deliver e

/-- Further arguments of the innermost open call are taken in, each with its comma. -/
private theorem exists_run_args {es : List Expr} (htakes : ∀ e ∈ es, Takes limit e)
    {body : List Expr} {calls : List OpenCall} {name : String} {done : List Expr}
    (hdepth : ∀ e ∈ es, e.depth + (calls.length + 1) ≤ limit)
    (hd : d.settle = ⟨body, ⟨name, done⟩ :: calls, .between⟩) :
    ∃ d', d.run limit (es.flatMap fun e => .comma :: e.spelling) = .ok d' ∧
      d'.settle = ⟨body, ⟨name, es.reverse ++ done⟩ :: calls, .between⟩ := by
  -- An argument that was taken in is done for those behind it
  induction es generalizing d done with
  | nil => exact ⟨d, rfl, hd⟩
  | cons e es ih =>
    obtain ⟨he, hes⟩ := List.forall_mem_cons.mp htakes
    obtain ⟨hdepth, hdepths⟩ := List.forall_mem_cons.mp hdepth
    have hcomma : Advance limit d .comma ⟨d.settle.body, d.settle.calls, .argument⟩ :=
      .comma (by rw [hd]) (by rw [hd]; exact List.cons_ne_nil _ _)
    rw [hd] at hcomma
    obtain ⟨d₁, hrun, hd₁⟩ := he ⟨body, ⟨name, done⟩ :: calls, .argument⟩ (.inl rfl) hdepth
    obtain ⟨d₂, hrest, hd₂⟩ := ih hes hdepths hd₁
    refine ⟨d₂, ?_, ?_⟩
    · rw [List.flatMap_cons, List.cons_append]
      refine run_cons_eq_ok_iff.mpr ⟨_, hcomma, ?_⟩
      rw [run_append_of_ok hrun, hrest]
    · rw [hd₂, List.reverse_cons, List.append_assoc, List.singleton_append]

/-- All arguments of a call that was just opened are taken in, and the call may end. -/
theorem exists_run_row {args : List Expr} (htakes : ∀ e ∈ args, Takes limit e)
    (body : List Expr) (calls : List OpenCall) (name : String)
    (hdepth : ∀ e ∈ args, e.depth + (calls.length + 1) ≤ limit) :
    ∃ d', run limit ⟨body, ⟨name, []⟩ :: calls, .firstArgument⟩
          ([Token.comma].intercalate (args.map Expr.spelling)) = .ok d' ∧
      (d'.settle.phase = .between ∨ d'.phase = .firstArgument) ∧
      d'.settle.body = body ∧ d'.settle.calls = ⟨name, args.reverse⟩ :: calls := by
  -- The first argument follows the parenthesis; the others follow a comma each
  cases args with
  | nil => exact ⟨_, rfl, .inr rfl, rfl, rfl⟩
  | cons e es =>
    obtain ⟨he, hes⟩ := List.forall_mem_cons.mp htakes
    obtain ⟨hdepth, hdepths⟩ := List.forall_mem_cons.mp hdepth
    obtain ⟨d₁, hrun, hd₁⟩ :=
      he ⟨body, ⟨name, []⟩ :: calls, .firstArgument⟩ (.inr (.inl rfl)) hdepth
    have hfirst : d₁.settle = ⟨body, ⟨name, [e]⟩ :: calls, .between⟩ := hd₁
    obtain ⟨d₂, hrest, hd₂⟩ := exists_run_args hes hdepths hfirst
    refine ⟨d₂, ?_, .inl (by rw [hd₂]), by rw [hd₂], by rw [hd₂, List.reverse_cons]⟩
    rw [List.map_cons, intercalate_cons, List.flatMap_map, run_append_of_ok hrun]
    exact hrest

/-- Every tree without programs inside is taken in. -/
theorem takes_of_programFree {e : Expr} (he : e.ProgramFree) : Takes limit e := by
  induction he with
  | literal value =>
    intro d hd _
    exact ⟨_, run_cons_eq_ok_iff.mpr ⟨_, .literal value hd, rfl⟩, settle_deliver _ _⟩
  | path dotted =>
    intro d hd _
    exact ⟨_, run_path_spelling hd dotted, deliver_mk _ _ _ _ _⟩
  | @call name args _ ih =>
    intro d hd hdepth
    rw [Expr.depth] at hdepth
    have hlimit : d.settle.calls.length < limit := by omega
    have hargs : ∀ e ∈ args, e.depth + (d.settle.calls.length + 1) ≤ limit := by
      intro e he
      have := Expr.maxDepth_le_iff.mp (Nat.le_refl _) e he
      omega
    -- The name, the parenthesis, the row of arguments and the closing parenthesis in turn
    obtain ⟨d', hrow, hphase, hbody, hcalls⟩ := exists_run_row ih d.settle.body _ name hargs
    have hclose : Advance limit d' .rightParen _ := .close hphase hcalls
    rw [hbody, List.reverse_reverse] at hclose
    refine ⟨_, ?_, settle_deliver _ _⟩
    rw [Expr.spelling, Expr.spellings_eq_map]
    refine run_cons_eq_ok_iff.mpr ⟨_, .function name hd hlimit, ?_⟩
    refine run_cons_eq_ok_iff.mpr ⟨_, .leftParen rfl, ?_⟩
    rw [run_append_of_ok hrow]
    refine run_cons_eq_ok_iff.mpr ⟨_, hclose, ?_⟩
    rw [run, deliver_mk _ _ .between d.settle.phase]

/-- Expressions side by side outside of all calls are taken in one after the other. -/
theorem exists_run_body {es : List Expr} (hes : ∀ e ∈ es, e.Fits limit 0) {body : List Expr}
    (hd : d.settle = ⟨body, [], .between⟩) :
    ∃ d', d.run limit (es.flatMap Expr.spelling) = .ok d' ∧
      d'.settle = ⟨es.reverse ++ body, [], .between⟩ := by
  -- Each expression finds the draft between expressions and leaves it there
  induction es generalizing d body with
  | nil => exact ⟨d, rfl, hd⟩
  | cons e es ih =>
    obtain ⟨⟨hfree, hdepth⟩, hes⟩ := List.forall_mem_cons.mp hes
    have hawaits : d.Awaits := .inr (.inr ⟨by rw [hd], by rw [hd]⟩)
    have hlimit : e.depth + d.settle.calls.length ≤ limit := by
      rw [hd]
      exact hdepth
    obtain ⟨d₁, hrun, hd₁⟩ := takes_of_programFree hfree d hawaits hlimit
    rw [hd] at hd₁
    obtain ⟨d₂, hrest, hd₂⟩ := ih hes hd₁
    refine ⟨d₂, ?_, ?_⟩
    · rw [List.flatMap_cons, run_append_of_ok hrun, hrest]
    · rw [hd₂, List.reverse_cons, List.append_assoc, List.singleton_append]

end Draft

/-! ## Reading tokens -/

namespace Expr

variable {limit : Nat} {ts : List Token} {body : List Expr}

/-- Tokens are read as expressions by a run from the start that can be finished. -/
theorem listOfTokens_eq_ok_iff :
    listOfTokens limit ts = .ok body ↔
      ∃ d, Draft.start.run limit ts = .ok d ∧ d.finish = .ok body := by
  rw [listOfTokens]
  cases Draft.start.run limit ts with
  | error fault => simp
  | ok d => simp

/-- Tokens that are read as expressions spell them, within the limit. -/
theorem listOfTokens_sound (hwords : ∀ name, .word name ∈ ts → '.' ∉ name.toList)
    (h : listOfTokens limit ts = .ok body) :
    ts = body.flatMap spelling ∧ ∀ e ∈ body, e.Fits limit 0 := by
  obtain ⟨d, hrun, hfinish⟩ := listOfTokens_eq_ok_iff.mp h
  refine ⟨?_, ((Draft.within_start limit).run hrun).finish hfinish⟩
  have hreads := Draft.reads_start.run hwords hrun
  exact hreads.finish hfinish

/-- The tokens that spell expressions within the limit are read as these expressions. -/
theorem listOfTokens_complete (h : ∀ e ∈ body, e.Fits limit 0) :
    listOfTokens limit (body.flatMap spelling) = .ok body := by
  have hstart : Draft.start.settle = ⟨[], [], .between⟩ := rfl
  obtain ⟨d, hrun, hd⟩ := Draft.exists_run_body h hstart
  refine listOfTokens_eq_ok_iff.mpr ⟨d, hrun, ?_⟩
  refine Draft.finish_eq_ok_iff.mpr ⟨by rw [hd], by rw [hd], ?_⟩
  rw [hd, List.append_nil, List.reverse_reverse]

/-- A program is read from tokens if its expressions are. -/
private theorem ofTokens_eq_ok_program {limit : Nat} {ts : List Token} {body : List Expr} :
    ofTokens limit ts = .ok (.program body) ↔ listOfTokens limit ts = .ok body := by
  rw [ofTokens]
  cases listOfTokens limit ts with
  | error fault => simp [Except.map]
  | ok es => simp [Except.map]

/-- Tokens without a dot inside a word are read as a program exactly if they spell its
    expressions one behind the other, no call is nested deeper than the limit and no
    further program stands inside. -/
theorem ofTokens_eq_ok_program_iff (limit : Nat) (ts : List Token) (body : List Expr)
    (hwords : ∀ name, .word name ∈ ts → '.' ∉ name.toList) :
    ofTokens limit ts = .ok (.program body) ↔
      ts = body.flatMap spelling ∧ (∀ e ∈ body, e.depth ≤ limit) ∧
        ∀ e ∈ body, e.ProgramFree := by
  rw [ofTokens_eq_ok_program]
  -- Soundness looks at what a run has read; completeness runs over the spelling
  constructor
  · intro h
    obtain ⟨hts, hfits⟩ := listOfTokens_sound hwords h
    exact ⟨hts, fun e he => (hfits e he).2, fun e he => (hfits e he).1⟩
  · rintro ⟨rfl, hdepth, hfree⟩
    exact listOfTokens_complete fun e he => ⟨hfree e he, hdepth e he⟩

/-- A call with a dotted path in it, and a name beside the call. -/
theorem ofTokens_eq_ok_call_and_path :
    let ts : List Token := [.function "f", .leftParen, .word "a", .dot, .word "b", .comma,
      .number 3, .rightParen, .word "x"]
    (∀ name, .word name ∈ ts → '.' ∉ name.toList) ∧
      ofTokens 1 ts = .ok (.program [call "f" [path "a.b", literal 3], path "x"]) := by
  intro ts
  have hwords : ∀ name, .word name ∈ ts → '.' ∉ name.toList := by
    intro name hname
    obtain rfl | rfl | rfl : name = "a" ∨ name = "b" ∨ name = "x" := by simpa [ts] using hname
    all_goals decide
  -- The dotted name is one path, although it is spelled by three tokens
  have hargs : ∀ e ∈ [path "a.b", literal 3], e.ProgramFree :=
    List.forall_mem_cons.mpr ⟨.path _, List.forall_mem_singleton.mpr (.literal _)⟩
  have hbody : ∀ e ∈ [call "f" [path "a.b", literal 3], path "x"], e.ProgramFree :=
    List.forall_mem_cons.mpr ⟨.call hargs, List.forall_mem_singleton.mpr (.path _)⟩
  exact ⟨hwords, (ofTokens_eq_ok_program_iff 1 ts _ hwords).mpr ⟨rfl, by decide, hbody⟩⟩

end Expr

end Reckoner
