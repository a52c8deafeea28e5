import Reckoner.Proofs.Descent

/-!
# How far a descent goes

A descent enters a walk only at a depth up to the limit, and reads a call only at a depth below
it, so the next depth is counted without running over.  A walk at a depth has as many others
around it as the depth says, which bounds how many are under way at once.  And every turn of a
loop is paid for by a token.

## Key results

- `Descent.Orderly.depth_le`, `Descent.Orderly.depth_lt`: the depths of walks and calls
- `Descent.Orderly.within_front`: how many walks are under way at any time
- `Descent.charge_andThen_le`: what one reading leaves is what the next may use up
- `Descent.program_keeps_to_limit`: all of this for a program
-/

namespace Reckoner

namespace Descent

open Reading

/-! ## Orderly moves -/

/-- Moves in an order that keeps to a limit, with as many walks around them as the number says:
    a walk starts at the depth that is this number, which is at most the limit, and ends; and a
    call is read within the walk that found it, at a depth below the limit. -/
inductive Orderly (limit : UInt64) : Nat → List Move → Prop where
  | nil (walks : Nat) : Orderly limit walks []
  | turn {walks : Nat} {moves : List Move} (hmoves : Orderly limit walks moves) :
      Orderly limit walks (.turn :: moves)
  | call {depth : UInt64} {moves : List Move} (name : String) (hdepth : depth < limit)
      (hmoves : Orderly limit (depth.toNat + 1) moves) :
      Orderly limit (depth.toNat + 1) (.call name depth :: moves)
  | walk {depth : UInt64} {inner moves : List Move} (hdepth : depth ≤ limit)
      (hinner : Orderly limit (depth.toNat + 1) inner) (hmoves : Orderly limit depth.toNat moves) :
      Orderly limit depth.toNat (.enter depth :: (inner ++ .leave :: moves))

/-- How many walks were started. -/
def started (moves : List Move) : Nat :=
  moves.countP fun
    | .enter _ => true
    | _ => false

/-- How many walks are over. -/
def ended (moves : List Move) : Nat :=
  moves.count .leave

/-- How often a loop went round. -/
def turns (moves : List Move) : Nat :=
  moves.count .turn

@[simp] theorem started_turn (moves : List Move) : started (.turn :: moves) = started moves := by
  simp [started]

@[simp] theorem started_call (name : String) (depth : UInt64) (moves : List Move) :
    started (.call name depth :: moves) = started moves := by
  simp [started]

@[simp] theorem started_enter (depth : UInt64) (moves : List Move) :
    started (.enter depth :: moves) = started moves + 1 := by
  simp [started]

/-- Leaving starts no walk, wherever it stands. -/
@[simp] theorem started_append_leave (inner moves : List Move) :
    started (inner ++ .leave :: moves) = started inner + started moves := by
  simp [started]

@[simp] theorem ended_turn (moves : List Move) : ended (.turn :: moves) = ended moves := by
  simp [ended]

@[simp] theorem ended_call (name : String) (depth : UInt64) (moves : List Move) :
    ended (.call name depth :: moves) = ended moves := by
  simp [ended]

@[simp] theorem ended_enter (depth : UInt64) (moves : List Move) :
    ended (.enter depth :: moves) = ended moves := by
  simp [ended]

/-- Leaving ends a walk, wherever it stands. -/
@[simp] theorem ended_append_leave (inner moves : List Move) :
    ended (inner ++ .leave :: moves) = ended inner + ended moves + 1 := by
  simp [ended, Nat.add_assoc]

/-- With so many walks around them, these moves leave at most one walk more than the limit under
    way. -/
structure Within (limit : UInt64) (walks : Nat) (done : List Move) : Prop where
  ended_le : ended done ≤ started done
  started_le : walks + started done ≤ ended done + (limit.toNat + 1)

namespace Within

variable {limit : UInt64} {walks : Nat} {done : List Move}

theorem nil (h : walks ≤ limit.toNat + 1) : Within limit walks [] where
  ended_le := Nat.le_refl 0
  started_le := by simpa [started, ended] using h

theorem turn (h : Within limit walks done) : Within limit walks (.turn :: done) where
  ended_le := by simpa using h.ended_le
  started_le := by simpa using h.started_le

theorem call (name : String) (depth : UInt64) (h : Within limit walks done) :
    Within limit walks (.call name depth :: done) where
  ended_le := by simpa using h.ended_le
  started_le := by simpa using h.started_le

/-- Within a walk there is one walk more around the moves. -/
theorem enter (depth : UInt64) (h : Within limit (walks + 1) done) :
    Within limit walks (.enter depth :: done) where
  ended_le := by
    rw [started_enter, ended_enter]
    exact Nat.le_succ_of_le h.ended_le
  -- The walk that starts uses up one of those that may be under way
  started_le := by
    rw [started_enter, ended_enter, ← Nat.add_assoc, Nat.add_right_comm]
    exact h.started_le

/-- Behind a walk there are as many walks around the moves as in front of it. -/
theorem walk (depth : UInt64) {inner : List Move} (hinner : started inner = ended inner)
    (h : Within limit walks done) :
    Within limit walks (.enter depth :: (inner ++ .leave :: done)) where
  ended_le := by
    have := h.ended_le
    simp
    omega
  started_le := by
    have := h.started_le
    simp
    omega

end Within

/-- A front of a list goes to an entry at most, or past it. -/
private theorem front_append_cons {front inner moves : List Move} {m : Move}
    (h : front <+: inner ++ m :: moves) :
    front <+: inner ∨ ∃ more, more <+: moves ∧ front = inner ++ m :: more := by
  -- The front ends within the inner moves or goes past the move behind them
  obtain hinner | ⟨past, rfl⟩ := List.prefix_or_prefix_of_prefix h (List.prefix_append _ _)
  · exact .inl hinner
  · have hpast := (List.prefix_append_right_inj inner).mp h
    obtain rfl | ⟨more, rfl, hmore⟩ := List.prefix_cons_iff.mp hpast
    · exact .inl (by simp)
    · exact .inr ⟨more, hmore, rfl⟩

namespace Orderly

variable {limit depth : UInt64} {walks : Nat} {moves others : List Move}

/-- Orderly moves behind orderly moves are orderly. -/
theorem append (h : Orderly limit walks moves) (hothers : Orderly limit walks others) :
    Orderly limit walks (moves ++ others) := by
  induction h with
  | nil walks => exact hothers
  | turn _ ih => exact .turn (ih hothers)
  | call name hdepth _ ih => exact .call name hdepth (ih hothers)
  | walk hdepth hinner _ _ ih =>
    rw [List.cons_append, List.append_assoc, List.cons_append]
    exact .walk hdepth hinner (ih hothers)

/-- Walks start at depths up to the limit. -/
theorem depth_le (h : Orderly limit walks moves) (hmem : .enter depth ∈ moves) :
    depth ≤ limit := by
  -- A walk is entered at the depth that its constructor bounds, or inside of another one
  induction h with
  | nil walks => exact nomatch hmem
  | turn _ ih => exact ih (by simpa using hmem)
  | call name hdepth _ ih => exact ih (by simpa using hmem)
  | walk hdepth _ _ ihinner ih =>
    simp only [List.mem_cons, List.mem_append, Move.enter.injEq, reduceCtorEq, false_or] at hmem
    obtain rfl | hmem | hmem := hmem
    · exact hdepth
    · exact ihinner hmem
    · exact ih hmem

/-- Calls are read at depths below the limit. -/
theorem depth_lt {name : String} (h : Orderly limit walks moves)
    (hmem : .call name depth ∈ moves) : depth < limit := by
  -- A call is made at the depth that its constructor bounds, or inside of a walk
  induction h with
  | nil walks => exact nomatch hmem
  | turn _ ih => exact ih (by simpa using hmem)
  | call name hdepth _ ih =>
    simp only [List.mem_cons, Move.call.injEq] at hmem
    obtain ⟨-, rfl⟩ | hmem := hmem
    · exact hdepth
    · exact ih hmem
  | walk _ _ _ ihinner ih =>
    simp only [List.mem_cons, List.mem_append, reduceCtorEq, false_or] at hmem
    exact hmem.elim ihinner ih

/-- All walks that are started come to an end. -/
private theorem started_eq_ended (h : Orderly limit walks moves) : started moves = ended moves := by
  induction h with
  | nil walks => rfl
  | turn _ ih => simpa using ih
  | call name _ _ ih => simpa using ih
  | walk _ _ _ ihinner ih => simp [ihinner, ih]

/-- At any time the walks that are under way are one more than the limit at most. -/
theorem within_front (h : Orderly limit walks moves) (hwalks : walks ≤ limit.toNat + 1)
    {done : List Move} (hdone : done <+: moves) : Within limit walks done := by
  induction h generalizing done with
  | nil walks =>
    rw [List.prefix_nil.mp hdone]
    exact .nil hwalks
  | turn _ ih =>
    obtain rfl | ⟨front, rfl, hfront⟩ := List.prefix_cons_iff.mp hdone
    · exact .nil hwalks
    · exact (ih hwalks hfront).turn
  | call name _ _ ih =>
    obtain rfl | ⟨front, rfl, hfront⟩ := List.prefix_cons_iff.mp hdone
    · exact .nil hwalks
    · exact (ih hwalks hfront).call name _
  | walk hdepth hinner _ ihinner ih =>
    -- The front ends before the walk, within it or behind it
    have hlimit := UInt64.le_iff_toNat_le.mp hdepth
    obtain rfl | ⟨front, rfl, hfront⟩ := List.prefix_cons_iff.mp hdone
    · exact .nil hwalks
    · obtain hwithin | ⟨more, hmore, rfl⟩ := front_append_cons hfront
      · exact (ihinner (Nat.succ_le_succ hlimit) hwithin).enter _
      · exact (ih hwalks hmore).walk _ hinner.started_eq_ended

end Orderly

/-! ## Turns and tokens -/

section Charge

variable {α β : Type} {left : α → Nat} {left' : β → Nat}

/-- What a reading uses up: one for each turn of a loop, and what it leaves. -/
def charge (left : α → Nat) (reading : Reading α) : Nat :=
  turns reading.moves +
    match reading.outcome with
    | .error _ => 0
    | .ok value => left value

/-- The turns are part of what a reading costs. -/
private theorem turns_le_charge (left : α → Nat) (reading : Reading α) :
    turns reading.moves ≤ charge left reading :=
  Nat.le_add_right _ _

@[simp] theorem charge_ok (left : α → Nat) (value : α) :
    charge left (still (.ok value)) = left value := by
  simp [charge, still, turns]

@[simp] theorem charge_error (left : α → Nat) (fault : Fault) :
    charge left (still (.error fault)) = 0 := by
  simp [charge, still, turns]

@[simp] theorem charge_refuse (left : α → Nat) (wanted : Expectation) (found : Option Token) :
    charge left (refuse wanted found) = 0 :=
  charge_error left _

@[simp] theorem charge_turn (left : α → Nat) (reading : Reading α) :
    charge left (after .turn reading) = charge left reading + 1 := by
  simp [charge, after, turns, Nat.add_right_comm]

@[simp] theorem charge_call (left : α → Nat) (name : String) (depth : UInt64)
    (reading : Reading α) :
    charge left (after (.call name depth) reading) = charge left reading := by
  simp [charge, after, turns]

@[simp] theorem charge_walkAt (left : α → Nat) (depth : UInt64) (reading : Reading α) :
    charge left (walkAt depth reading) = charge left reading := by
  simp [charge, walkAt, turns]

/-- What is made of the value costs nothing, if it leaves as much. -/
private theorem charge_map (f : α → β) (hf : ∀ value, left' (f value) = left value)
    (reading : Reading α) :
    charge left' (reading.map f) = charge left reading := by
  rw [charge, charge, Reading.map]
  cases reading.outcome with
  | error fault => rfl
  | ok value =>
    show _ + left' (f value) = _
    rw [hf]

/-- The second of two readings may use up what the first leaves. -/
theorem charge_andThen_le {reading : Reading α} {next : α → Reading β}
    (hnext : ∀ value, charge left' (next value) ≤ left value) :
    charge left' (reading.andThen next) ≤ charge left reading := by
  cases h : reading.outcome with
  | error fault =>
    rw [andThen_of_error h, charge]
    exact turns_le_charge left reading
  | ok value =>
    have hvalue := hnext value
    -- What the first leaves is no longer left, but the second uses up no more than that
    rw [andThen_of_ok h]
    simp only [charge, h, turns, List.count_append] at hvalue ⊢
    omega

end Charge

/-! ## Bounded readings -/

/-- A reading that keeps to a limit, with so many walks around it, and uses up so much at most. -/
structure Bounded {α : Type} (limit : UInt64) (walks : Nat) (left : α → Nat) (most : Nat)
    (reading : Reading α) : Prop where
  orderly : Orderly limit walks reading.moves
  charge_le : charge left reading ≤ most

namespace Bounded

variable {α β : Type} {limit : UInt64} {walks most : Nat} {left : α → Nat} {left' : β → Nat}
  {reading : Reading α}

/-- A reading without moves is bounded by what it leaves. -/
theorem still {outcome : Except Fault α} (h : charge left (.still outcome) ≤ most) :
    Bounded limit walks left most (.still outcome) where
  orderly := .nil walks
  charge_le := h

theorem refuse (wanted : Expectation) (found : Option Token) :
    Bounded limit walks left most (.refuse wanted found) :=
  still (by rw [← Reading.refuse, charge_refuse]; exact Nat.zero_le _)

theorem turn (h : Bounded limit walks left most reading) :
    Bounded limit walks left (most + 1) (after .turn reading) where
  orderly := .turn h.orderly
  charge_le := by simpa using h.charge_le

theorem call (name : String) {depth : UInt64} (hdepth : depth < limit)
    (h : Bounded limit (depth.toNat + 1) left most reading) :
    Bounded limit (depth.toNat + 1) left most (after (.call name depth) reading) where
  orderly := .call name hdepth h.orderly
  charge_le := by simpa using h.charge_le

/-- A walk within the limit keeps the bounds of what it does inside. -/
theorem walkAt {depth : UInt64} (hdepth : depth ≤ limit)
    (h : Bounded limit (depth.toNat + 1) left most reading) :
    Bounded limit depth.toNat left most (reading.walkAt depth) where
  orderly := .walk hdepth h.orderly (.nil _)
  charge_le := by simpa using h.charge_le

/-- What is made of the value keeps the bounds. -/
theorem map (f : α → β) (hf : ∀ value, left' (f value) = left value)
    (h : Bounded limit walks left most reading) :
    Bounded limit walks left' most (reading.map f) where
  orderly := h.orderly
  charge_le := by simpa [charge_map f hf] using h.charge_le

/-- Two readings one after the other keep the bounds, the second with what the first left. -/
theorem andThen {next : α → Reading β} (h : Bounded limit walks left most reading)
    (hnext : ∀ value, Bounded limit walks left' (left value) (next value)) :
    Bounded limit walks left' most (reading.andThen next) where
  orderly := by
    -- The moves of the second reading are there only if the first has a value
    cases hread : reading.outcome with
    | error fault =>
      rw [andThen_of_error hread]
      exact h.orderly
    | ok value =>
      rw [andThen_of_ok hread]
      exact h.orderly.append (hnext value).orderly
  charge_le := Nat.le_trans (charge_andThen_le fun value => (hnext value).charge_le) h.charge_le

theorem mono {more : Nat} (h : Bounded limit walks left most reading) (hmore : most ≤ more) :
    Bounded limit walks left more reading where
  orderly := h.orderly
  charge_le := Nat.le_trans h.charge_le hmore

end Bounded

/-! ## The functions -/

/-- How many tokens are left behind what was read. -/
def tokensLeft {α : Type} {left : List Token → Prop} (read : α × { rest // left rest }) : Nat :=
  read.2.1.length

variable {limit depth : UInt64} {walks : Nat} {tokens : List Token}

/-- What else is known of the tokens left does not change the bounds. -/
theorem Bounded.widen {α : Type} {left left' : List Token → Prop} {most : Nat}
    (h : ∀ rest, left rest → left' rest) {reading : Reading (α × { rest // left rest })}
    (hreading : Bounded limit walks tokensLeft most reading) :
    Bounded limit walks tokensLeft most (reading.widen h) :=
  hreading.map _ fun _ => rfl

/-- Each turn for a word of a path costs the dot in front of the word. -/
private theorem bounded_words (limit : UInt64) (walks : Nat) (path : String) (tokens : List Token) :
    Bounded limit walks tokensLeft tokens.length (words path tokens) := by
  fun_induction words path tokens with
  | case1 path => exact (Bounded.refuse _ _).turn
  | case2 path name tokens ih => exact (ih.widen _).turn.mono (Nat.le_succ _)
  | case3 path t tokens hword => exact (Bounded.refuse _ _).turn
  | case4 path tokens hend hword hother => exact .still (by simp [tokensLeft])

/-- A walk uses up one less than the tokens, since no loop goes round for the first of them. -/
def WalkBounded (limit depth : UInt64) (tokens : List Token) : Prop :=
  depth ≤ limit → Bounded limit depth.toNat tokensLeft (tokens.length - 1) (walk limit depth tokens)

/-- The arguments of a call use up one more than the tokens, for the turn of the first argument. -/
def ArgumentsBounded (limit depth : UInt64) (tokens : List Token) : Prop :=
  depth < limit → ∀ name args, Bounded limit (depth.toNat + 1) tokensLeft (tokens.length + 1)
    (arguments limit depth name args tokens)

/-- A call is bounded if its arguments are. -/
private theorem bounded_call (h : ArgumentsBounded limit depth tokens) (hdepth : depth < limit)
    (name : String) :
    Bounded limit (depth.toNat + 1) tokensLeft (tokens.length + 1)
      (call limit depth name tokens) := by
  rw [call.eq_def]
  -- The depth is below the limit, so adding one to it cannot overflow
  refine .call name hdepth ?_
  split
  · exact .still (by simp [tokensLeft]; omega)
  · exact h hdepth name []

/-- A walk is bounded if the arguments behind it are. -/
private theorem walkBounded_of_behind
    (h : ∀ rest, Behind rest tokens → ArgumentsBounded limit depth rest) :
    WalkBounded limit depth tokens := by
  intro hdepth
  rw [walk.eq_def]
  -- The walk itself is within the limit; what is left is what it does for its first token
  refine .walkAt hdepth ?_
  cases tokens with
  | nil => exact .refuse _ _
  | cons t tokens =>
    cases t with
    | number value => exact .still (by simp [tokensLeft])
    | word name => exact ((bounded_words limit _ name tokens).widen _).map _ fun _ => rfl
    | function name =>
      show Bounded _ _ _ _ (if limit ≤ depth then _ else _)
      -- A call is not begun at the limit, so its arguments are below it
      by_cases hlimit : limit ≤ depth
      · rw [if_pos hlimit]
        exact .still (by simp)
      · rw [if_neg hlimit]
        cases tokens with
        | nil => exact .refuse _ _
        | cons t tokens =>
          cases t with
          | leftParen =>
            have hargs := h tokens (behind_cons_cons _ _ tokens)
            exact (bounded_call hargs (UInt64.not_le.mp hlimit) name).widen _
          | _ => exact .refuse _ _
    | _ => exact .refuse _ _

/-- Arguments are bounded if walks are, and so are the arguments behind the next comma. -/
private theorem argumentsBounded_of_behind (hwalk : WalkBounded limit (depth + 1) tokens)
    (h : ∀ rest, Behind rest tokens → ArgumentsBounded limit depth rest) :
    ArgumentsBounded limit depth tokens := by
  intro hdepth name args
  have hnext : (depth + 1).toNat = depth.toNat + 1 := toNat_add_one hdepth
  have hlimit : depth + 1 ≤ limit := by
    rw [UInt64.le_iff_toNat_le, hnext]
    exact UInt64.lt_iff_toNat_lt.mp hdepth
  have hwalk := hwalk hlimit
  rw [hnext] at hwalk
  rw [arguments.eq_def]
  -- What the walk leaves pays for all that is read behind it
  refine (hwalk.andThen fun read => ?_).turn.mono (Nat.succ_le_succ (Nat.sub_le _ _))
  obtain ⟨arg, rest, hrest⟩ := read
  cases rest with
  | nil => exact .refuse _ _
  | cons t rest =>
    cases t with
    | rightParen => exact .still (by simp [tokensLeft])
    | comma => exact (h rest hrest.tail hdepth name _).widen _
    | _ => exact .refuse _ _

/-- Walks and the reading of arguments are bounded, at every depth. -/
theorem bounded (limit depth : UInt64) (tokens : List Token) :
    WalkBounded limit depth tokens ∧ ArgumentsBounded limit depth tokens :=
  Descent.induction (WalkBounded limit) (ArgumentsBounded limit)
    (fun _ _ h => walkBounded_of_behind h) (fun _ _ hwalk h => argumentsBounded_of_behind hwalk h)
    depth tokens

/-- Expressions side by side are bounded by the number of the tokens. -/
private theorem bounded_expressions (limit : UInt64) (body : List Expr) (tokens : List Token) :
    Bounded limit 0 (fun _ => 0) tokens.length (expressions limit body tokens) := by
  fun_induction expressions limit body tokens with
  | case1 body => exact .still (by simp)
  | case2 body t tokens ih =>
    -- The turn costs the one token that the walk is not charged for
    have hwalk := (bounded limit 0 (t :: tokens)).1 UInt64.zero_le
    exact (hwalk.andThen fun read => ih read.1 read.2.1 read.2.2).turn

/-- A program is bounded by the number of its tokens. -/
theorem bounded_program (limit : UInt64) (tokens : List Token) :
    Bounded limit 0 (fun _ => 0) tokens.length (program limit tokens) :=
  (bounded_expressions limit [] tokens).map Expr.program fun _ => rfl

/-- A program is read by a descent that walks at depths up to the limit, and that reads calls at
    depths below it, so that there is a next depth.  It has at most one walk more than the limit
    under way at once, its walks take in a token at least when they read an expression, and its
    loops together go round at most as often as there are tokens. -/
theorem program_keeps_to_limit (limit : UInt64) (tokens : List Token) :
    (program limit tokens).outcome = Expr.ofTokens limit.toNat tokens ∧
      (∀ depth, .enter depth ∈ (program limit tokens).moves → depth ≤ limit) ∧
      (∀ name depth, .call name depth ∈ (program limit tokens).moves →
        depth < limit ∧ (depth + 1).toNat = depth.toNat + 1) ∧
      (∀ done, done <+: (program limit tokens).moves →
        ended done ≤ started done ∧ started done ≤ ended done + (limit.toNat + 1)) ∧
      (∀ depth others read, (walk limit depth others).outcome = .ok read →
        ∃ taken, taken ≠ [] ∧ others = taken ++ read.2.1) ∧
      turns (program limit tokens).moves ≤ tokens.length := by
  -- One invariant of the whole reading carries all the bounds
  have hbounded := bounded_program limit tokens
  refine ⟨outcome_program limit tokens, ?depths, ?calls, ?underWay, ?taken, ?turns⟩
  case depths =>
    intro depth hmem
    exact hbounded.orderly.depth_le hmem
  case calls =>
    intro name depth hmem
    have hdepth := hbounded.orderly.depth_lt hmem
    exact ⟨hdepth, toNat_add_one hdepth⟩
  case underWay =>
    intro done hdone
    obtain ⟨hended, hstarted⟩ := hbounded.orderly.within_front (Nat.zero_le _) hdone
    exact ⟨hended, by rwa [Nat.zero_add] at hstarted⟩
  case taken =>
    intro depth others read hread
    -- The rest carries the proof that it is a proper suffix
    exact read.2.2.exists_taken
  case turns =>
    exact Nat.le_trans (turns_le_charge _ _) hbounded.charge_le

/-- The tokens of `f(g(1), a.b)`. -/
def nestedCalls : List Token :=
  [.function "f", .leftParen, .function "g", .leftParen, .number 1, .rightParen, .comma, .word "a",
    .dot, .word "b", .rightParen]

/-- With a limit of two, the number in the inner call is walked over at depth two, with two other
    walks under way. -/
theorem program_keeps_to_limit_nested_calls :
    (.enter 2 ∈ (program 2 nestedCalls).moves ∧ (2 : UInt64) ≤ 2) ∧
      (.call "g" 1 ∈ (program 2 nestedCalls).moves ∧
        (1 : UInt64) < 2 ∧ ((1 : UInt64) + 1).toNat = (1 : UInt64).toNat + 1) ∧
      (∃ done, done <+: (program 2 nestedCalls).moves ∧ started done = 3 ∧ ended done = 0 ∧
        started done ≤ ended done + ((2 : UInt64).toNat + 1)) ∧
      (∃ read, (walk 2 2 [.number 1, .rightParen]).outcome = .ok read ∧
        ∃ taken, taken ≠ [] ∧ [Token.number 1, .rightParen] = taken ++ read.2.1) ∧
      turns (program 2 nestedCalls).moves = 5 ∧
      turns (program 2 nestedCalls).moves ≤ nestedCalls.length := by
  -- Two calls in each other reach the limit, and the walk of the literal is inside both
  have hmoves : (program 2 nestedCalls).moves =
      [.turn, .enter 0, .call "f" 0, .turn, .enter 1, .call "g" 1, .turn, .enter 2] ++
        [.leave, .leave, .turn, .enter 1, .turn, .leave, .leave] := by
    cbv
  obtain ⟨-, hdepths, hcalls, hunderWay, htaken, hturns⟩ := program_keeps_to_limit 2 nestedCalls
  refine ⟨?depth, ?call, ?underWay, ?taken, ?turns, hturns⟩
  case depth =>
    have hmem : .enter 2 ∈ (program 2 nestedCalls).moves := by simp [hmoves]
    exact ⟨hmem, hdepths 2 hmem⟩
  case call =>
    have hmem : .call "g" 1 ∈ (program 2 nestedCalls).moves := by simp [hmoves]
    exact ⟨hmem, hcalls "g" 1 hmem⟩
  case underWay =>
    have hfront := hmoves ▸ List.prefix_append _ _
    exact ⟨_, hfront, rfl, rfl, (hunderWay _ hfront).2⟩
  case taken =>
    have hread : (walk 2 2 [.number 1, .rightParen]).outcome =
        .ok (.literal 1, ⟨[.rightParen], behind_cons _ _⟩) := by
      rw [walk.eq_def]
      rfl
    exact ⟨_, hread, htaken 2 _ _ hread⟩
  case turns =>
    rw [hmoves]
    rfl

end Descent

end Reckoner
