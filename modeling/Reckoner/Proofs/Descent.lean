import Reckoner.Proofs.DraftSteps
import Reckoner.Proofs.NestingThreshold

/-!
# Reading by descent

A draft keeps its open calls on a stack of its own.  The same programs can be read without one,
by functions that call each other: `walk` reads an expression, `call` a call behind its opening
parenthesis, `arguments` goes round for each argument and walks one level deeper, and `words`
goes round for each word of a path.  Levels are counted in 64 bits, as the limit is.  Each
function also notes what it does, so that one can say how far down the functions go.

## Key results

- `Descent.induction`: what passes from the functions that are called to those that call them
- `Descent.likeDrafts`: walks and the reading of arguments read what drafts read
- `Descent.outcome_program`: descent and drafts give the same program, or fail with the same fault
-/

namespace Reckoner

namespace Descent

/-! ## Readings -/

/-- A step of a reading that is worth noting. -/
inductive Move where
  /-- An expression at this depth starts to be walked over. -/
  | enter (depth : UInt64)
  /-- The walk that started last is over, whether it read an expression or failed. -/
  | leave
  /-- The reading of a call at this depth starts. -/
  | call (name : String) (depth : UInt64)
  /-- A loop goes round, for an expression of the program, an argument or a word of a path. -/
  | turn
deriving DecidableEq

/-- A reading: what it did, and what it read or the fault that ended it. -/
structure Reading (α : Type) where
  moves : List Move
  outcome : Except Fault α

namespace Reading

variable {α β : Type}

/-- A reading without moves. -/
def still (outcome : Except Fault α) : Reading α :=
  ⟨[], outcome⟩

/-- A refusal of a token, or of the end, where something else was expected. -/
def refuse (wanted : Expectation) (found : Option Token) : Reading α :=
  still (Draft.refuse wanted found)

/-- A reading behind a move. -/
def after (m : Move) (reading : Reading α) : Reading α :=
  ⟨m :: reading.moves, reading.outcome⟩

/-- A reading as a walk at a depth. -/
def walkAt (depth : UInt64) (reading : Reading α) : Reading α :=
  ⟨.enter depth :: (reading.moves ++ [.leave]), reading.outcome⟩

/-- A reading with something made of what it read. -/
def map (f : α → β) (reading : Reading α) : Reading β :=
  ⟨reading.moves, reading.outcome.map f⟩

/-- A reading that is said to leave the tokens of a wider kind behind. -/
def widen {left left' : List Token → Prop} (h : ∀ rest, left rest → left' rest)
    (reading : Reading (α × { rest // left rest })) : Reading (α × { rest // left' rest }) :=
  reading.map fun (value, ⟨rest, hrest⟩) => (value, ⟨rest, h rest hrest⟩)

/-- One reading after the other, the second with what the first read. -/
def andThen (reading : Reading α) (next : α → Reading β) : Reading β :=
  match reading.outcome with
  | .error fault => ⟨reading.moves, .error fault⟩
  | .ok value => ⟨reading.moves ++ (next value).moves, (next value).outcome⟩

/-- A reading that fails is the end of the whole. -/
theorem andThen_of_error {reading : Reading α} {fault : Fault} (h : reading.outcome = .error fault)
    (next : α → Reading β) : reading.andThen next = ⟨reading.moves, .error fault⟩ := by
  rw [andThen, h]

/-- A reading that has a value goes on with the next, and both move. -/
theorem andThen_of_ok {reading : Reading α} {value : α} (h : reading.outcome = .ok value)
    (next : α → Reading β) :
    reading.andThen next = ⟨reading.moves ++ (next value).moves, (next value).outcome⟩ := by
  rw [andThen, h]

/-- The outcome of two readings is that of the first, and then that of the second. -/
private theorem outcome_andThen (reading : Reading α) (next : α → Reading β) :
    (reading.andThen next).outcome = reading.outcome.bind fun value => (next value).outcome := by
  cases h : reading.outcome with
  | error fault => rw [andThen_of_error h]; rfl
  | ok value => rw [andThen_of_ok h]; rfl

end Reading

open Reading

/-! ## Tokens that are left -/

/-- These tokens are left of others when at least one was taken. -/
structure Behind (rest tokens : List Token) : Prop where
  suffix : rest <:+ tokens
  length_lt : rest.length < tokens.length

/-- What is left of the tokens behind the first is left behind it. -/
theorem Behind.of_suffix {rest others : List Token} (h : rest <:+ others) (t : Token) :
    Behind rest (t :: others) where
  suffix := h.trans (List.suffix_cons t others)
  length_lt := Nat.lt_succ_of_le h.length_le

theorem behind_cons (t : Token) (rest : List Token) : Behind rest (t :: rest) :=
  .of_suffix List.suffix_rfl t

theorem Behind.trans {rest others tokens : List Token} (h : Behind rest others)
    (hothers : Behind others tokens) : Behind rest tokens where
  suffix := h.suffix.trans hothers.suffix
  length_lt := Nat.lt_trans h.length_lt hothers.length_lt

theorem behind_cons_cons (t u : Token) (rest : List Token) : Behind rest (t :: u :: rest) :=
  (behind_cons u rest).trans (behind_cons t (u :: rest))

theorem Behind.tail {t : Token} {rest tokens : List Token} (h : Behind (t :: rest) tokens) :
    Behind rest tokens :=
  (behind_cons t rest).trans h

/-- What is left was cut off behind some tokens. -/
theorem Behind.exists_taken {rest tokens : List Token} (h : Behind rest tokens) :
    ∃ taken, taken ≠ [] ∧ tokens = taken ++ rest := by
  obtain ⟨taken, rfl⟩ := h.suffix
  refine ⟨taken, ?_, rfl⟩
  rintro rfl
  exact absurd h.length_lt (Nat.lt_irrefl _)

/-! ## The functions -/

/-- Read the words that go on with a path. -/
def words (path : String) : (tokens : List Token) → Reading (String × { rest // rest <:+ tokens })
  | [.dot] => after .turn (refuse .segment none)
  | .dot :: .word name :: tokens =>
    after .turn ((words (path ++ "." ++ name) tokens).widen fun _ hrest =>
      (hrest.trans (List.suffix_cons _ _)).trans (List.suffix_cons _ _))
  | .dot :: t :: _ => after .turn (refuse .segment (some t))
  | tokens => still (.ok (path, ⟨tokens, List.suffix_rfl⟩))

mutual

/-- Read an expression at a depth. -/
def walk (limit depth : UInt64) (tokens : List Token) :
    Reading (Expr × { rest // Behind rest tokens }) :=
  walkAt depth <|
    match tokens with
    | [] => refuse .expression none
    | .number value :: rest => still (.ok (.literal value, ⟨rest, behind_cons _ rest⟩))
    | .word name :: tokens =>
      ((words name tokens).widen fun _ hrest => .of_suffix hrest _).map fun (dotted, rest) =>
        (.path dotted, rest)
    | .function name :: tokens =>
      -- Looked at here and not where the depth is counted up, as calls start here only
      if limit ≤ depth then still (.error (.nestedTooDeep limit.toNat))
      else
        match tokens with
        | [] => refuse .opening none
        | .leftParen :: tokens =>
          (call limit depth name tokens).widen fun _ hrest =>
            hrest.trans (behind_cons_cons _ _ tokens)
        | t :: _ => refuse .opening (some t)
    | t :: _ => refuse .expression (some t)
termination_by (tokens.length, 0)

/-- Read a call at a depth, behind its opening parenthesis. -/
def call (limit depth : UInt64) (name : String) (tokens : List Token) :
    Reading (Expr × { rest // Behind rest tokens }) :=
  after (.call name depth) <|
    match tokens with
    | .rightParen :: rest => still (.ok (.call name [], ⟨rest, behind_cons _ rest⟩))
    | tokens => arguments limit depth name [] tokens
termination_by (tokens.length, 2)

/-- Read the arguments of a call behind those that were read, up to its closing parenthesis. -/
def arguments (limit depth : UInt64) (name : String) (args : List Expr) (tokens : List Token) :
    Reading (Expr × { rest // Behind rest tokens }) :=
  after .turn <| (walk limit (depth + 1) tokens).andThen fun (arg, ⟨rest, hrest⟩) =>
    match rest, hrest with
    | .rightParen :: rest, hrest =>
      still (.ok (.call name (args ++ [arg]), ⟨rest, hrest.tail⟩))
    | .comma :: others, hothers =>
      (arguments limit depth name (args ++ [arg]) others).widen fun _ hrest =>
        hrest.trans hothers.tail
    | [], _ => refuse .separator none
    | t :: _, _ => refuse .separator (some t)
termination_by (tokens.length, 1)
decreasing_by
  · exact .right _ Nat.zero_lt_one
  · exact .left _ _ hothers.tail.length_lt

end

/-- Read expressions side by side, behind those that were read. -/
def expressions (limit : UInt64) (body : List Expr) : List Token → Reading (List Expr)
  | [] => still (.ok body)
  | t :: tokens =>
    after .turn <| (walk limit 0 (t :: tokens)).andThen fun (e, ⟨rest, _⟩) =>
      expressions limit (body ++ [e]) rest
termination_by tokens => tokens.length
decreasing_by exact Behind.length_lt (by assumption)

/-- Read a program. -/
def program (limit : UInt64) (tokens : List Token) : Reading Expr :=
  (expressions limit [] tokens).map .program

/-- What holds of walks and of the reading of arguments at all depths, because it passes from
    what is read behind at least one token, and from the walk that reads the next argument. -/
theorem induction (walked argued : UInt64 → List Token → Prop)
    (walk : ∀ depth tokens, (∀ rest, Behind rest tokens → argued depth rest) → walked depth tokens)
    (arguments : ∀ depth tokens, walked (depth + 1) tokens →
      (∀ rest, Behind rest tokens → argued depth rest) → argued depth tokens)
    (depth : UInt64) (tokens : List Token) : walked depth tokens ∧ argued depth tokens := by
  induction hlength : tokens.length using Nat.strongRecOn generalizing depth tokens with
  | ind n ih =>
    subst hlength
    have hrest (depth : UInt64) (rest : List Token) (h : Behind rest tokens) : argued depth rest :=
      (ih rest.length h.length_lt depth rest rfl).2
    -- The walk of an argument starts at the same tokens, so it comes first
    exact ⟨walk depth tokens (hrest depth),
      arguments depth tokens (walk (depth + 1) tokens (hrest (depth + 1))) (hrest depth)⟩

/-- Above a depth below the limit there is another one. -/
theorem toNat_add_one {limit depth : UInt64} (h : depth < limit) :
    (depth + 1).toNat = depth.toNat + 1 := by
  have := limit.toNat_lt
  have := UInt64.lt_iff_toNat_lt.mp h
  rw [UInt64.toNat_add]
  exact Nat.mod_eq_of_lt (by simp; omega)

end Descent

/-! ## Drafts read on -/

namespace Draft

variable {limit : Nat} {body : List Expr} {calls : List OpenCall} {phase : Phase}

/-- The expressions of a draft when all tokens were taken in. -/
def readOn (limit : Nat) (d : Draft) (tokens : List Token) : Except Fault (List Expr) :=
  (d.run limit tokens).bind finish

/-- The expressions of a draft when all tokens were taken in, the first of which has to start an
    expression. -/
def startOn (limit : Nat) (d : Draft) : List Token → Except Fault (List Expr)
  | [] => refuse .expression none
  | t :: tokens => (d.begin limit t).bind fun next => next.readOn limit tokens

/-- A draft reads on by a step and goes on from there. -/
private theorem readOn_cons (limit : Nat) (d : Draft) (t : Token) (tokens : List Token) :
    d.readOn limit (t :: tokens) = (d.step limit t).bind fun next => next.readOn limit tokens := by
  rw [readOn, run]
  cases d.step limit t with
  | error fault => rfl
  | ok next => rfl

/-- Behind a comma an expression has to start, as it does in any other phase. -/
private theorem readOn_argument (phase : Phase) (tokens : List Token) :
    readOn limit ⟨body, calls, .argument⟩ tokens = startOn limit ⟨body, calls, phase⟩ tokens := by
  cases tokens with
  | nil => rfl
  | cons t tokens =>
    rw [readOn_cons]
    cases t <;> cases calls <;> rfl

end Draft

namespace Descent

open Draft
open Reading hiding refuse

/-- The words of a path are read as by a draft that has read a path. -/
private theorem readOn_path (limit : Nat) (body : List Expr) (calls : List OpenCall) (path : String)
    (tokens : List Token) :
    readOn limit ⟨body, calls, .path path⟩ tokens =
      (words path tokens).outcome.bind fun read =>
        (deliver ⟨body, calls, .between⟩ (.path read.1)).readOn limit read.2.1 := by
  fun_induction words path tokens with
  | case1 path => rfl
  | case2 path name tokens ih =>
    have hsteps : readOn limit ⟨body, calls, .path path⟩ (.dot :: .word name :: tokens) =
        readOn limit ⟨body, calls, .path (path ++ "." ++ name)⟩ tokens := rfl
    rw [hsteps, ih]
    simp only [Reading.after, Reading.widen, Reading.map]
    cases (words (path ++ "." ++ name) tokens).outcome with
    | error fault => rfl
    | ok read => rfl
  | case3 path t tokens hword =>
    cases t with
    | word name => exact absurd rfl (hword name)
    | _ => rfl
  | case4 path tokens hend hword hother =>
    -- No dot goes on with the path, so the draft takes it for finished
    cases tokens with
    | nil => cases calls <;> rfl
    | cons t tokens =>
      -- With `t` a dot one of the cases above applies
      have hdot : t ≠ .dot := by
        rintro rfl
        cases tokens with
        | nil => exact hend rfl
        | cons t tokens => exact hother t tokens rfl
      have hsettle : (settle ⟨body, calls, .path path⟩).phase = .between := phase_deliver _ _
      show _ = readOn limit (deliver ⟨body, calls, .between⟩ (.path path)) (t :: tokens)
      rw [readOn_cons, readOn_cons, step_of_settle_between hsettle hdot,
        step_of_settle_between (by simp) hdot, settle_deliver]
      rfl

/-- The expressions of a draft that takes in what was read, and then the tokens left behind it. -/
def readBehind {left : List Token → Prop} (limit : Nat) (d : Draft)
    (outcome : Except Fault (Expr × { rest // left rest })) : Except Fault (List Expr) :=
  outcome.bind fun read => (d.deliver read.1).readOn limit read.2.1

/-- What else is known of the tokens left does not change how a draft reads on. -/
private theorem readBehind_widen {left left' : List Token → Prop}
    (h : ∀ rest, left rest → left' rest)
    (limit : Nat) (d : Draft) (reading : Reading (Expr × { rest // left rest })) :
    readBehind limit d (reading.widen h).outcome = readBehind limit d reading.outcome := by
  -- What is known of the rest of the tokens has no part in the outcome
  rw [Reading.widen, Reading.map]
  cases reading.outcome with
  | error fault => rfl
  | ok read => rfl

/-- A walk reads what a draft reads where an expression has to start. -/
def WalksLikeDrafts (limit depth : UInt64) (tokens : List Token) : Prop :=
  ∀ body calls phase, calls.length = depth.toNat →
    startOn limit.toNat ⟨body, calls, phase⟩ tokens =
      readBehind limit.toNat ⟨body, calls, .between⟩ (walk limit depth tokens).outcome

/-- Below the limit the arguments of a call are read as by a draft that has the call open. -/
def ArguesLikeDrafts (limit depth : UInt64) (tokens : List Token) : Prop :=
  depth < limit → ∀ body calls phase name args, calls.length = depth.toNat →
    startOn limit.toNat ⟨body, ⟨name, args.reverse⟩ :: calls, phase⟩ tokens =
      readBehind limit.toNat ⟨body, calls, .between⟩
        (arguments limit depth name args tokens).outcome

variable {limit depth : UInt64} {tokens : List Token}

/-- Behind an opening parenthesis a draft reads a call as the descent does. -/
private theorem readOn_firstArgument (h : ArguesLikeDrafts limit depth tokens)
    (hdepth : depth < limit) (body : List Expr) {calls : List OpenCall} (name : String)
    (hcalls : calls.length = depth.toNat) :
    readOn limit.toNat ⟨body, ⟨name, []⟩ :: calls, .firstArgument⟩ tokens =
      readBehind limit.toNat ⟨body, calls, .between⟩ (call limit depth name tokens).outcome := by
  have hargs : startOn limit.toNat ⟨body, ⟨name, []⟩ :: calls, .firstArgument⟩ tokens = _ :=
    h hdepth body calls .firstArgument name [] hcalls
  rw [call.eq_def]
  -- Only a closing parenthesis ends the call here; all else starts an argument
  cases tokens with
  | nil => exact hargs
  | cons t rest =>
    cases t with
    | rightParen => rfl
    | _ =>
      rw [readOn_cons]
      exact hargs

/-- A walk reads as a draft does if arguments are read so behind it. -/
private theorem walksLikeDrafts_of_behind
    (h : ∀ rest, Behind rest tokens → ArguesLikeDrafts limit depth rest) :
    WalksLikeDrafts limit depth tokens := by
  intro body calls phase hcalls
  rw [walk.eq_def]
  -- One case for each token that may start an expression, as in both readers
  cases tokens with
  | nil => rfl
  | cons t tokens =>
    cases t with
    | number value => cases calls <;> rfl
    | word name =>
      show readOn limit.toNat ⟨body, calls, .path name⟩ tokens = _
      rw [readOn_path]
      simp only [Reading.walkAt, Reading.widen, Reading.map, readBehind]
      cases (words name tokens).outcome <;> rfl
    | function name =>
      simp only [startOn, begin, hcalls, ← UInt64.le_iff_toNat_le]
      -- The depth of the walk is the number of open calls, so both look at the same limit
      by_cases hlimit : limit ≤ depth
      · simp only [hlimit, if_true]
        rfl
      · simp only [hlimit, if_false]
        cases tokens with
        | nil => rfl
        | cons t tokens =>
          cases t with
          | leftParen =>
            have hargs := h tokens (behind_cons_cons _ _ tokens)
            show readOn limit.toNat ⟨body, ⟨name, []⟩ :: calls, .firstArgument⟩ tokens = _
            rw [readOn_firstArgument hargs (UInt64.not_le.mp hlimit) body name hcalls]
            exact (readBehind_widen _ _ _ _).symm
          | _ => rfl
    | _ => rfl

/-- Arguments are read as a draft does if walks are, and so are the arguments behind the next comma.
    -/
private theorem arguesLikeDrafts_of_behind (hwalk : WalksLikeDrafts limit (depth + 1) tokens)
    (h : ∀ rest, Behind rest tokens → ArguesLikeDrafts limit depth rest) :
    ArguesLikeDrafts limit depth tokens := by
  intro hdepth body calls phase name args hcalls
  -- The call is open now, so the argument has one open call more around it
  have hopen : (⟨name, args.reverse⟩ :: calls : List OpenCall).length = (depth + 1).toNat := by
    rw [List.length_cons, hcalls, toNat_add_one hdepth]
  rw [hwalk body _ phase hopen, arguments.eq_def]
  simp only [Reading.after, outcome_andThen]
  cases (walk limit (depth + 1) tokens).outcome with
  | error fault => rfl
  | ok read =>
    obtain ⟨arg, rest, hrest⟩ := read
    have hargs : arg :: args.reverse = (args ++ [arg]).reverse := by simp
    show readOn limit.toNat ⟨body, ⟨name, arg :: args.reverse⟩ :: calls, .between⟩ rest = _
    rw [hargs]
    cases rest with
    | nil => rfl
    | cons t rest =>
      cases t with
      | rightParen =>
        show (deliver ⟨body, calls, .between⟩
          (.call name (args ++ [arg]).reverse.reverse)).readOn limit.toNat rest = _
        rw [List.reverse_reverse]
        rfl
      | comma =>
        have hmore := h rest hrest.tail hdepth body calls .argument name (args ++ [arg]) hcalls
        show readOn limit.toNat ⟨body, ⟨name, (args ++ [arg]).reverse⟩ :: calls, .argument⟩ rest = _
        rw [readOn_argument .argument, hmore]
        exact (readBehind_widen _ _ _ _).symm
      | _ => rfl

/-- Walks and the reading of arguments read what drafts read, at every depth. -/
theorem likeDrafts (limit depth : UInt64) (tokens : List Token) :
    WalksLikeDrafts limit depth tokens ∧ ArguesLikeDrafts limit depth tokens :=
  Descent.induction (WalksLikeDrafts limit) (ArguesLikeDrafts limit)
    (fun _ _ h => walksLikeDrafts_of_behind h)
    (fun _ _ hwalk h => arguesLikeDrafts_of_behind hwalk h) depth tokens

/-- Expressions side by side are read as by a draft without open calls. -/
theorem readOn_eq_expressions (limit : UInt64) (body : List Expr) (tokens : List Token) :
    readOn limit.toNat ⟨body.reverse, [], .between⟩ tokens =
      (expressions limit body tokens).outcome := by
  fun_induction expressions limit body tokens with
  | case1 body => simp [readOn, run, finish, conclude, Reading.still, Except.bind]
  | case2 body t tokens ih =>
    have hwalk := (likeDrafts limit 0 (t :: tokens)).1 body.reverse [] .between rfl
    -- Outside of calls the token behind an expression starts another one
    rw [readOn_cons]
    show startOn limit.toNat ⟨body.reverse, [], .between⟩ (t :: tokens) = _
    rw [hwalk]
    simp only [Reading.after, outcome_andThen, readBehind]
    cases h : (walk limit 0 (t :: tokens)).outcome with
    | error fault => rfl
    | ok read =>
      obtain ⟨e, rest, hrest⟩ := read
      have hbody : e :: body.reverse = (body ++ [e]).reverse := by simp
      show readOn limit.toNat ⟨e :: body.reverse, [], .between⟩ rest = _
      rw [hbody]
      exact ih e rest hrest

/-- Descent and drafts give the same program, or fail with the same fault. -/
theorem outcome_program (limit : UInt64) (tokens : List Token) :
    (program limit tokens).outcome = Expr.ofTokens limit.toNat tokens := by
  rw [program, Reading.map, ← readOn_eq_expressions, Expr.ofTokens, Expr.listOfTokens_eq_bind]
  rfl

end Descent

end Reckoner
