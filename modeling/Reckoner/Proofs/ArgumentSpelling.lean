import Reckoner.CommandLine.Arguments

/-!
# Invocations as arguments

How an invocation is asked for: the action, then each option by its long name with its
value attached, and behind the mark that ends the options the formula, which may then
start with anything.

## Key results

- `CommandLine.Arguments.step_attached`: an option with its value attached is given
- `CommandLine.parse_arguments`: the arguments for an invocation are read as that invocation
-/

namespace Reckoner.CommandLine

/-! ### Texts up to a mark -/

section

variable {mark : Char} {front : List Char}

private theorem bne_of_mem (h : mark ∉ front) {c : Char} (hc : c ∈ front) : (c != mark) = true :=
  bne_iff_ne.2 fun heq => h (heq ▸ hc)

/-- Reading up to the first mark gives what stands in front of it. -/
private theorem takeWhile_mark (h : mark ∉ front) (rest : List Char) :
    (front ++ mark :: rest).takeWhile (· != mark) = front := by
  rw [List.takeWhile_append_of_pos fun _ hc => bne_of_mem h hc]
  simp

/-- Behind what stands in front of the first mark there is the mark. -/
private theorem dropWhile_mark (h : mark ∉ front) (rest : List Char) :
    (front ++ mark :: rest).dropWhile (· != mark) = mark :: rest := by
  rw [List.dropWhile_append_of_pos fun _ hc => bne_of_mem h hc]
  simp

/-- The first mark in a text tells what stands in front of it and behind it. -/
theorem append_mark_inj {front' rest rest' : List Char} (h : mark ∉ front) (h' : mark ∉ front')
    (heq : front ++ mark :: rest = front' ++ mark :: rest') : front = front' ∧ rest = rest' := by
  -- The first mark ends the front part on both sides
  have hfront := congrArg (List.takeWhile (· != mark)) heq
  have hrest := congrArg (List.dropWhile (· != mark)) heq
  rw [takeWhile_mark h, takeWhile_mark h'] at hfront
  rw [dropWhile_mark h, dropWhile_mark h'] at hrest
  exact ⟨hfront, (List.cons.inj hrest).2⟩

end

/-! ### Spellings -/

/-- The name of a format. -/
def Format.name : Format → String
  | text => "text"
  | json => "json"

/-- The long name of an option that takes a value. -/
def Setting.name : Setting → String
  | format => "format"
  | limit => "max-depth"
  | context => "context"

/-- An option and its value as one argument. -/
def Setting.attached (setting : Setting) (value : String) : String :=
  "--" ++ setting.name ++ "=" ++ value

namespace Invocation

/-- The options of an invocation as arguments. -/
def options (i : Invocation) : List String :=
  [Setting.format.attached i.format.name] ++ [Setting.limit.attached (toString i.limit)]
    ++ i.context.toList.map Setting.context.attached
    ++ (if i.verbose then ["--verbose"] else [])

/-- Arguments that ask for an invocation. -/
def arguments (i : Invocation) : List String :=
  i.action.name :: (i.options ++ ["--", i.formula])

/-- What can be asked for: the limit fits into a word, and only an evaluation has data,
    from a file with a name. -/
structure Askable (i : Invocation) : Prop where
  limit : i.limit < UInt64.size
  context : ∀ file ∈ i.context, i.action = .eval ∧ file ≠ ""

end Invocation

/-! ### Options one by one -/

namespace Options

/-- A format is told by its name. -/
private theorem format?_name (format : Format) : format? format.name = some format := by
  cases format <;> rfl

/-- The digits of a number are read as that number. -/
private theorem limit?_toString {n : Nat} (h : n < UInt64.size) : limit? (toString n) = some n := by
  have hdigits : (toString n).toList = Nat.toDigits 10 n := Nat.toList_repr
  have hall : (Nat.toDigits 10 n).all Char.isDigit = true :=
    List.all_eq_true.2 fun _ hc => Nat.isDigit_of_mem_toDigits (by decide) (by decide) hc
  -- No digit is the plus sign that may stand in front
  have hplus : ∀ rest, Nat.toDigits 10 n ≠ '+' :: rest := by
    intro rest heq
    rw [heq] at hall
    simp at hall
  have hempty : (Nat.toDigits 10 n).isEmpty = false :=
    List.isEmpty_eq_false_iff.2 Nat.toDigits_ne_nil
  simp only [limit?, hdigits, hempty, hall, Nat.ofDigitChars_ten_toDigits, Bool.not_true,
    Bool.or_self, Bool.false_eq_true, if_false, if_pos h]

end Options

namespace Arguments

/-- A command line read up to the options behind an action. -/
def behindAction (action : Action) (options : Options) : Arguments :=
  ⟨.none, .behind action options none, none, false⟩

/-- The first word is the action. -/
private theorem step_action (action : Action) :
    start.step action.name = .ok (behindAction action .none) := by
  cases action <;> rfl

/-- What stands behind two hyphens, up to an equals sign, is the name of an option. -/
private theorem word_of_long {a : Arguments} {name value : List Char} {setting : Setting}
    (hname : '=' ∉ name) (hlong : a.long? (String.ofList name) = some setting) :
    a.word (name ++ '=' :: value) = a.give setting (String.ofList value) := by
  simp only [word, takeWhile_mark hname, dropWhile_mark hname, hlong]

/-- An option with its value attached is given that value. -/
theorem step_attached {action : Action} {options options' : Options} {setting : Setting}
    {value : String} (htakes : setting = .context → action = .eval)
    (hgive : options.give setting value = .ok options') :
    (behindAction action options).step (setting.attached value) =
      .ok (behindAction action options') := by
  have htext : (setting.attached value).toList =
      '-' :: '-' :: (setting.name.toList ++ '=' :: value.toList) := by
    simp [Setting.attached]
  have hlong : (behindAction action options).long? (String.ofList setting.name.toList) =
      some setting := by
    cases setting with
    | format => rfl
    | limit => rfl
    | context =>
      obtain rfl := htakes rfl
      rfl
  -- Two hyphens and a text behind them: neither the mark, nor letters, nor an operand
  have hword : (behindAction action options).step (setting.attached value) =
      (behindAction action options).word (setting.name.toList ++ '=' :: value.toList) := by
    unfold step
    rw [htext]
    cases setting <;> rfl
  have hname : '=' ∉ setting.name.toList := by
    cases setting <;> decide
  rw [hword, word_of_long hname hlong, String.ofList_toList]
  show (options.give setting value).map _ = _
  rw [hgive]
  rfl

/-- The option that asks for a log is understood unless it was given before. -/
private theorem step_verbose (action : Action) {options : Options} (h : options.verbose = false) :
    (behindAction action options).step "--verbose" =
      .ok (behindAction action { options with verbose := true }) := by
  -- The switch is refused only where it has been given before
  have hset : options.setVerbose = .ok { options with verbose := true } := by
    rw [Options.setVerbose, h]
    rfl
  show (options.setVerbose).map _ = _
  rw [hset]
  rfl

/-- Arguments are read in front of others, which are read from where the first ended. -/
private theorem foldlM_append_of_ok {a b c : Arguments} {front behind : List String}
    (hfront : front.foldlM step a = .ok b) (hbehind : behind.foldlM step b = .ok c) :
    (front ++ behind).foldlM step a = .ok c := by
  rw [List.foldlM_append, hfront]
  exact hbehind

/-- An option with its value attached, as the only argument. -/
private theorem foldlM_attached {action : Action} {options options' : Options} {setting : Setting}
    {value : String} (htakes : setting = .context → action = .eval)
    (hgive : options.give setting value = .ok options') :
    [setting.attached value].foldlM step (behindAction action options) =
      .ok (behindAction action options') := by
  rw [List.foldlM_cons, step_attached htakes hgive]
  rfl

/-- The options of an invocation are read one after the other. -/
private theorem foldlM_options {i : Invocation} (h : i.Askable) :
    i.options.foldlM step (behindAction i.action .none) =
      .ok (behindAction i.action ⟨some i.format, some i.limit, i.context, i.verbose⟩) := by
  -- Each option is given to options that do not have it yet
  have hformat : Options.none.give .format i.format.name =
      .ok ⟨some i.format, none, none, false⟩ := by
    simp only [Options.give, Options.format?_name, Options.none]
  have hlimit : Options.give ⟨some i.format, none, none, false⟩ .limit (toString i.limit) =
      .ok ⟨some i.format, some i.limit, none, false⟩ := by
    simp only [Options.give, Options.limit?_toString h.limit]
  have hcontext : (i.context.toList.map Setting.context.attached).foldlM step
      (behindAction i.action ⟨some i.format, some i.limit, none, false⟩) =
      .ok (behindAction i.action ⟨some i.format, some i.limit, i.context, false⟩) := by
    cases hfile : i.context with
    | none => rfl
    | some file =>
      obtain ⟨haction, hnonempty⟩ := h.context file hfile
      have hgive : Options.give ⟨some i.format, some i.limit, none, false⟩ .context file =
          .ok ⟨some i.format, some i.limit, some file, false⟩ := by
        simp only [Options.give, String.isEmpty_eq_false_iff.2 hnonempty, Bool.false_eq_true,
          if_false]
      exact foldlM_attached (fun _ => haction) hgive
  have hverbose : (if i.verbose then ["--verbose"] else []).foldlM step
      (behindAction i.action ⟨some i.format, some i.limit, i.context, false⟩) =
      .ok (behindAction i.action ⟨some i.format, some i.limit, i.context, i.verbose⟩) := by
    cases i.verbose with
    | false => rfl
    | true =>
      rw [if_pos rfl, List.foldlM_cons, step_verbose i.action rfl]
      rfl
  exact foldlM_append_of_ok
    (foldlM_append_of_ok
      (foldlM_append_of_ok (foldlM_attached nofun hformat) (foldlM_attached nofun hlimit)) hcontext)
    hverbose

end Arguments

/-- The arguments for an invocation are read as that invocation. -/
theorem parse_arguments {i : Invocation} (h : i.Askable) : parse i.arguments = .ok i := by
  -- Behind the mark every argument is positional, whatever the formula starts with
  have hmark : ["--", i.formula].foldlM Arguments.step
      (Arguments.behindAction i.action ⟨some i.format, some i.limit, i.context, i.verbose⟩) =
      .ok ⟨.none, .behind i.action ⟨some i.format, some i.limit, i.context, i.verbose⟩
        (some i.formula), none, true⟩ := rfl
  rw [parse, Invocation.arguments, List.foldlM_cons, Arguments.step_action]
  show ((i.options ++ _).foldlM _ _) >>= _ = _
  rw [Arguments.foldlM_append_of_ok (Arguments.foldlM_options h) hmark]
  show Except.ok { i with verbose := i.verbose || false } = _
  rw [Bool.or_false]

end Reckoner.CommandLine
