import Reckoner.Draft

/-!
# Command line arguments

What the arguments of a command line ask for.  They name an action and give it a
formula; options may stand before and after the action, and one behind the action
counts before the same one in front of it.

* `CommandLine.Invocation` is what is asked for.
* `CommandLine.parse` reads the arguments one by one; it stops at the first that
  is misplaced, or where help is asked for.

An argument that starts with a hyphen is an option, unless it is a single hyphen
or stands behind `--`.  An option that takes a value takes what follows its letter
or its equals sign, else the next argument, which must not be an option itself.
-/

namespace Reckoner.CommandLine

/-- The forms of output. -/
inductive Format where
  | text
  | json
deriving DecidableEq

/-- What is done with a formula. -/
inductive Action where
  | eval
  | validate
  | tokens
  | ast
deriving DecidableEq

/-- The name of an action. -/
def Action.name : Action → String
  | eval => "eval"
  | validate => "validate"
  | tokens => "tokens"
  | ast => "ast"

/-- The action of a name. -/
def Action.named? (name : String) : Option Action :=
  if name = "eval" then some .eval
  else if name = "validate" then some .validate
  else if name = "tokens" then some .tokens
  else if name = "ast" then some .ast
  else none

/-- The options that take a value. -/
inductive Setting where
  | format
  | limit
  | context

/-- The options given in front of the action, or behind it. -/
structure Options where
  format : Option Format
  limit : Option Nat
  context : Option String
  verbose : Bool

/-- What a command line asks for. -/
structure Invocation where
  action : Action
  formula : String
  format : Format
  limit : Nat
  /-- the name of the file with the data -/
  context : Option String
  verbose : Bool

/-- What help is asked for: the whole program, one of its actions, or help itself. -/
inductive Topic where
  | program
  | action (action : Action)
  | help

/-- The topic that a word behind `help` names. -/
def Topic.named? (name : String) : Option Topic :=
  if name = "help" then some .help else (Action.named? name).map .action

/-- Why there is nothing to do. -/
inductive Stop where
  | help (topic : Topic)
  | misuse (reason : String)

namespace Options

/-- No options. -/
def none : Options := ⟨.none, .none, .none, false⟩

/-- The format of a name; upper and lower case differ. -/
def format? (text : String) : Option Format :=
  if text = "text" then some .text
  else if text = "json" then some .json
  else .none

/-- A number below `2 ^ 64`, with a plus sign in front or without. -/
def limit? (text : String) : Option Nat :=
  -- A plus sign is the only sign that may stand in front.
  let digits := match text.toList with
    | '+' :: digits => digits
    | digits => digits
  if digits.isEmpty || !digits.all Char.isDigit then .none
  else if Nat.ofDigitChars 10 digits 0 < UInt64.size then some (Nat.ofDigitChars 10 digits 0)
  else .none

/-- Give a setting a value, which it must not have yet. -/
def give (o : Options) (setting : Setting) (text : String) : Except Stop Options :=
  match setting with
  | .format =>
    match o.format, format? text with
    -- That a setting is given twice is a fault of its own, before the value is looked at.
    | .none, some format => .ok { o with format := some format }
    | some _, _ => .error (.misuse "the format is given twice")
    | _, .none => .error (.misuse ("there is no format " ++ text))
  | .limit =>
    match o.limit, limit? text with
    | .none, some limit => .ok { o with limit := some limit }
    | some _, _ => .error (.misuse "the maximum depth is given twice")
    | _, .none => .error (.misuse ("the maximum depth is no number: " ++ text))
  | .context =>
    match o.context with
    | some _ => .error (.misuse "the context is given twice")
    | .none =>
      if text.isEmpty then .error (.misuse "the context has an empty name")
      else .ok { o with context := some text }

/-- Ask for a log, once. -/
def setVerbose (o : Options) : Except Stop Options :=
  if o.verbose then .error (.misuse "the log is asked for twice")
  else .ok { o with verbose := true }

end Options

/-- Where in the command line the next argument stands. -/
inductive Arguments.Place where
  /-- in front of the action -/
  | front
  /-- behind the action -/
  | behind (action : Action) (options : Options) (formula : Option String)
  /-- behind the word `help`, and the topic that was named -/
  | help (topic : Option Topic)

/-- A command line while it is being read. -/
structure Arguments where
  /-- the options in front of the action -/
  options : Options
  place : Arguments.Place
  /-- the option whose value is the next argument -/
  awaiting : Option Setting
  /-- whether no options come any more -/
  escaped : Bool

namespace Arguments

/-- The command line before its first argument. -/
def start : Arguments := ⟨.none, .front, none, false⟩

/-- The options of the current place. -/
def current (a : Arguments) : Options :=
  match a.place with
  | .behind _ options _ => options
  | _ => a.options

/-- Replace the options of the current place. -/
def withCurrent (a : Arguments) (options : Options) : Arguments :=
  match a.place with
  | .behind action _ formula => { a with place := .behind action options formula }
  | _ => { a with options := options }

/-- Whether data may be named at the current place. -/
def takesContext (a : Arguments) : Bool :=
  match a.place with
  | .behind .eval _ _ => true
  | _ => false

/-- What help is about at the current place. -/
def topic (a : Arguments) : Topic :=
  match a.place with
  | .behind action _ _ => .action action
  | _ => .program

/-- Give a setting its value. -/
def give (a : Arguments) (setting : Setting) (text : String) : Except Stop Arguments :=
  (a.current.give setting text).map fun options => { a.withCurrent options with awaiting := none }

/-- The settings of one letter. -/
def short? (a : Arguments) (letter : Char) : Option Setting :=
  if letter = 'f' then some .format
  else if letter = 'c' ∧ a.takesContext then some .context
  else none

/-- The settings of a long name. -/
def long? (a : Arguments) (name : String) : Option Setting :=
  if name = "format" then some .format
  else if name = "max-depth" then some .limit
  else if name = "context" ∧ a.takesContext then some .context
  else none

/-- Read the letters behind a hyphen.  The value of a setting is what follows its
    letter, less an equals sign, or else the next argument. -/
def letters (a : Arguments) : List Char → Except Stop Arguments
  | [] => .ok a
  | letter :: rest =>
    -- Help is given at once, whatever stands behind it.
    if letter = 'h' then .error (.help a.topic)
    else if letter = 'v' then
      match a.current.setVerbose with
      | .error stop => .error stop
      | .ok options => letters (a.withCurrent options) rest
    else
      match a.short? letter with
      | none => .error (.misuse ("there is no option -" ++ letter.toString))
      | some setting =>
        match rest with
        | [] => .ok { a with awaiting := some setting }
        | '=' :: value => a.give setting (String.ofList value)
        | value => a.give setting (String.ofList value)

/-- Read what stands behind two hyphens: a name, and perhaps an equals sign and a
    value. -/
def word (a : Arguments) (text : List Char) : Except Stop Arguments :=
  let name := String.ofList (text.takeWhile (· != '='))
  let attached := match text.dropWhile (· != '=') with
    | [] => none
    | _ :: value => some (String.ofList value)
  match a.long? name, attached with
  | some setting, none => .ok { a with awaiting := some setting }
  | some setting, some value => a.give setting value
  | none, some _ => .error (.misuse ("there is no option --" ++ name ++ " with a value"))
  | none, none =>
    if name = "help" then .error (.help a.topic)
    else if name = "verbose" then a.current.setVerbose.map a.withCurrent
    else .error (.misuse ("there is no option --" ++ name))

/-- Read an argument that is no option: the action, and then its formula. -/
def operand (a : Arguments) (text : String) : Except Stop Arguments :=
  match a.place with
  | .front =>
    -- Behind the mark that ends the options no action is recognised any more.
    if a.escaped then .error (.misuse "an action must be named")
    else if text = "help" then .ok { a with place := .help none }
    else
      match Action.named? text with
      | some action => .ok { a with place := .behind action .none none }
      | none => .error (.misuse ("there is no action " ++ text))
  | .behind action options none => .ok { a with place := .behind action options (some text) }
  | .behind _ _ (some _) => .error (.misuse "there is a formula already")
  | .help named =>
    match named, Topic.named? text with
    | none, some topic => .ok { a with place := .help (some topic) }
    | _, _ => .error (.misuse ("there is no action " ++ text))

/-- Whether help is read, where all arguments are names. -/
def helping (a : Arguments) : Bool :=
  match a.place with
  | .help _ => true
  | _ => false

/-- Read one argument. -/
def step (a : Arguments) (text : String) : Except Stop Arguments :=
  if a.escaped || a.helping then a.operand text
  else
    -- A value that is waited for may be a single hyphen, but no other option.
    match a.awaiting, text.toList with
    | some setting, ['-'] => a.give setting text
    | some _, '-' :: _ => .error (.misuse "an option lacks its value")
    | some setting, _ => a.give setting text
    | none, ['-', '-'] => .ok { a with escaped := true }
    | none, '-' :: '-' :: name => a.word name
    | none, '-' :: letter :: rest => a.letters (letter :: rest)
    | none, _ => a.operand text

/-- What the whole command line asks for. -/
def finish (a : Arguments) : Except Stop Invocation :=
  match a.awaiting, a.place with
  | some _, _ => .error (.misuse "an option lacks its value")
  | none, .help topic => .error (.help (topic.getD .program))
  | none, .front => .error (.misuse "an action must be named")
  | none, .behind _ _ none => .error (.misuse "a formula must be given")
  | none, .behind action options (some formula) =>
    .ok
      { action := action
        formula := formula
        -- What is given behind the action counts before what is given in front of it.
        format := (options.format.orElse fun _ => a.options.format).getD .text
        limit := (options.limit.orElse fun _ => a.options.limit).getD defaultLimit
        context := options.context
        verbose := options.verbose || a.options.verbose }

end Arguments

/-- What a command line asks for. -/
def parse (arguments : List String) : Except Stop Invocation := do
  let read ← arguments.foldlM Arguments.step Arguments.start
  read.finish

end Reckoner.CommandLine
