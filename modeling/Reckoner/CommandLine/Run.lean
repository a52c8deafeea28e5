import Reckoner.CommandLine.Arguments
import Reckoner.Formula
import Reckoner.Journal
import Reckoner.Json.Write
import Reckoner.Report

/-!
# Running a command line

What a command line prints and how it ends, given what the files hold.

* The status is 0 if the formula passes and 1 if it does not; it is 2, with nothing
  printed as output, if the command line is wrong or the data cannot be had.
* Data are read before the formula is looked at.
* Faults are printed as JSON in the output where JSON is asked for, else as a line
  of errors; the verdict of a validation is output in either form.
-/

namespace Reckoner.CommandLine

/-- What a command line leads to. -/
structure Outcome where
  status : Nat
  output : String
  errors : String
  /-- the records of the run, where a log is asked for -/
  log : List Record

/-- A line of text. -/
def line (text : String) : String :=
  text ++ "\n"

/-- A fault on one line. -/
def faultText (fault : Fault) : String :=
  "[" ++ fault.code ++ "] " ++ fault.message

/-- A token on one line: its kind, filled up to ten columns, and its spelling. -/
def tokenText (token : Token) : String :=
  token.kind.text ++ String.ofList (List.replicate (10 - token.kind.text.length) ' ') ++ token.text

/-- The outcome of a result that is printed when it is there. -/
def Outcome.ofResult (format : Format) (result : Except Fault String) : Outcome :=
  match result, format with
  | .ok output, _ => ⟨0, output, "", []⟩
  | .error fault, .text => ⟨1, "", line (faultText fault), []⟩
  | .error fault, .json => ⟨1, line fault.toJson.pretty, "", []⟩

/-- The outcome of a command line that cannot be run. -/
def Outcome.ofMisuse (reason : String) : Outcome :=
  ⟨2, "", line reason, []⟩

/-- The output for a value. -/
def valueOutput (format : Format) (value : Float) : String :=
  match format with
  | .text => line (valueText value)
  | .json => line (valueToJson value).pretty

/-- The output for tokens. -/
def tokensOutput (format : Format) (tokens : List Token) : String :=
  match format with
  | .text => String.join (tokens.map fun token => line (tokenText token))
  | .json => line (Json.array (tokens.map Token.toJson)).pretty

/-- The output for a program. -/
def programOutput (format : Format) (program : Expr) : String :=
  match format with
  | .text => line program.text
  | .json => line program.toJson.pretty

/-- The outcome of a verdict. -/
def Outcome.ofVerdict (format : Format) (verdict : Except Fault Unit) : Outcome :=
  -- The format does not change the status.
  let status := match verdict with
    | .ok () => 0
    | .error _ => 1
  let output := match format, verdict with
    | .json, verdict => (verdictToJson verdict).pretty
    | .text, .ok () => "valid"
    | .text, .error fault => "invalid: " ++ faultText fault
  ⟨status, line output, "", []⟩

/-- Why the data of a file cannot be had. -/
inductive LoadFault where
  /-- The file has no text that can be read. -/
  | unread (file : String)
  /-- The text of the file is no JSON, or its objects are too deep inside each other. -/
  | malformed (file : String)
  /-- Something in the JSON of the file is neither a number nor an object. -/
  | foreign (file : String)

/-- The message of a fault of loading: what failed, the file, and the cause. -/
def LoadFault.message : LoadFault → String
  | unread file => "Failed to read context " ++ Text.quote file ++ ": the file cannot be read"
  | malformed file => "Invalid context " ++ Text.quote file ++ ": the text is no JSON"
  | foreign file =>
    "Invalid context " ++ Text.quote file
      ++ ": data did not match any variant of untagged enum Value"

/-- Load the data of a file; without a file there are none. -/
def load (files : String → Option String) : Option String → Except LoadFault Data
  | none => .ok Data.empty
  | some file =>
    match files file with
    | none => .error (.unread file)
    | some text =>
      match Json.read? Data.maxTextDepth text with
      | none => .error (.malformed file)
      | some json =>
        match Data.ofJson? json with
        | none => .error (.foreign file)
        | some data => .ok data

/-- The data of a file, if they can be loaded. -/
def loadData (files : String → Option String) (context : Option String) : Option Data :=
  (load files context).toOption

namespace Invocation

/-- Add the records of a run where a log is asked for. -/
def withLog {α : Type} (i : Invocation) (run : Traced α) (outcome : Outcome) : Outcome :=
  if i.verbose then { outcome with log := run.summary } else outcome

/-- Do what is asked for. -/
def run (files : String → Option String) (i : Invocation) : Outcome :=
  match i.action with
  | .eval =>
    -- The data are loaded first, so their fault hides all faults of the formula.
    match load files i.context with
    | .error fault => .ofMisuse fault.message
    | .ok data =>
      let run := Formula.evaluate i.limit data.numberAt i.formula
      i.withLog run (.ofResult i.format (run.outcome.map (valueOutput i.format)))
  | .validate =>
    let run := Formula.validate i.limit i.formula
    i.withLog run (.ofVerdict i.format run.outcome)
  | .tokens =>
    let run := Formula.tokens i.formula
    i.withLog run (.ofResult i.format (run.outcome.map (tokensOutput i.format)))
  | .ast =>
    let run := Formula.parse i.limit i.formula
    i.withLog run (.ofResult i.format (run.outcome.map (programOutput i.format)))

end Invocation

/-- What an action does, in a line of help. -/
def Action.about : Action → String
  | eval => "Evaluate a formula against a JSON context"
  | validate => "Check that a formula parses and only calls known functions"
  | tokens => "Print the token stream of a formula"
  | ast => "Print the parsed syntax tree of a formula"

/-- The options that every action has, in lines of help. -/
def optionLines : List String :=
  ["  -f, --format <FORMAT>        Specifies the output format [default: text] "
      ++ "[possible values: text, json]",
    "      --max-depth <MAX_DEPTH>  Maximum nesting depth of function calls [default: "
      ++ toString defaultLimit ++ "]",
    "  -v, --verbose                Log at debug level unless RUST_LOG says otherwise",
    "  -h, --help                   Print help"]

/-- The options that only one action has, in lines of help. -/
def Action.optionLines : Action → List String
  | eval => ["  -c, --context <CONTEXT>      JSON file holding the variables the formula refers to"]
  | _ => []

/-- The lines of help on a topic. -/
def help : Topic → List String
  | .program =>
    ["Usage: formula [OPTIONS] <COMMAND>", "", "Commands:",
      "  eval      " ++ Action.eval.about,
      "  validate  " ++ Action.validate.about,
      "  tokens    " ++ Action.tokens.about,
      "  ast       " ++ Action.ast.about,
      "  help      Print this message or the help of the given subcommand(s)", "",
      "Options:"] ++ optionLines
  | .action action =>
    [action.about, "", "Usage: formula " ++ action.name ++ " [OPTIONS] <FORMULA>", "", "Arguments:",
      "  <FORMULA>  ", "", "Options:"] ++ action.optionLines ++ optionLines
  | .help =>
    ["Print this message or the help of the given subcommand(s)", "",
      "Usage: formula help [COMMAND]...", "", "Arguments:",
      "  [COMMAND]...  Print help for the subcommand(s)"]

/-- Run a command line. -/
def run (files : String → Option String) (arguments : List String) : Outcome :=
  match parse arguments with
  | .error (.help topic) => ⟨0, String.join ((help topic).map line), "", []⟩
  | .error (.misuse reason) => .ofMisuse reason
  | .ok invocation => invocation.run files

end Reckoner.CommandLine
