import Reckoner.Token

/-!
# Faults

Why a formula has no tokens, no program or no value.  A fault is a cause; its
stable `Fault.code` is for programs that react to it and its `Fault.message` for
people.
-/

namespace Reckoner

/-- What has to stand at a place of a formula. -/
inductive Expectation where
  /-- any expression -/
  | expression
  /-- the parenthesis after a function name -/
  | opening
  /-- a comma or the closing parenthesis after an argument -/
  | separator
  /-- the next word of a dotted path -/
  | segment
deriving DecidableEq

/-- Why a row of tokens is no program. -/
inductive SyntaxFault where
  /-- Another token than the expected one stands there; `none` is the end of the
      formula. -/
  | expected (wanted : Expectation) (found : Option Token.Kind)
  /-- A fault in the words of whoever found it. -/
  | stated (text : String)
deriving DecidableEq

/-- How a message names what was found. -/
def SyntaxFault.foundText : Option Token.Kind → String
  | none => "end of input"
  | some kind => "`" ++ kind.text ++ "`"

/-- The message of a syntax fault. -/
def SyntaxFault.message : SyntaxFault → String
  | expected .expression (some kind) => "Unexpected token of type `" ++ kind.text ++ "`"
  | expected .expression none => "Expected expression, found " ++ foundText none
  | expected .opening found => "Expected `(`, found " ++ foundText found
  | expected .separator found => "Expected `,` or `)`, found " ++ foundText found
  | expected .segment found => "Expected `variable` after `dot`, found " ++ foundText found
  | stated text => text

/-- Why a formula fails. -/
inductive Fault where
  /-- No token starts with this character, which stands at this byte. -/
  | illegalCharacter (character : Char) (offset : Nat)
  /-- The digits denote more than the largest number a formula can spell. -/
  | numberOutOfRange (digits : String)
  | malformed (cause : SyntaxFault)
  | nestedTooDeep (limit : Nat)
  | emptyProgram
  /-- The data have nothing under this segment of this path. -/
  | unknownVariable (segment path : String)
  /-- The path ends at named children. -/
  | notANumber (path : String)
  | unknownFunction (name : String)
  | arityMismatch (name : String) (expected found : Nat)
  | divisionByZero
  /-- An expression of this kind has no value where it stands. -/
  | unknownNode (kind : String)
deriving DecidableEq

namespace Fault

/-- The stable code of a fault. -/
def code : Fault → String
  | illegalCharacter .. => "LEXICAL_ERROR"
  | numberOutOfRange _ => "LEXICAL_ERROR"
  | malformed _ => "SYNTAX_ERROR"
  | nestedTooDeep _ => "NESTING_TOO_DEEP"
  | emptyProgram => "EMPTY_PROGRAM"
  | unknownVariable .. => "UNKNOWN_VARIABLE"
  | notANumber _ => "NOT_A_NUMBER"
  | unknownFunction _ => "UNKNOWN_FUNCTION"
  | arityMismatch .. => "ARITY_MISMATCH"
  | divisionByZero => "DIVISION_BY_ZERO"
  | unknownNode _ => "UNKNOWN_NODE"

/-- The message of a fault. -/
def message : Fault → String
  | illegalCharacter c offset =>
    "Unknown character `" ++ c.toString ++ "` at offset " ++ toString offset
  | numberOutOfRange digits => "Number literal `" ++ digits ++ "` is out of range"
  | malformed cause => cause.message
  | nestedTooDeep limit =>
    "Calls are nested deeper than the limit of " ++ toString limit
  | emptyProgram => "Formula is empty"
  | unknownVariable segment path => "Unknown variable `" ++ segment ++ "` in `" ++ path ++ "`"
  | notANumber path => "Variable `" ++ path ++ "` does not resolve to a number"
  | unknownFunction name => "Unknown function `" ++ name ++ "`"
  | arityMismatch name expected found =>
    "Function `" ++ name ++ "` takes " ++ toString expected ++ " arguments, found "
      ++ toString found
  | divisionByZero => "Division by zero"
  | unknownNode kind => "Cannot evaluate node of type `" ++ kind ++ "`"

end Fault

end Reckoner
