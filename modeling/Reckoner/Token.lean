/-!
# Tokens

The lexical units of a formula.  `Token.text` is the spelling of a token in a
formula and `Token.Kind.text` the name that diagnostics give to its kind.
-/

namespace Reckoner

/-- The kinds of token that diagnostics tell apart. -/
inductive Token.Kind where
  | number
  | function
  | word
  | leftParen
  | rightParen
  | comma
  | dot
deriving DecidableEq

/-- The name of a kind in diagnostics. -/
def Token.Kind.text : Token.Kind → String
  | .number => "number"
  | .function => "function"
  | .word => "variable"
  | .leftParen => "("
  | .rightParen => ")"
  | .comma => ","
  | .dot => "dot"

/-- A lexical unit of a formula.  A run of letters is a `function` name when the
    next character that is no space is an opening parenthesis, else a `word`. -/
inductive Token where
  | number (value : Int)
  | function (name : String)
  | word (name : String)
  | leftParen
  | rightParen
  | comma
  | dot
deriving DecidableEq

namespace Token

/-- The kind of a token. -/
def kind : Token → Kind
  | number _ => .number
  | function _ => .function
  | word _ => .word
  | leftParen => .leftParen
  | rightParen => .rightParen
  | comma => .comma
  | dot => .dot

/-- The spelling of a token in a formula. -/
def text : Token → String
  | number value => toString value
  | function name => name
  | word name => name
  | leftParen => "("
  | rightParen => ")"
  | comma => ","
  | dot => "."

end Token

end Reckoner
