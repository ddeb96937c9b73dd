import EdgeQuery.Query.Token
import EdgeQuery.Report
import EdgeQuery.Text.Quote
/-! # Why a filter text does not read

Each way a filter text can fail to read is a constructor that keeps the byte offset where
reading stopped and what was found there. `SyntaxError.detail` words it,
`SyntaxError.message` adds the position, and `SyntaxError.cause` sorts it into the kinds
callers tell apart (an unterminated string, a bad escape, a bad number, an unexpected
character, an empty query, an unmatched parenthesis, an unexpected token, an unexpected
end). -/

namespace EdgeQuery.Query

/-- Why a filter text does not read. -/
inductive SyntaxError where
  /-- A byte that starts no token. -/
  | unexpectedChar (pos : Nat) (b : UInt8)
  /-- A backslash in a string followed by a byte that is no escape. -/
  | invalidEscape (pos : Nat) (b : UInt8)
  /-- A backslash at the very end of the text. -/
  | escapeAtEnd (pos : Nat)
  /-- A string without its closing quote. -/
  | unterminatedString (pos : Nat)
  /-- A number cut short (`1.`, `1e`) or run into a name (`1x`). -/
  | malformedNumber (pos : Nat) (text : String)
  /-- A text with no tokens. -/
  | emptyQuery
  /-- `()` with nothing inside. -/
  | emptyParens (pos : Nat)
  /-- An opening parenthesis that is never closed. -/
  | unmatchedOpen (pos : Nat)
  /-- A closing parenthesis where an operand should start. -/
  | unexpectedClose (pos : Nat)
  /-- The end of the text where an operand should start. -/
  | unexpectedEnd (pos : Nat)
  /-- A negation at the end of the text. -/
  | nothingAfterNot (pos : Nat)
  /-- A second comparison operator right after a comparison. -/
  | chainedComparison (pos : Nat) (text : String)
  /-- A minus sign not followed by a number. -/
  | numberAfterMinus (pos : Nat)
  /-- An integer that does not fit in 64 bits. -/
  | integerRange (pos : Nat) (text : String)
  /-- A float that is too large. -/
  | floatRange (pos : Nat) (text : String)
  /-- A token that cannot start an operand. -/
  | unexpectedToken (pos : Nat) (kind : TokenKind)
  /-- A token after a complete expression. -/
  | trailingToken (pos : Nat) (text : String)
  /-- A namespace and colon not followed by a function name. -/
  | functionNameExpected (pos : Nat) (ns : String)
  /-- A qualified function name not followed by its arguments. -/
  | argumentsExpected (pos : Nat) (ns name : String)
  /-- An argument list that runs to the end of the text. -/
  | unterminatedArguments (pos : Nat) (name : String)
  /-- A token in an argument list where a comma or closing parenthesis should be. -/
  | unexpectedInArguments (pos : Nat) (kind : TokenKind) (name : String)
  deriving Repr

namespace SyntaxError

/-- The byte offset where reading stopped. -/
def position : SyntaxError → Nat
  | unexpectedChar p _ | invalidEscape p _ | escapeAtEnd p | unterminatedString p
  | malformedNumber p _ | emptyParens p | unmatchedOpen p | unexpectedClose p
  | unexpectedEnd p | nothingAfterNot p | chainedComparison p _ | numberAfterMinus p
  | integerRange p _ | floatRange p _ | unexpectedToken p _ | trailingToken p _
  | functionNameExpected p _ | argumentsExpected p _ _ | unterminatedArguments p _
  | unexpectedInArguments p _ _ => p
  | emptyQuery => 0

/-- The kind of failure, as callers tell them apart. -/
def cause : SyntaxError → Cause
  | unexpectedChar .. => .unexpectedChar
  | invalidEscape .. => .invalidEscape
  | escapeAtEnd .. | unterminatedString .. => .unterminatedString
  | malformedNumber .. | integerRange .. | floatRange .. => .invalidNumber
  | emptyQuery | emptyParens .. => .emptyQuery
  | unmatchedOpen .. | unexpectedClose .. | unterminatedArguments .. => .unmatchedParen
  | unexpectedEnd .. | nothingAfterNot .. => .unexpectedEnd
  | chainedComparison .. | numberAfterMinus .. | unexpectedToken .. | trailingToken ..
  | functionNameExpected .. | argumentsExpected .. | unexpectedInArguments .. => .unexpectedToken

/-- What went wrong, in words. -/
def detail : SyntaxError → String
  | unexpectedChar _ b => "unexpected character " ++ Quote.char (Bytes.latin1 b)
  | invalidEscape _ b => "invalid escape sequence: \\" ++ String.singleton (Bytes.latin1 b)
  | escapeAtEnd _ => "unterminated string: escape at end of input"
  | unterminatedString p => "unterminated string starting at position " ++ toString p
  | malformedNumber _ t => "invalid number " ++ Quote.text t
  | emptyQuery => "empty query"
  | emptyParens _ => "empty parentheses"
  | unmatchedOpen _ => "unmatched opening parenthesis"
  | unexpectedClose _ => "unexpected closing parenthesis"
  | unexpectedEnd _ => "unexpected end of query"
  | nothingAfterNot _ => "expected expression after !"
  | chainedComparison _ t => "chained comparison " ++ t
  | numberAfterMinus _ => "expected number after -"
  | integerRange _ t => "invalid integer " ++ Quote.text t
  | floatRange _ t => "invalid float " ++ Quote.text t
  | unexpectedToken _ k => "unexpected token " ++ k.name
  | trailingToken _ t => "unexpected token: " ++ t
  | functionNameExpected _ ns => "expected function name after " ++ ns ++ ":"
  | argumentsExpected _ ns name => "expected ( after " ++ ns ++ ":" ++ name
  | unterminatedArguments _ name => "unterminated argument list for " ++ name
  | unexpectedInArguments _ k name => "unexpected token " ++ k.name ++ " in arguments of " ++ name

/-- The full text: position and detail. -/
def message (e : SyntaxError) : String :=
  "parse error at position " ++ toString e.position ++ ": " ++ e.detail

/-- The report of a text that does not read. -/
def report (e : SyntaxError) : Report :=
  { message := e.message, causes := [.badQuery, e.cause], position := some e.position }

end SyntaxError

end EdgeQuery.Query
