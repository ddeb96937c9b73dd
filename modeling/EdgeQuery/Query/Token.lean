import EdgeQuery.Text.Bytes
/-! # Tokens of filter texts

A filter text is read as a sequence of tokens: names, strings, numbers, the keywords
`true`, `false` and `null`, the junction keywords (`&&`/`and`, `||`/`or`, `!`/`not`),
brackets, commas, colons and operators. Every token remembers the byte offset where it
starts, for messages. -/

namespace EdgeQuery.Query

/-- The kinds of tokens. -/
inductive TokenKind where
  | eof | ident | str | int | float
  | kwTrue | kwFalse | kwNull
  | and | or | not
  | lparen | rparen | comma | colon
  | eq | ne | lt | gt | le | ge | like | unlike
  | plus | minus | star | slash | percent
  deriving DecidableEq, Repr, Inhabited

namespace TokenKind

/-- All kinds, in the order of their codes. -/
def all : List TokenKind :=
  [eof, ident, str, int, float, kwTrue, kwFalse, kwNull, and, or, not, lparen, rparen, comma,
   colon, eq, ne, lt, gt, le, ge, like, unlike, plus, minus, star, slash, percent]

/-- The name of a kind, as messages show it. -/
def name : TokenKind → String
  | eof => "EOF"
  | ident => "IDENT"
  | str => "STRING"
  | int => "INT"
  | float => "FLOAT"
  | kwTrue => "true"
  | kwFalse => "false"
  | kwNull => "null"
  | and => "&&"
  | or => "||"
  | not => "!"
  | lparen => "("
  | rparen => ")"
  | comma => ","
  | colon => ":"
  | eq => "=="
  | ne => "!="
  | lt => "<"
  | gt => ">"
  | le => "<="
  | ge => ">="
  | like => "=~"
  | unlike => "!~"
  | plus => "+"
  | minus => "-"
  | star => "*"
  | slash => "/"
  | percent => "%"

end TokenKind

/-- A token: its kind, its text (for a string, the value after escapes), and the byte
offset where it starts. -/
structure Token where
  kind : TokenKind
  text : String
  pos : Nat
  deriving Repr, Inhabited

end EdgeQuery.Query
