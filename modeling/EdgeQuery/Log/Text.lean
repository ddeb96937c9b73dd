import EdgeQuery.Log.Level
import EdgeQuery.Text.Quote
/-! # Log lines

An event is written as one line of `key=value` pairs separated by blanks: first `level`,
then `msg`, then the attributes bound to the writer, then the event's own attributes, and a
line feed at the end.

Keys and text values stand as they are unless that would be ambiguous: a text that is
empty, holds a blank, `=`, a double quote, a control character, white space, a character
that is not printable or the replacement character U+FFFD is written in double quotes with
escapes. A writer may open groups; the keys of later attributes are then prefixed with the
group names, each followed by a dot. -/

namespace EdgeQuery.Log

/-- Whether a text must be quoted to stand as a key or value. -/
def needsQuoting (s : String) : Bool :=
  s.isEmpty || s.toList.any fun c =>
    if c.toNat < 0x80 then c == ' ' || c == '=' || c == '"' || c.toNat < 0x20
    else c.toNat == 0xfffd || Unicode.isSpace c || !Unicode.isPrint c

/-- A text as a key or value. -/
def textField (s : String) : String := if needsQuoting s then Quote.text s else s

/-- The text of an attribute value. -/
def Value.render : Value → String
  | .text s => textField s
  | .int n => toString n
  | .bool b => toString b

/-- One ` key=value` pair, its key prefixed by the open groups. -/
def pair (groups : String) (key : String) (v : Value) : String :=
  " " ++ textField (groups ++ key) ++ "=" ++ v.render

/-- A writer of log lines: the open groups' prefix and the attributes already bound,
written out. -/
structure TextWriter where
  groups : String := ""
  bound : String := ""
  deriving Inhabited, Repr

namespace TextWriter

/-- Binds attributes: they are written on every later line. -/
def withAttrs (w : TextWriter) (attrs : List (String × Value)) : TextWriter :=
  { w with bound := w.bound ++ String.join (attrs.map fun (k, v) => pair w.groups k v) }

/-- Opens a group; an empty name opens none. -/
def withGroup (w : TextWriter) (name : String) : TextWriter :=
  if name.isEmpty then w else { w with groups := w.groups ++ name ++ "." }

/-- The line of an event. -/
def line (w : TextWriter) (level : Level) (message : String) (attrs : List (String × Value)) : String :=
  "level=" ++ levelName level ++ " msg=" ++ textField message ++ w.bound ++
    String.join (attrs.map fun (k, v) => pair w.groups k v) ++ "\n"

end TextWriter

end EdgeQuery.Log
