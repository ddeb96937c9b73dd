import EdgeQuery.Query.Syntax
import EdgeQuery.Number.FloatText
/-! # Printing filter expressions

An expression prints as text that reads back as the same tree. Operators are written with
one blank on each side, arguments are separated by `, `, strings are quoted with single
quotes, and an operand gets parentheses only when it binds more loosely than its place
requires. The binding strengths, from loosest to tightest: disjunction, conjunction,
negation, comparison, addition and subtraction, multiplication, division and remainder,
and everything else.

A negation of a field, literal, call or parenthesised term is written `!t`; any other
negation `!(t)`. A conjunction or disjunction with one term prints as that term. Empty
slots print as `null` in an operand, as `!()` under a negation, as `()` in parentheses,
and as nothing at the top. -/

namespace EdgeQuery.Query

namespace Literal

/-- The text of a float literal: the shortest digits in the general style, with `.0`
added when the text would otherwise read as an integer. -/
def floatText (x : Float) : String :=
  let s := FloatStyle.general.render x
  if s.any (fun c => c = '.' ∨ c = 'e' ∨ c = 'E' ∨ c = 'I' ∨ c = 'N') then s else s ++ ".0"

/-- Escapes a string for single quotes: backslash, quote, newline, tab, carriage return
and NUL get a backslash escape. -/
def escapeChar (c : Char) : List Char :=
  match c with
  | '\\' => ['\\', '\\']
  | '\'' => ['\\', '\'']
  | '\n' => ['\\', 'n']
  | '\t' => ['\\', 't']
  | '\r' => ['\\', 'r']
  | c => if c.toNat = 0 then ['\\', '0'] else [c]

/-- A string in single quotes. -/
def quote (s : String) : String := String.ofList ('\'' :: s.toList.flatMap escapeChar ++ ['\''])

/-- The plain text of a literal's value: strings unquoted. -/
def text : Literal → String
  | null => "null"
  | bool b => if b then "true" else "false"
  | int n => toString n
  | float x => floatText x
  | str s => s

/-- The written form of a literal. -/
def render : Literal → String
  | str s => quote s
  | l => text l

end Literal

namespace Expr

/-- How tightly an expression binds. -/
def strength : Expr → Nat
  | or _ => 1
  | and _ => 2
  | not _ => 3
  | compare .. => 4
  | arith op .. => if op.isMultiplicative then 6 else 5
  | _ => 7

/-- The text of an operand that must bind at least as tightly as `min`, given the
operand's own text: parenthesised if it binds more loosely, `null` for an empty slot. -/
def operandText (e : Expr) (min : Nat) (text : String) : String :=
  match e with
  | hole => "null"
  | e => if e.strength < min then "(" ++ text ++ ")" else text

/-- Whether a negated term is written without parentheses. -/
def bareUnderNot : Expr → Bool
  | field _ | lit _ | call .. | paren _ => true
  | _ => false

/-- Appends each text after a separator to what is written so far; the text grows at its
end only, so writing many texts costs time in proportion to their length. -/
def joinAfter (sep : String) : String → List String → String
  | acc, [] => acc
  | acc, s :: rest => joinAfter sep (acc ++ sep ++ s) rest

/-- Joins texts with a separator. -/
def joinWith (sep : String) : List String → String
  | [] => ""
  | s :: rest => joinAfter sep s rest

theorem joinAfter_eq (sep acc : String) (xs : List String) :
    joinAfter sep acc xs = acc ++ String.join (xs.map (sep ++ ·)) := by
  induction xs generalizing acc with
  | nil => simp [joinAfter]
  | cons s rest ih => simp [joinAfter, ih, String.append_assoc]

@[simp] theorem joinWith_nil (sep : String) : joinWith sep [] = "" := rfl

@[simp] theorem joinWith_singleton (sep s : String) : joinWith sep [s] = s := rfl

theorem joinWith_cons_cons (sep s t : String) (rest : List String) :
    joinWith sep (s :: t :: rest) = s ++ sep ++ joinWith sep (t :: rest) := by
  simp [joinWith, joinAfter_eq, String.append_assoc]

mutual

/-- The written form of an expression. -/
def render : Expr → String
  | field n => n
  | lit l => l.render
  | compare op l r =>
    operandText l 5 (render l) ++ " " ++ op.symbol ++ " " ++ operandText r 5 (render r)
  | arith op l r =>
    let p := if op.isMultiplicative then 6 else 5
    operandText l p (render l) ++ " " ++ op.symbol ++ " " ++ operandText r (p + 1) (render r)
  | and ts => joinWith " && " (renderOperands ts 3)
  | or ts => joinWith " || " (renderOperands ts 2)
  | not t =>
    match t with
    | hole => "!()"
    | t => if bareUnderNot t then "!" ++ render t else "!(" ++ render t ++ ")"
  | call ns name args => qualifiedName ns name ++ "(" ++ joinWith ", " (renderAll args) ++ ")"
  | paren t =>
    match t with
    | hole => "()"
    | t => "(" ++ render t ++ ")"
  | hole => ""

/-- The written forms of junction terms, each as an operand of strength `min`. -/
def renderOperands : List Expr → Nat → List String
  | [], _ => []
  | t :: ts, min => operandText t min (render t) :: renderOperands ts min

/-- The written forms of call arguments. -/
def renderAll : List Expr → List String
  | [] => []
  | t :: ts => render t :: renderAll ts

end

end Expr

end EdgeQuery.Query
