import EdgeQuery.Query.Lexer
import EdgeQuery.Query.Syntax
import EdgeQuery.Number.Read
/-! # Reading filter expressions

The grammar, from the loosest binding to the tightest:

```text
or         := and (('||' | 'or') and)*
and        := unary (('&&' | 'and') unary)*
unary      := ('!' | 'not') unary | comparison
comparison := additive (cmpop additive)?          -- a second cmpop is an error
additive   := term (('+' | '-') term)*            -- left-associative
term       := primary (('*' | '/' | '%') primary)*
primary    := '(' or ')' | STRING | true | false | null | number | '-' number
            | IDENT | IDENT '(' args ')' | IDENT ':' IDENT '(' args ')'
args       := (or (',' or)*)?
```

A chain of `||` (or of `&&`) becomes one node with all its terms; a single term stays
itself. Each pair of parentheses becomes a `paren` node. Integers must fit in 64 bits
(with their sign) and floats must be finite.

The reader works on the token `Stream`; every rule that succeeds takes at least one token,
and each returns the rest of the stream with a proof that it is shorter. The rules recurse
on `10 * size + rank`, where the rank orders the rules that may start at the same token. -/

namespace EdgeQuery.Query

namespace Parser

/-- The token at the front of a stream; the end of the text at the end. -/
def current : Stream → Token
  | .cons t _ => t
  | .eof p => ⟨.eof, "", p⟩
  | .fail e => ⟨.eof, "", e.position⟩

/-- Moves past the front token onto the rest, failing if the next token cannot be read. -/
def next (rest : Stream) : Except SyntaxError {r : Stream // r.size ≤ rest.size} :=
  match rest with
  | .fail e => .error e
  | r => .ok ⟨r, Nat.le_refl _⟩

/-- Whether a token kind is a comparison operator, and which. -/
def compareOf : TokenKind → Option CompareOp
  | .eq => some .eq
  | .ne => some .ne
  | .lt => some .lt
  | .gt => some .gt
  | .le => some .le
  | .ge => some .ge
  | .like => some .like
  | .unlike => some .unlike
  | _ => none

/-- The multiplicative operator of a token kind. -/
def mulOf : TokenKind → Option ArithOp
  | .star => some .mul
  | .slash => some .div
  | .percent => some .mod
  | _ => none

/-- The additive operator of a token kind. -/
def addOf : TokenKind → Option ArithOp
  | .plus => some .add
  | .minus => some .sub
  | _ => none

/-- The literal of a number token, negated when a minus sign stood before it. -/
def numberLiteral (t : Token) (negative : Bool) : Except SyntaxError Literal :=
  let text := if negative then "-" ++ t.text else t.text
  if t.kind = .int then
    match Read.parseInt text with
    | .ok n => .ok (.int n)
    | .error _ => .error (.integerRange t.pos text)
  else
    match Read.parseFloat text with
    | .ok x => .ok (.float x)
    | .error _ => .error (.floatRange t.pos text)

/-- A parse result: the tree and the shorter rest of the stream. -/
abbrev Parsed (s : Stream) := Except SyntaxError (Expr × {r : Stream // r.size < s.size})

/-- A junction or argument list result: the terms and the rest of the stream. -/
abbrev Collected (s : Stream) := Except SyntaxError (List Expr × {r : Stream // r.size ≤ s.size})

/-- A literal token has been read; moves on. -/
def literalAfter (l : Literal) (rest : Stream) : Except SyntaxError (Expr × {r : Stream // r.size ≤ rest.size}) :=
  match next rest with
  | .error e => .error e
  | .ok r => .ok (.lit l, r)

/-- A result on the rest after the front token is a result on the whole stream. -/
def afterFront {t : Token} {rest : Stream}
    (r : Except SyntaxError (Expr × {r : Stream // r.size ≤ rest.size})) : Parsed (.cons t rest) :=
  match r with
  | .error e => .error e
  | .ok (e, ⟨r, h⟩) => .ok (e, ⟨r, by simp only [Stream.size]; omega⟩)

mutual

/-- `or`: terms joined by `||`. -/
def orExpr (s : Stream) : Parsed s :=
  match andExpr s with
  | .error e => .error e
  | .ok (first, ⟨s1, h1⟩) =>
    match orRest s1 [first] with
    | .error e => .error e
    | .ok (terms, ⟨s2, h2⟩) =>
      .ok ((if terms.length = 1 then first else .or terms), ⟨s2, Nat.lt_of_le_of_lt h2 h1⟩)
termination_by 10 * s.size + 9
decreasing_by all_goals omega

/-- The `|| and` pairs after the first term, collected in order. -/
def orRest (s : Stream) (acc : List Expr) : Collected s :=
  match s with
  | .cons t rest =>
    if t.kind = .or then
      match next rest with
      | .error e => .error e
      | .ok ⟨s1, h1⟩ =>
        match andExpr s1 with
        | .error e => .error e
        | .ok (term, ⟨s2, h2⟩) =>
          match orRest s2 (acc ++ [term]) with
          | .error e => .error e
          | .ok (terms, ⟨s3, h3⟩) => .ok (terms, ⟨s3, by simp only [Stream.size]; omega⟩)
    else .ok (acc, ⟨.cons t rest, Nat.le_refl _⟩)
  | s => .ok (acc, ⟨s, Nat.le_refl _⟩)
termination_by 10 * s.size + 9
decreasing_by all_goals (simp only [Stream.size] at *; omega)

/-- `and`: terms joined by `&&`. -/
def andExpr (s : Stream) : Parsed s :=
  match unaryExpr s with
  | .error e => .error e
  | .ok (first, ⟨s1, h1⟩) =>
    match andRest s1 [first] with
    | .error e => .error e
    | .ok (terms, ⟨s2, h2⟩) =>
      .ok ((if terms.length = 1 then first else .and terms), ⟨s2, Nat.lt_of_le_of_lt h2 h1⟩)
termination_by 10 * s.size + 8
decreasing_by all_goals omega

/-- The `&& unary` pairs after the first term, collected in order. -/
def andRest (s : Stream) (acc : List Expr) : Collected s :=
  match s with
  | .cons t rest =>
    if t.kind = .and then
      match next rest with
      | .error e => .error e
      | .ok ⟨s1, h1⟩ =>
        match unaryExpr s1 with
        | .error e => .error e
        | .ok (term, ⟨s2, h2⟩) =>
          match andRest s2 (acc ++ [term]) with
          | .error e => .error e
          | .ok (terms, ⟨s3, h3⟩) => .ok (terms, ⟨s3, by simp only [Stream.size]; omega⟩)
    else .ok (acc, ⟨.cons t rest, Nat.le_refl _⟩)
  | s => .ok (acc, ⟨s, Nat.le_refl _⟩)
termination_by 10 * s.size + 8
decreasing_by all_goals (simp only [Stream.size] at *; omega)

/-- `unary`: a negation or a comparison. -/
def unaryExpr (s : Stream) : Parsed s :=
  match s with
  | .cons t rest =>
    if t.kind = .not then
      match next rest with
      | .error e => .error e
      | .ok ⟨s1, h1⟩ =>
        if (current s1).kind = .eof then .error (.nothingAfterNot t.pos)
        else
          match unaryExpr s1 with
          | .error e => .error e
          | .ok (term, ⟨s2, h2⟩) => .ok (.not term, ⟨s2, by simp only [Stream.size]; omega⟩)
    else compareExpr (.cons t rest)
  | s => compareExpr s
termination_by 10 * s.size + 7
decreasing_by
  · simp only [Stream.size] at *; omega
  · omega
  · omega

/-- `comparison`: an operand, optionally compared with a second one. -/
def compareExpr (s : Stream) : Parsed s :=
  match additiveExpr s with
  | .error e => .error e
  | .ok (left, ⟨s1, h1⟩) =>
    match s1 with
    | .cons t rest =>
      match compareOf t.kind with
      | none => .ok (left, ⟨.cons t rest, h1⟩)
      | some op =>
        match next rest with
        | .error e => .error e
        | .ok ⟨s2, h2⟩ =>
          match additiveExpr s2 with
          | .error e => .error e
          | .ok (right, ⟨s3, h3⟩) =>
            let t3 := current s3
            if (compareOf t3.kind).isSome then .error (.chainedComparison t3.pos t3.text)
            else .ok (.compare op left right, ⟨s3, by simp only [Stream.size] at h1; omega⟩)
    | s1 => .ok (left, ⟨s1, h1⟩)
termination_by 10 * s.size + 6
decreasing_by
  · omega
  · simp only [Stream.size] at *; omega

/-- `additive`: terms joined by `+` and `-`, to the left. -/
def additiveExpr (s : Stream) : Parsed s :=
  match termExpr s with
  | .error e => .error e
  | .ok (first, ⟨s1, h1⟩) =>
    match additiveRest s1 first with
    | .error e => .error e
    | .ok (e, ⟨s2, h2⟩) => .ok (e, ⟨s2, Nat.lt_of_le_of_lt h2 h1⟩)
termination_by 10 * s.size + 5
decreasing_by all_goals omega

/-- The `+ term` and `- term` pairs after the first term, folded to the left. -/
def additiveRest (s : Stream) (left : Expr) : Except SyntaxError (Expr × {r : Stream // r.size ≤ s.size}) :=
  match s with
  | .cons t rest =>
    match addOf t.kind with
    | none => .ok (left, ⟨.cons t rest, Nat.le_refl _⟩)
    | some op =>
      match next rest with
      | .error e => .error e
      | .ok ⟨s1, h1⟩ =>
        match termExpr s1 with
        | .error e => .error e
        | .ok (right, ⟨s2, h2⟩) =>
          match additiveRest s2 (.arith op left right) with
          | .error e => .error e
          | .ok (e, ⟨s3, h3⟩) => .ok (e, ⟨s3, by simp only [Stream.size]; omega⟩)
  | s => .ok (left, ⟨s, Nat.le_refl _⟩)
termination_by 10 * s.size + 5
decreasing_by all_goals (simp only [Stream.size] at *; omega)

/-- `term`: primaries joined by `*`, `/` and `%`, to the left. -/
def termExpr (s : Stream) : Parsed s :=
  match primaryExpr s with
  | .error e => .error e
  | .ok (first, ⟨s1, h1⟩) =>
    match termRest s1 first with
    | .error e => .error e
    | .ok (e, ⟨s2, h2⟩) => .ok (e, ⟨s2, Nat.lt_of_le_of_lt h2 h1⟩)
termination_by 10 * s.size + 4
decreasing_by all_goals omega

/-- The `* primary`, `/ primary` and `% primary` pairs after the first, folded to the
left. -/
def termRest (s : Stream) (left : Expr) : Except SyntaxError (Expr × {r : Stream // r.size ≤ s.size}) :=
  match s with
  | .cons t rest =>
    match mulOf t.kind with
    | none => .ok (left, ⟨.cons t rest, Nat.le_refl _⟩)
    | some op =>
      match next rest with
      | .error e => .error e
      | .ok ⟨s1, h1⟩ =>
        match primaryExpr s1 with
        | .error e => .error e
        | .ok (right, ⟨s2, h2⟩) =>
          match termRest s2 (.arith op left right) with
          | .error e => .error e
          | .ok (e, ⟨s3, h3⟩) => .ok (e, ⟨s3, by simp only [Stream.size]; omega⟩)
  | s => .ok (left, ⟨s, Nat.le_refl _⟩)
termination_by 10 * s.size + 4
decreasing_by all_goals (simp only [Stream.size] at *; omega)

/-- `primary`: a parenthesised expression, a literal, a name or a call. -/
def primaryExpr (s : Stream) : Parsed s :=
  match s with
  | .cons t rest =>
    match t.kind with
    | .lparen =>
      match next rest with
      | .error e => .error e
      | .ok ⟨s1, h1⟩ =>
        if (current s1).kind = .rparen then .error (.emptyParens t.pos)
        else
          match orExpr s1 with
          | .error e => .error e
          | .ok (inner, ⟨s2, h2⟩) =>
            match s2 with
            | .cons t2 rest2 =>
              if t2.kind = .rparen then
                match next rest2 with
                | .error e => .error e
                | .ok ⟨s3, h3⟩ =>
                  .ok (.paren inner, ⟨s3, by simp only [Stream.size] at h2 ⊢; omega⟩)
              else .error (.unmatchedOpen t.pos)
            | _ => .error (.unmatchedOpen t.pos)
    | .str => afterFront (literalAfter (.str t.text) rest)
    | .kwTrue => afterFront (literalAfter (.bool true) rest)
    | .kwFalse => afterFront (literalAfter (.bool false) rest)
    | .kwNull => afterFront (literalAfter .null rest)
    | .int | .float =>
      match numberLiteral t false with
      | .error e => .error e
      | .ok l => afterFront (literalAfter l rest)
    | .minus =>
      match next rest with
      | .error e => .error e
      | .ok ⟨s1, h1⟩ =>
        match s1 with
        | .cons t1 rest1 =>
          if t1.kind = .int ∨ t1.kind = .float then
            match numberLiteral t1 true with
            | .error e => .error e
            | .ok l =>
              match next rest1 with
              | .error e => .error e
              | .ok ⟨s2, h2⟩ => .ok (.lit l, ⟨s2, by simp only [Stream.size] at h1 ⊢; omega⟩)
          else .error (.numberAfterMinus t.pos)
        | _ => .error (.numberAfterMinus t.pos)
    | .ident => afterFront (nameOrCall t rest)
    | .eof => .error (.unexpectedEnd t.pos)
    | .rparen => .error (.unexpectedClose t.pos)
    | k => .error (.unexpectedToken t.pos k)
  | .eof p => .error (.unexpectedEnd p)
  | .fail e => .error e
termination_by 10 * s.size + 3
decreasing_by all_goals (simp only [Stream.size] at *; omega)

/-- A name has been read: a field, or the start of a call. -/
def nameOrCall (first : Token) (rest : Stream) : Except SyntaxError (Expr × {r : Stream // r.size ≤ rest.size}) :=
  match next rest with
  | .error e => .error e
  | .ok ⟨s1, h1⟩ =>
    match s1 with
    | .cons t1 rest1 =>
      if t1.kind = .colon then
        match next rest1 with
        | .error e => .error e
        | .ok ⟨s2, h2⟩ =>
          match s2 with
          | .cons t2 rest2 =>
            if t2.kind = .ident then
              match next rest2 with
              | .error e => .error e
              | .ok ⟨s3, h3⟩ =>
                match s3 with
                | .cons t3 rest3 =>
                  if t3.kind = .lparen then
                    match callArgs first.text t2.text t3.pos rest3 with
                    | .error e => .error e
                    | .ok (e, ⟨s4, h4⟩) =>
                      .ok (e, ⟨s4, by simp only [Stream.size] at h1 h2 h3 ⊢; omega⟩)
                  else .error (.argumentsExpected t3.pos first.text t2.text)
                | s3 => .error (.argumentsExpected (current s3).pos first.text t2.text)
            else .error (.functionNameExpected t2.pos first.text)
          | s2 => .error (.functionNameExpected (current s2).pos first.text)
      else if t1.kind = .lparen then
        match callArgs "" first.text t1.pos rest1 with
        | .error e => .error e
        | .ok (e, ⟨s2, h2⟩) => .ok (e, ⟨s2, by simp only [Stream.size] at h1 ⊢; omega⟩)
      else .ok (.field first.text, ⟨.cons t1 rest1, h1⟩)
    | s1 => .ok (.field first.text, ⟨s1, h1⟩)
termination_by 10 * rest.size + 10
decreasing_by all_goals (simp only [Stream.size] at *; omega)

/-- The arguments of a call after its opening parenthesis at `openPos`, and the closing
parenthesis. -/
def callArgs (ns name : String) (openPos : Nat) (rest : Stream) : Except SyntaxError (Expr × {r : Stream // r.size ≤ rest.size}) :=
  match next rest with
  | .error e => .error e
  | .ok ⟨s1, h1⟩ =>
    let collected : Collected s1 :=
      if (current s1).kind = .rparen then .ok ([], ⟨s1, Nat.le_refl _⟩) else argList s1 []
    match collected with
    | .error e => .error e
    | .ok (args, ⟨s2, h2⟩) =>
      match s2 with
      | .cons t2 rest2 =>
        if t2.kind = .rparen then
          match next rest2 with
          | .error e => .error e
          | .ok ⟨s3, h3⟩ =>
            .ok (.call ns name args, ⟨s3, by simp only [Stream.size] at h2 ⊢; omega⟩)
        else if t2.kind = .eof then .error (.unterminatedArguments openPos name)
        else .error (.unexpectedInArguments t2.pos t2.kind name)
      | _ => .error (.unterminatedArguments openPos name)
termination_by 10 * rest.size + 11
decreasing_by all_goals omega

/-- Arguments separated by commas. -/
def argList (s : Stream) (acc : List Expr) : Collected s :=
  match orExpr s with
  | .error e => .error e
  | .ok (arg, ⟨s1, h1⟩) =>
    match s1 with
    | .cons t rest =>
      if t.kind = .comma then
        match next rest with
        | .error e => .error e
        | .ok ⟨s2, h2⟩ =>
          match argList s2 (acc ++ [arg]) with
          | .error e => .error e
          | .ok (args, ⟨s3, h3⟩) =>
            .ok (args, ⟨s3, by simp only [Stream.size] at h1; omega⟩)
      else .ok (acc ++ [arg], ⟨.cons t rest, Nat.le_of_lt h1⟩)
    | s1 => .ok (acc ++ [arg], ⟨s1, Nat.le_of_lt h1⟩)
termination_by 10 * s.size + 10
decreasing_by
  · omega
  · simp only [Stream.size] at *; omega

end

end Parser

/-- Reads a filter text. A text without tokens is an empty query, and a token after a
complete expression is an error. -/
def parse (text : String) : Except SyntaxError Expr :=
  match Stream.ofText text with
  | .fail e => .error e
  | .eof _ => .error .emptyQuery
  | s =>
    match Parser.orExpr s with
    | .error e => .error e
    | .ok (e, ⟨rest, _⟩) =>
      match rest with
      | .cons t _ => .error (.trailingToken t.pos t.text)
      | .fail e => .error e
      | .eof _ => .ok e

end EdgeQuery.Query
