import EdgeQuery.Proofs.LexPieces
import EdgeQuery.Query.Parser
/-! # The grammar of filter expressions

The filter language as a grammar over tokens:

```text
script     = or_expr EOF
or_expr    = and_expr ( ( "||" | "or" ) and_expr )*
and_expr   = unary_expr ( ( "&&" | "and" ) unary_expr )*
unary_expr = ( "!" | "not" ) unary_expr | comparison
comparison = additive [ cmp_op additive ]
cmp_op     = "==" | "!=" | "<" | ">" | "<=" | ">=" | "=~" | "!~"
additive   = term ( ( "+" | "-" ) term )*
term       = primary ( ( "*" | "/" | "%" ) primary )*
primary    = "(" or_expr ")" | literal | call | IDENT | "-" number
call       = [ IDENT ":" ] IDENT "(" [ or_expr ( "," or_expr )* ] ")"
literal    = STRING | number | "true" | "false" | "null"
```

Each rule is a relation between a list of tokens and the tree the rule builds from them.
A repetition `( op x )*` is a tail relation listing its operands in order. A chain of `||`
(or of `&&`) with more than one term is one node holding all of them (`junction`); a tail
of arithmetic folds to the left (`foldLeft`), so `a - b + c` is `(a - b) + c`; each pair of
parentheses is a `paren` node and each prefix `!` a `not` node. A number is a literal only
when its value can be held: an integer, with the minus sign before it, must fit in 64 bits,
and a float must be finite (`NumberValue`).

The reader looks one token ahead. Two families of facts say why that is enough: the kinds a
derivation can start with (`startsOperand`, `startsUnary`), and the tokens that may stand
after a rule without continuing it (`Follows`). -/

namespace EdgeQuery.Query

namespace Grammar

/-! ## Operators and literals -/

/-- The comparison operators and their tokens. -/
inductive CompareToken : TokenKind → CompareOp → Prop
  | eq : CompareToken .eq .eq
  | ne : CompareToken .ne .ne
  | lt : CompareToken .lt .lt
  | gt : CompareToken .gt .gt
  | le : CompareToken .le .le
  | ge : CompareToken .ge .ge
  | like : CompareToken .like .like
  | unlike : CompareToken .unlike .unlike

/-- The additive operators and their tokens. -/
inductive AddToken : TokenKind → ArithOp → Prop
  | plus : AddToken .plus .add
  | minus : AddToken .minus .sub

/-- The multiplicative operators and their tokens. -/
inductive MulToken : TokenKind → ArithOp → Prop
  | star : MulToken .star .mul
  | slash : MulToken .slash .div
  | percent : MulToken .percent .mod

/-- The text of a number with the minus sign written before it, if there is one. -/
def signedText (negative : Bool) (text : String) : String :=
  if negative then "-" ++ text else text

/-- The literal a number token stands for, after a minus sign if `negative`. -/
inductive NumberValue : Token → Bool → Literal → Prop
  /-- An integer is a run of decimal digits; its value, negated after a minus sign, must
  fit in 64 bits. -/
  | int {t : Token} {negative : Bool} {n : Int} :
      t.kind = .int → Numeral.IsDigits t.text.toList →
      n = (if negative then -(Read.digitsValue t.text.toList : Int)
        else (Read.digitsValue t.text.toList : Int)) →
      -Int.pow 2 63 ≤ n → n < Int.pow 2 63 → NumberValue t negative (.int n)
  /-- A float is the number reader's value of its signed text, which the reader gives only
  when the correctly rounded value is finite. -/
  | float {t : Token} {negative : Bool} {x : Float} :
      t.kind = .float → Read.parseFloat (signedText negative t.text) = .ok x →
      NumberValue t negative (.float x)

/-! ## Trees of chains -/

/-- A chain of one term is that term; a longer chain is one node holding all its terms. -/
def junction (node : List Expr → Expr) (first : Expr) : List Expr → Expr
  | [] => first
  | rest => node (first :: rest)

/-- Operands joined by arithmetic operators, grouped to the left. -/
def foldLeft (first : Expr) (tail : List (ArithOp × Expr)) : Expr :=
  tail.foldl (fun left p => .arith p.1 left p.2) first

@[simp] theorem foldLeft_nil (first : Expr) : foldLeft first [] = first := rfl

@[simp] theorem foldLeft_cons (first : Expr) (op : ArithOp) (e : Expr)
    (tail : List (ArithOp × Expr)) :
    foldLeft first ((op, e) :: tail) = foldLeft (.arith op first e) tail := rfl

/-! ## Derivations -/

mutual

/-- `or_expr`: an `and_expr` and the `||` tail after it. -/
inductive Disjunction : List Token → Expr → Prop
  | mk {ts us : List Token} {first : Expr} {rest : List Expr} :
      Conjunction ts first → Disjuncts us rest → Disjunction (ts ++ us) (junction .or first rest)

/-- `( ( "||" | "or" ) and_expr )*` -/
inductive Disjuncts : List Token → List Expr → Prop
  | nil : Disjuncts [] []
  | cons {t : Token} {ts us : List Token} {e : Expr} {es : List Expr} :
      t.kind = .or → Conjunction ts e → Disjuncts us es → Disjuncts (t :: ts ++ us) (e :: es)

/-- `and_expr`: a `unary_expr` and the `&&` tail after it. -/
inductive Conjunction : List Token → Expr → Prop
  | mk {ts us : List Token} {first : Expr} {rest : List Expr} :
      Unary ts first → Conjuncts us rest → Conjunction (ts ++ us) (junction .and first rest)

/-- `( ( "&&" | "and" ) unary_expr )*` -/
inductive Conjuncts : List Token → List Expr → Prop
  | nil : Conjuncts [] []
  | cons {t : Token} {ts us : List Token} {e : Expr} {es : List Expr} :
      t.kind = .and → Unary ts e → Conjuncts us es → Conjuncts (t :: ts ++ us) (e :: es)

/-- `unary_expr`: negations in front of a comparison. -/
inductive Unary : List Token → Expr → Prop
  | not {t : Token} {ts : List Token} {e : Expr} :
      t.kind = .not → Unary ts e → Unary (t :: ts) (.not e)
  | comparison {ts : List Token} {e : Expr} : Comparison ts e → Unary ts e

/-- `comparison`: an operand, or two compared. -/
inductive Comparison : List Token → Expr → Prop
  | operand {ts : List Token} {e : Expr} : Additive ts e → Comparison ts e
  | compare {t : Token} {ts us : List Token} {op : CompareOp} {l r : Expr} :
      Additive ts l → CompareToken t.kind op → Additive us r →
      Comparison (ts ++ t :: us) (.compare op l r)

/-- `additive`: a `term` and the `+`/`-` tail after it, grouped to the left. -/
inductive Additive : List Token → Expr → Prop
  | mk {ts us : List Token} {first : Expr} {tail : List (ArithOp × Expr)} :
      Term ts first → AddTail us tail → Additive (ts ++ us) (foldLeft first tail)

/-- `( ( "+" | "-" ) term )*` -/
inductive AddTail : List Token → List (ArithOp × Expr) → Prop
  | nil : AddTail [] []
  | cons {t : Token} {ts us : List Token} {op : ArithOp} {e : Expr}
      {tail : List (ArithOp × Expr)} :
      AddToken t.kind op → Term ts e → AddTail us tail → AddTail (t :: ts ++ us) ((op, e) :: tail)

/-- `term`: a `primary` and the `*`/`/`/`%` tail after it, grouped to the left. -/
inductive Term : List Token → Expr → Prop
  | mk {ts us : List Token} {first : Expr} {tail : List (ArithOp × Expr)} :
      Primary ts first → MulTail us tail → Term (ts ++ us) (foldLeft first tail)

/-- `( ( "*" | "/" | "%" ) primary )*` -/
inductive MulTail : List Token → List (ArithOp × Expr) → Prop
  | nil : MulTail [] []
  | cons {t : Token} {ts us : List Token} {op : ArithOp} {e : Expr}
      {tail : List (ArithOp × Expr)} :
      MulToken t.kind op → Primary ts e → MulTail us tail → MulTail (t :: ts ++ us) ((op, e) :: tail)

/-- `primary`: a parenthesised expression, a literal, a field or a call. -/
inductive Primary : List Token → Expr → Prop
  | paren {o c : Token} {ts : List Token} {e : Expr} :
      o.kind = .lparen → Disjunction ts e → c.kind = .rparen → Primary (o :: ts ++ [c]) (.paren e)
  | string {t : Token} : t.kind = .str → Primary [t] (.lit (.str t.text))
  | true {t : Token} : t.kind = .kwTrue → Primary [t] (.lit (.bool Bool.true))
  | false {t : Token} : t.kind = .kwFalse → Primary [t] (.lit (.bool Bool.false))
  | null {t : Token} : t.kind = .kwNull → Primary [t] (.lit .null)
  | number {t : Token} {l : Literal} : NumberValue t Bool.false l → Primary [t] (.lit l)
  | negative {m t : Token} {l : Literal} :
      m.kind = .minus → NumberValue t Bool.true l → Primary [m, t] (.lit l)
  | field {t : Token} : t.kind = .ident → Primary [t] (.field t.text)
  | call {f o c : Token} {ts : List Token} {args : List Expr} :
      f.kind = .ident → o.kind = .lparen → Arguments ts args → c.kind = .rparen →
      Primary (f :: o :: ts ++ [c]) (.call "" f.text args)
  | qualifiedCall {n k f o c : Token} {ts : List Token} {args : List Expr} :
      n.kind = .ident → k.kind = .colon → f.kind = .ident → o.kind = .lparen →
      Arguments ts args → c.kind = .rparen →
      Primary (n :: k :: f :: o :: ts ++ [c]) (.call n.text f.text args)

/-- `[ or_expr ( "," or_expr )* ]` -/
inductive Arguments : List Token → List Expr → Prop
  | none : Arguments [] []
  | some {ts : List Token} {es : List Expr} : ArgList ts es → Arguments ts es

/-- `or_expr ( "," or_expr )*` -/
inductive ArgList : List Token → List Expr → Prop
  | last {ts : List Token} {e : Expr} : Disjunction ts e → ArgList ts [e]
  | cons {t : Token} {ts us : List Token} {e : Expr} {es : List Expr} :
      Disjunction ts e → t.kind = .comma → ArgList us es → ArgList (ts ++ t :: us) (e :: es)

end

/-! ## First tokens

Every derivation takes at least one token, and the first is one that can start an operand
(or a `!` before one). The reader relies on this where it looks ahead: an empty pair of
parentheses, a `!` at the end and a comparison that starts with `!` are never derived. -/

/-- The kinds of the tokens an operand can start with. -/
def startsOperand : TokenKind → Bool
  | .lparen | .str | .kwTrue | .kwFalse | .kwNull | .int | .float | .minus | .ident => Bool.true
  | _ => Bool.false

/-- The kinds of the tokens a `unary_expr` can start with. -/
def startsUnary (k : TokenKind) : Bool := k == .not || startsOperand k

theorem ne_of_startsUnary {k : TokenKind} (h : startsUnary k = Bool.true) :
    k ≠ .eof ∧ k ≠ .rparen := by
  revert h
  cases k <;> decide

theorem ne_not_of_startsOperand {k : TokenKind} (h : startsOperand k = Bool.true) : k ≠ .not := by
  revert h
  cases k <;> decide

theorem NumberValue.kind {t : Token} {negative : Bool} {l : Literal}
    (h : NumberValue t negative l) : t.kind = .int ∨ t.kind = .float := by
  cases h with
  | int hk => exact .inl hk
  | float hk => exact .inr hk

theorem Primary.head {ts : List Token} {e : Expr} (h : Primary ts e) :
    ∃ t us, ts = t :: us ∧ startsOperand t.kind = Bool.true := by
  cases h with
  | paren ho => exact ⟨_, _, rfl, by simp [ho, startsOperand]⟩
  | string ht | true ht | false ht | null ht | field ht =>
    exact ⟨_, [], rfl, by simp [ht, startsOperand]⟩
  | number hv => rcases hv.kind with hk | hk <;> exact ⟨_, [], rfl, by simp [hk, startsOperand]⟩
  | negative hm => exact ⟨_, _, rfl, by simp [hm, startsOperand]⟩
  | call hf | qualifiedCall hf => exact ⟨_, _, rfl, by simp [hf, startsOperand]⟩

theorem Term.head {ts : List Token} {e : Expr} (h : Term ts e) :
    ∃ t us, ts = t :: us ∧ startsOperand t.kind = Bool.true := by
  cases h with
  | mk hp _ =>
    obtain ⟨t, us, rfl, ht⟩ := hp.head
    exact ⟨t, _, rfl, ht⟩

theorem Additive.head {ts : List Token} {e : Expr} (h : Additive ts e) :
    ∃ t us, ts = t :: us ∧ startsOperand t.kind = Bool.true := by
  cases h with
  | mk hp _ =>
    obtain ⟨t, us, rfl, ht⟩ := hp.head
    exact ⟨t, _, rfl, ht⟩

theorem Comparison.head {ts : List Token} {e : Expr} (h : Comparison ts e) :
    ∃ t us, ts = t :: us ∧ startsOperand t.kind = Bool.true := by
  cases h with
  | operand ha => exact ha.head
  | compare ha =>
    obtain ⟨t, us, rfl, ht⟩ := ha.head
    exact ⟨t, _, rfl, ht⟩

theorem Unary.head {ts : List Token} {e : Expr} (h : Unary ts e) :
    ∃ t us, ts = t :: us ∧ startsUnary t.kind = Bool.true := by
  cases h with
  | not ht => exact ⟨_, _, rfl, by simp [ht, startsUnary]⟩
  | comparison hc =>
    obtain ⟨t, us, rfl, ht⟩ := hc.head
    exact ⟨t, us, rfl, by simp [ht, startsUnary]⟩

theorem Conjunction.head {ts : List Token} {e : Expr} (h : Conjunction ts e) :
    ∃ t us, ts = t :: us ∧ startsUnary t.kind = Bool.true := by
  cases h with
  | mk hu _ =>
    obtain ⟨t, us, rfl, ht⟩ := hu.head
    exact ⟨t, _, rfl, ht⟩

theorem Disjunction.head {ts : List Token} {e : Expr} (h : Disjunction ts e) :
    ∃ t us, ts = t :: us ∧ startsUnary t.kind = Bool.true := by
  cases h with
  | mk hc _ =>
    obtain ⟨t, us, rfl, ht⟩ := hc.head
    exact ⟨t, _, rfl, ht⟩

theorem Primary.ne_nil {ts : List Token} {e : Expr} (h : Primary ts e) : ts ≠ [] := by
  obtain ⟨t, us, rfl, _⟩ := h.head
  exact List.cons_ne_nil t us

theorem Term.ne_nil {ts : List Token} {e : Expr} (h : Term ts e) : ts ≠ [] := by
  obtain ⟨t, us, rfl, _⟩ := h.head
  exact List.cons_ne_nil t us

theorem Additive.ne_nil {ts : List Token} {e : Expr} (h : Additive ts e) : ts ≠ [] := by
  obtain ⟨t, us, rfl, _⟩ := h.head
  exact List.cons_ne_nil t us

theorem Unary.ne_nil {ts : List Token} {e : Expr} (h : Unary ts e) : ts ≠ [] := by
  obtain ⟨t, us, rfl, _⟩ := h.head
  exact List.cons_ne_nil t us

theorem Conjunction.ne_nil {ts : List Token} {e : Expr} (h : Conjunction ts e) : ts ≠ [] := by
  obtain ⟨t, us, rfl, _⟩ := h.head
  exact List.cons_ne_nil t us

theorem Disjunction.ne_nil {ts : List Token} {e : Expr} (h : Disjunction ts e) : ts ≠ [] := by
  obtain ⟨t, us, rfl, _⟩ := h.head
  exact List.cons_ne_nil t us

theorem ArgList.head {ts : List Token} {es : List Expr} (h : ArgList ts es) :
    ∃ t us, ts = t :: us ∧ startsUnary t.kind = Bool.true := by
  cases h with
  | last hd => exact hd.head
  | cons hd =>
    obtain ⟨t, us, rfl, ht⟩ := hd.head
    exact ⟨t, _, rfl, ht⟩

/-! ## What may follow a rule

The rules nest from the tightest, `primary` (1), through `term` (2), `additive` (3),
`comparison` and `unary_expr` (4) and `and_expr` (5), to `or_expr` (6). A token continues
at most one of them: `(` and `:` a name that becomes a call, `*`, `/` and `%` a term, and so
on up to `||`, which continues an `or_expr`. An expression of rule `n` is complete before a
token only when the token continues no rule, or a looser one. -/

/-- The rule a token continues when it follows an expression, or 0 for none. -/
def continuesAt : TokenKind → Nat
  | .lparen | .colon => 1
  | .star | .slash | .percent => 2
  | .plus | .minus => 3
  | .eq | .ne | .lt | .gt | .le | .ge | .like | .unlike => 4
  | .and => 5
  | .or => 6
  | _ => 0

/-- What may come after an expression of rule `n` without continuing it: the end of the
text, or a token that continues no rule or a looser one. A failure to read the next token
may not, since the reader looks at it. -/
def Follows (n : Nat) : Stream → Prop
  | .eof _ => True
  | .fail _ => False
  | .cons t _ => continuesAt t.kind = 0 ∨ n < continuesAt t.kind

theorem Follows.mono {m n : Nat} {r : Stream} (hmn : m ≤ n) (h : Follows n r) : Follows m r := by
  cases r with
  | eof => trivial
  | fail => exact h
  | cons t _ =>
    simp only [Follows] at h ⊢
    omega

theorem follows_cons {n : Nat} {t : Token} (rest : Stream) (h : n < continuesAt t.kind) :
    Follows n (.cons t rest) := .inr h

theorem follows_of_continuesAt_zero {n : Nat} {t : Token} (rest : Stream)
    (h : continuesAt t.kind = 0) : Follows n (.cons t rest) := .inl h

/-- A token after a complete expression of rule `n` continues none of the rules `1..n`. -/
theorem Follows.not_continues {n m : Nat} {t : Token} {rest : Stream}
    (h : Follows n (.cons t rest)) (hm : 0 < m) (hmn : m ≤ n) : continuesAt t.kind ≠ m := by
  simp only [Follows] at h
  omega

theorem CompareToken.continuesAt_eq {k : TokenKind} {op : CompareOp} (h : CompareToken k op) :
    continuesAt k = 4 := by
  cases h <;> rfl

theorem AddToken.continuesAt_eq {k : TokenKind} {op : ArithOp} (h : AddToken k op) :
    continuesAt k = 3 := by
  cases h <;> rfl

theorem MulToken.continuesAt_eq {k : TokenKind} {op : ArithOp} (h : MulToken k op) :
    continuesAt k = 2 := by
  cases h <;> rfl

theorem Follows.ne_fail {n : Nat} {r : Stream} (h : Follows n r) (e : SyntaxError) :
    r ≠ .fail e := by
  rintro rfl
  exact h

end Grammar

end EdgeQuery.Query
