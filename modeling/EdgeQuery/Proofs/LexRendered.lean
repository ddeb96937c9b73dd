import EdgeQuery.Proofs.LexPieces
import EdgeQuery.Query.Printer
/-! # Printed filters read as tokens

The printer writes a filter so that the reader's tokens follow the tree: `Expr.lexemes`
lists, for every tree, the kinds and texts of the tokens of its printed form, built the
way `Expr.render` builds the text. `lexesTo_render` shows that reading the printed text
gives exactly those tokens, for every tree the printer writes faithfully (`Expr.Printable`):
its names are identifiers, its integers fit in 64 bits, its floats are finite, its
junctions have terms and it has no empty slots.

The proof follows the printer: each piece of the text is read by a lemma of
`Proofs.LexPieces`, and the pieces are put together by `LexesTo.append`. What may follow a
printed expression is a blank, a closing bracket, a comma or the end (`Delim`). -/

namespace EdgeQuery

/-! ### Numerals of printed numbers -/

namespace Numeral

/-- The numeral of a natural number's decimal digits. -/
def ofNat (m : Nat) : Numeral := ⟨Nat.toDigits 10 m, none, none⟩

theorem wellFormed_ofNat (m : Nat) : (ofNat m).WellFormed :=
  ⟨⟨Nat.toDigits_ne_nil, fun c hc => Read.isDigit_of_isDigit
    (Nat.isDigit_of_mem_toDigits (by decide) (by decide) hc)⟩, by simp [ofNat], by simp [ofNat]⟩

@[simp] theorem kind_ofNat (m : Nat) : (ofNat m).kind = .int := rfl

@[simp] theorem kind_ofDigits (ds : List Char) (point : ℤ) :
    (ofDigits ds point).kind = .float := by
  unfold ofDigits
  split_ifs <;> simp [kind]

/-- A well-formed numeral starts with a digit. -/
theorem head_chars {n : Numeral} (hn : n.WellFormed) :
    ∃ c cs, n.chars = c :: cs ∧ Read.isDigit c = true := by
  obtain ⟨⟨hw0, hw⟩, -, -⟩ := hn
  obtain ⟨c, w, hcw⟩ := List.exists_cons_of_ne_nil hw0
  exact ⟨c, w ++ fractionChars n.fraction ++ exponentChars n.exponent, by simp [chars, hcw],
    hw c (by simp [hcw])⟩

end Numeral

namespace Query

open Lexer

/-- An integer prints as its sign and the numeral of its magnitude. -/
theorem intText_toList (n : Int) :
    (toString n).toList = (if n < 0 then ['-'] else []) ++ (Numeral.ofNat n.natAbs).chars := by
  cases n with
  | ofNat m =>
    show (Nat.repr m).toList = _
    simp [Nat.toList_repr, Numeral.ofNat, Numeral.chars, Numeral.fractionChars,
      Numeral.exponentChars]
  | negSucc m =>
    show ("-" ++ Nat.repr (m + 1)).toList = _
    simp [Nat.toList_repr, Numeral.ofNat, Numeral.chars, Numeral.fractionChars,
      Numeral.exponentChars, Int.negSucc_lt_zero]

/-! ### Token kinds of operators and names -/

/-- The token kind of a comparison operator. -/
def CompareOp.kind : CompareOp → TokenKind
  | .eq => .eq
  | .ne => .ne
  | .lt => .lt
  | .gt => .gt
  | .le => .le
  | .ge => .ge
  | .like => .like
  | .unlike => .unlike

/-- The token kind of an arithmetic operator. -/
def ArithOp.kind : ArithOp → TokenKind
  | .add => .plus
  | .sub => .minus
  | .mul => .star
  | .div => .slash
  | .mod => .percent

/-- A name that reads back as one identifier: name bytes that are no keyword. -/
def IsName (n : String) : Prop :=
  ∃ bs, NameBytes bs ∧ asciiText bs = n ∧ nameKind n = .ident

/-! ### Lexemes of literals -/

namespace Literal

/-- The lexemes of a number's text: a minus sign of its own, then the number. -/
def numberLexemes (k : TokenKind) (text : String) : List Lexeme :=
  match text.toList with
  | '-' :: cs => [(.minus, "-"), (k, String.ofList cs)]
  | _ => [(k, text)]

/-- The lexemes of a literal's printed form. -/
def lexemes : Literal → List Lexeme
  | null => [(.kwNull, "null")]
  | bool b => if b then [(.kwTrue, "true")] else [(.kwFalse, "false")]
  | int n => numberLexemes .int (toString n)
  | float x => numberLexemes .float (floatText x)
  | str s => [(.str, s)]

/-- Literals printed in a form that reads back: integers of 64 bits and finite floats. -/
def Printable : Literal → Prop
  | int n => -Int.pow 2 63 ≤ n ∧ n < Int.pow 2 63
  | float x => Binary64.isFinite x = true
  | _ => True

end Literal

/-! ### Lexemes of expressions -/

namespace Expr

/-- The lexemes of an operand at a place of strength `min`, given its own lexemes. -/
def operandLexemes (e : Expr) (min : Nat) (ls : List Lexeme) : List Lexeme :=
  match e with
  | hole => [(.kwNull, "null")]
  | e => if e.strength < min then (.lparen, "(") :: (ls ++ [(.rparen, ")")]) else ls

/-- Lexeme lists joined by a separator. -/
def joinLexemes (sep : Lexeme) : List (List Lexeme) → List Lexeme
  | [] => []
  | l :: ls => l ++ ls.flatMap (sep :: ·)

/-- The lexemes of a call's name: the namespace and a colon, if there is a namespace. -/
def nameLexemes (ns name : String) : List Lexeme :=
  (if ns = "" then [] else [(.ident, ns), (.colon, ":")]) ++ [(.ident, name)]

mutual

/-- The kinds and texts of the tokens of an expression's printed form. -/
def lexemes : Expr → List Lexeme
  | field n => [(.ident, n)]
  | lit l => l.lexemes
  | compare op l r =>
    operandLexemes l 5 (lexemes l) ++ (op.kind, op.symbol) :: operandLexemes r 5 (lexemes r)
  | arith op l r =>
    let p := if op.isMultiplicative then 6 else 5
    operandLexemes l p (lexemes l) ++ (op.kind, op.symbol) :: operandLexemes r (p + 1) (lexemes r)
  | and ts => joinLexemes (.and, "&&") (operandsLexemes ts 3)
  | or ts => joinLexemes (.or, "||") (operandsLexemes ts 2)
  | not t =>
    match t with
    | hole => [(.not, "!"), (.lparen, "("), (.rparen, ")")]
    | t => if bareUnderNot t then (.not, "!") :: lexemes t
      else (.not, "!") :: (.lparen, "(") :: (lexemes t ++ [(.rparen, ")")])
  | call ns name args =>
    nameLexemes ns name ++ (.lparen, "(") :: (joinLexemes (.comma, ",") (lexemesAll args) ++
      [(.rparen, ")")])
  | paren t =>
    match t with
    | hole => [(.lparen, "("), (.rparen, ")")]
    | t => (.lparen, "(") :: (lexemes t ++ [(.rparen, ")")])
  | hole => []

/-- The lexemes of junction terms, each as an operand of strength `min`. -/
def operandsLexemes : List Expr → Nat → List (List Lexeme)
  | [], _ => []
  | t :: ts, min => operandLexemes t min (lexemes t) :: operandsLexemes ts min

/-- The lexemes of call arguments. -/
def lexemesAll : List Expr → List (List Lexeme)
  | [] => []
  | t :: ts => lexemes t :: lexemesAll ts

end

/-- The trees the printer writes faithfully: names that read as identifiers, literals that
read back, junctions with terms, and no empty slots. -/
inductive Printable : Expr → Prop
  | field {n : String} : IsName n → Printable (field n)
  | lit {l : Literal} : l.Printable → Printable (lit l)
  | compare {op : CompareOp} {l r : Expr} : Printable l → Printable r →
      Printable (compare op l r)
  | arith {op : ArithOp} {l r : Expr} : Printable l → Printable r → Printable (arith op l r)
  | and {ts : List Expr} : ts ≠ [] → (∀ t ∈ ts, Printable t) → Printable (and ts)
  | or {ts : List Expr} : ts ≠ [] → (∀ t ∈ ts, Printable t) → Printable (or ts)
  | not {t : Expr} : Printable t → Printable (not t)
  | call {ns name : String} {args : List Expr} : (ns = "" ∨ IsName ns) → IsName name →
      (∀ t ∈ args, Printable t) → Printable (call ns name args)
  | paren {t : Expr} : Printable t → Printable (paren t)

end Expr

/-! ### Reading literals -/

namespace Literal

theorem numberLexemes_signed (k : TokenKind) (negative : Bool) {n : Numeral}
    (hn : n.WellFormed) :
    numberLexemes k (String.ofList ((if negative then ['-'] else []) ++ n.chars)) =
      (if negative then [(.minus, "-")] else []) ++ [(k, String.ofList n.chars)] := by
  obtain ⟨c, cs, hcs, hc⟩ := Numeral.head_chars hn
  have hne : c ≠ '-' := Read.ne_of_isDigit hc rfl
  cases negative
  · -- the numeral starts with a digit, not a sign
    simp only [numberLexemes, String.toList_ofList, hcs, Bool.false_eq_true, if_false,
      List.nil_append]
    split
    · rename_i h; exact absurd (List.cons.inj h).1 hne
    · rfl
  · simp [numberLexemes, hcs]

end Literal

namespace Lexer

/-- A numeral, with a minus sign or none, reads as a minus token and a number. -/
theorem lexesTo_signed (negative : Bool) {n : Numeral} (hn : n.WellFormed) :
    LexesTo (Bytes.ofString (String.ofList ((if negative then ['-'] else []) ++ n.chars)))
      ((if negative then [(.minus, "-")] else []) ++ [(n.kind, String.ofList n.chars)])
      NameStop := by
  cases negative
  · exact lexesTo_numeral hn
  · -- the minus sign makes no two-byte operator with anything
    have henc : Bytes.ofString (String.ofList ((if true = true then ['-'] else []) ++ n.chars)) =
        [byte '-'] ++ Bytes.ofString (String.ofList n.chars) := by
      simp only [if_true, List.singleton_append, Bytes.ofString_ofList, List.flatMap_cons]
      rfl
    have hminus : LexesTo [byte '-'] [(.minus, "-")]
        (fun tail => ∀ c ∈ tail.head?, twoByteKind (byte '-') c = none) :=
      lexesTo_oneByte (b := byte '-') (by decide) (by decide)
    rw [henc]
    exact hminus.append (lexesTo_numeral hn)
      (fun _ _ c _ => twoByteKind_of_opStart (by decide) c)

/-- A word of name bytes reads as one name token of its keyword kind. -/
theorem lexesTo_word {s : String} {bs : Bytes} (henc : Bytes.ofString s = bs)
    (hbs : NameBytes bs) (htext : asciiText bs = s) :
    LexesTo (Bytes.ofString s) [(nameKind s, s)] NameStop := by
  rw [henc]
  simpa [htext] using lexesTo_name hbs

/-- A name reads as one identifier. -/
theorem lexesTo_isName {n : String} (hn : IsName n) :
    LexesTo (Bytes.ofString n) [(.ident, n)] NameStop := by
  obtain ⟨bs, hbs, htext, hkind⟩ := hn
  have h := lexesTo_word (by rw [← htext]; exact ofString_asciiText hbs.lt) hbs htext
  rwa [hkind] at h

/-- A literal the printer writes faithfully reads as its lexemes. -/
theorem lexesTo_literal {l : Literal} (hl : l.Printable) :
    LexesTo (Bytes.ofString l.render) l.lexemes NameStop := by
  cases l with
  | null =>
    exact @lexesTo_word _ [110, 117, 108, 108] (by rw [Bytes.ofString_eq]; rfl)
      ⟨by decide, List.all_eq_true.1 rfl⟩ (by decide)
  | bool b =>
    cases b
    · exact @lexesTo_word _ [102, 97, 108, 115, 101] (by rw [Bytes.ofString_eq]; rfl)
        ⟨by decide, List.all_eq_true.1 rfl⟩ (by decide)
    · exact @lexesTo_word _ [116, 114, 117, 101] (by rw [Bytes.ofString_eq]; rfl)
        ⟨by decide, List.all_eq_true.1 rfl⟩ (by decide)
  | int n =>
    have hn := Numeral.wellFormed_ofNat n.natAbs
    have htext : Literal.render (.int n) =
        String.ofList ((if decide (n < 0) then ['-'] else []) ++ (Numeral.ofNat n.natAbs).chars) := by
      rw [show Literal.render (.int n) = toString n from rfl,
        ← String.ofList_toList (s := toString n), intText_toList]
      simp only [decide_eq_true_eq]
    have h := lexesTo_signed (decide (n < 0)) hn
    rw [Numeral.kind_ofNat, ← Literal.numberLexemes_signed .int _ hn, ← htext] at h
    exact h
  | float x =>
    have hx : Binary64.isFinite x = true := hl
    have hn := wellFormed_ofFloat hx
    have htext : Literal.render (.float x) = String.ofList
        ((if (Binary64.parts x).negative then ['-'] else []) ++
          (Numeral.ofDigits (Decimal.ofFloat x).digits (Decimal.ofFloat x).point).chars) := by
      rw [← floatText_toList hx, String.ofList_toList]
      rfl
    have h := lexesTo_signed (Binary64.parts x).negative hn
    rw [Numeral.kind_ofDigits, ← Literal.numberLexemes_signed .float _ hn, ← htext] at h
    exact h
  | str s => exact (lexesTo_quote s).mono fun _ _ => trivial

/-! ### Punctuation and operators -/

/-- What follows a printed expression: a blank, a closing bracket, a comma or the end. -/
def Delim (tail : Bytes) : Prop :=
  ∀ c ∈ tail.head?, c = byte ' ' ∨ c = byte ')' ∨ c = byte ','

theorem nameStop_of_delim {tail : Bytes} (h : Delim tail) : NameStop tail := by
  intro c hc
  rcases h c hc with rfl | rfl | rfl <;> decide

theorem ofString_space_append (s : String) :
    Bytes.ofString (" " ++ s) = byte ' ' :: Bytes.ofString s := by
  rw [Bytes.ofString_append, show Bytes.ofString " " = [byte ' '] by rw [Bytes.ofString_eq]; rfl]
  rfl

/-- Bytes that start with a blank, a closing bracket or a comma may follow an expression. -/
theorem delim_of_head {b : Bytes} {c : UInt8} (hb : b.head? = some c)
    (hc : c = byte ' ' ∨ c = byte ')' ∨ c = byte ',') (tail : Bytes) : Delim (b ++ tail) := by
  intro d hd
  rw [List.head?_append, hb] at hd
  rw [← Option.some.inj hd]
  exact hc

/-- A bracket, comma or colon: a one-byte token that nothing joins. -/
theorem lexesTo_mark {b : UInt8} {k : TokenKind} {text : String} (hb : isBlank b = false)
    (h : oneByteKind b = some k) (hop : opStart b = false) (htext : asciiText [b] = text) :
    LexesTo [b] [(k, text)] (fun _ => True) := by
  rw [← htext]
  exact (lexesTo_oneByte hb h).mono fun _ _ c _ => twoByteKind_of_opStart hop c

/-- An operator of two bytes between blanks. -/
theorem lexesTo_spacedTwo {b c : UInt8} {k : TokenKind} {text : String}
    (hb : isBlank b = false) (h : twoByteKind b c = some k) (htext : asciiText [b, c] = text) :
    LexesTo ([byte ' '] ++ [b, c] ++ [byte ' ']) [(k, text)] (fun _ => True) := by
  rw [← htext]
  have hfront : LexesTo ([byte ' '] ++ [b, c]) [(k, asciiText [b, c])] (fun _ => True) :=
    (lexesTo_blank (by decide) (fun _ => True)).append (lexesTo_twoByte hb h _) fun _ _ => trivial
  exact hfront.append (lexesTo_blank (by decide) (fun _ => True)) fun _ _ => trivial

/-- An operator of one byte between blanks. -/
theorem lexesTo_spacedOne {b : UInt8} {k : TokenKind} {text : String}
    (hb : isBlank b = false) (h : oneByteKind b = some k)
    (hspace : twoByteKind b (byte ' ') = none) (htext : asciiText [b] = text) :
    LexesTo ([byte ' '] ++ [b] ++ [byte ' ']) [(k, text)] (fun _ => True) := by
  rw [← htext]
  have hfront : LexesTo ([byte ' '] ++ [b]) [(k, asciiText [b])]
      (fun tail => ∀ c ∈ tail.head?, twoByteKind b c = none) :=
    (lexesTo_blank (by decide) (fun _ => True)).append (lexesTo_oneByte hb h) fun _ _ => trivial
  refine hfront.append (lexesTo_blank (by decide) (fun _ => True)) ?_
  intro tail _ c hc
  simp only [List.cons_append, List.nil_append, List.head?_cons, Option.mem_def,
    Option.some.injEq] at hc
  rw [← hc]
  exact hspace

theorem lexesTo_compareSymbol (op : CompareOp) :
    LexesTo (Bytes.ofString (" " ++ op.symbol ++ " ")) [(op.kind, op.symbol)] (fun _ => True) := by
  cases op
  · rw [show Bytes.ofString (" " ++ CompareOp.symbol .eq ++ " ") = [byte ' '] ++ [61, 61] ++
      [byte ' '] by rw [Bytes.ofString_eq]; rfl]
    exact lexesTo_spacedTwo (by decide) (by decide) (by decide)
  · rw [show Bytes.ofString (" " ++ CompareOp.symbol .ne ++ " ") = [byte ' '] ++ [33, 61] ++
      [byte ' '] by rw [Bytes.ofString_eq]; rfl]
    exact lexesTo_spacedTwo (by decide) (by decide) (by decide)
  · rw [show Bytes.ofString (" " ++ CompareOp.symbol .lt ++ " ") = [byte ' '] ++ [60] ++
      [byte ' '] by rw [Bytes.ofString_eq]; rfl]
    exact lexesTo_spacedOne (by decide) (by decide) (by decide) (by decide)
  · rw [show Bytes.ofString (" " ++ CompareOp.symbol .gt ++ " ") = [byte ' '] ++ [62] ++
      [byte ' '] by rw [Bytes.ofString_eq]; rfl]
    exact lexesTo_spacedOne (by decide) (by decide) (by decide) (by decide)
  · rw [show Bytes.ofString (" " ++ CompareOp.symbol .le ++ " ") = [byte ' '] ++ [60, 61] ++
      [byte ' '] by rw [Bytes.ofString_eq]; rfl]
    exact lexesTo_spacedTwo (by decide) (by decide) (by decide)
  · rw [show Bytes.ofString (" " ++ CompareOp.symbol .ge ++ " ") = [byte ' '] ++ [62, 61] ++
      [byte ' '] by rw [Bytes.ofString_eq]; rfl]
    exact lexesTo_spacedTwo (by decide) (by decide) (by decide)
  · rw [show Bytes.ofString (" " ++ CompareOp.symbol .like ++ " ") = [byte ' '] ++ [61, 126] ++
      [byte ' '] by rw [Bytes.ofString_eq]; rfl]
    exact lexesTo_spacedTwo (by decide) (by decide) (by decide)
  · rw [show Bytes.ofString (" " ++ CompareOp.symbol .unlike ++ " ") = [byte ' '] ++ [33, 126] ++
      [byte ' '] by rw [Bytes.ofString_eq]; rfl]
    exact lexesTo_spacedTwo (by decide) (by decide) (by decide)

theorem lexesTo_arithSymbol (op : ArithOp) :
    LexesTo (Bytes.ofString (" " ++ op.symbol ++ " ")) [(op.kind, op.symbol)] (fun _ => True) := by
  cases op
  · rw [show Bytes.ofString (" " ++ ArithOp.symbol .add ++ " ") = [byte ' '] ++ [43] ++
      [byte ' '] by rw [Bytes.ofString_eq]; rfl]
    exact lexesTo_spacedOne (by decide) (by decide) (by decide) (by decide)
  · rw [show Bytes.ofString (" " ++ ArithOp.symbol .sub ++ " ") = [byte ' '] ++ [45] ++
      [byte ' '] by rw [Bytes.ofString_eq]; rfl]
    exact lexesTo_spacedOne (by decide) (by decide) (by decide) (by decide)
  · rw [show Bytes.ofString (" " ++ ArithOp.symbol .mul ++ " ") = [byte ' '] ++ [42] ++
      [byte ' '] by rw [Bytes.ofString_eq]; rfl]
    exact lexesTo_spacedOne (by decide) (by decide) (by decide) (by decide)
  · rw [show Bytes.ofString (" " ++ ArithOp.symbol .div ++ " ") = [byte ' '] ++ [47] ++
      [byte ' '] by rw [Bytes.ofString_eq]; rfl]
    exact lexesTo_spacedOne (by decide) (by decide) (by decide) (by decide)
  · rw [show Bytes.ofString (" " ++ ArithOp.symbol .mod ++ " ") = [byte ' '] ++ [37] ++
      [byte ' '] by rw [Bytes.ofString_eq]; rfl]
    exact lexesTo_spacedOne (by decide) (by decide) (by decide) (by decide)

theorem lexesTo_conj : LexesTo (Bytes.ofString " && ") [(.and, "&&")] (fun _ => True) := by
  rw [show Bytes.ofString " && " = [byte ' '] ++ [38, 38] ++ [byte ' '] by
    rw [Bytes.ofString_eq]; rfl]
  exact lexesTo_spacedTwo (by decide) (by decide) (by decide)

theorem lexesTo_disj : LexesTo (Bytes.ofString " || ") [(.or, "||")] (fun _ => True) := by
  rw [show Bytes.ofString " || " = [byte ' '] ++ [124, 124] ++ [byte ' '] by
    rw [Bytes.ofString_eq]; rfl]
  exact lexesTo_spacedTwo (by decide) (by decide) (by decide)

theorem lexesTo_comma : LexesTo (Bytes.ofString ", ") [(.comma, ",")] (fun _ => True) := by
  rw [show Bytes.ofString ", " = [44] ++ [byte ' '] by rw [Bytes.ofString_eq]; rfl]
  exact (lexesTo_mark (by decide) (by decide) (by decide) (by decide)).append
    (lexesTo_blank (by decide) (fun _ => True)) fun _ _ => trivial

/-! ### Putting pieces together -/

/-- Two printed pieces around a separator that starts with a blank or a comma. -/
theorem lexesTo_around {A mid B : String} {la lb : List Lexeme} {op : Lexeme}
    (hA : LexesTo (Bytes.ofString A) la Delim)
    (hmid : LexesTo (Bytes.ofString mid) [op] (fun _ => True))
    (hstart : ∀ tail, Delim (Bytes.ofString mid ++ tail))
    (hB : LexesTo (Bytes.ofString B) lb Delim) :
    LexesTo (Bytes.ofString (A ++ mid ++ B)) (la ++ op :: lb) Delim := by
  rw [Bytes.ofString_append, Bytes.ofString_append, List.append_assoc]
  refine hA.append (hmid.append hB fun _ _ => trivial) fun tail _ => ?_
  rw [List.append_assoc]
  exact hstart _

/-- A printed piece in brackets. -/
theorem lexesTo_parens {text : String} {ls : List Lexeme}
    (h : LexesTo (Bytes.ofString text) ls Delim) :
    LexesTo (Bytes.ofString ("(" ++ text ++ ")"))
      ((.lparen, "(") :: (ls ++ [(.rparen, ")")])) Delim := by
  have hopen : LexesTo [byte '('] [(.lparen, "(")] (fun _ => True) :=
    lexesTo_mark (by decide) (by decide) (by decide) (by decide)
  have hclose : LexesTo [byte ')'] [(.rparen, ")")] (fun _ => True) :=
    lexesTo_mark (by decide) (by decide) (by decide) (by decide)
  rw [Bytes.ofString_append, Bytes.ofString_append,
    show Bytes.ofString "(" = [byte '('] by rw [Bytes.ofString_eq]; rfl,
    show Bytes.ofString ")" = [byte ')'] by rw [Bytes.ofString_eq]; rfl, List.append_assoc]
  -- the closing bracket is what follows the inner text
  have hinner := h.append hclose fun tail _ c hc => Or.inr (Or.inl (Option.some.inj hc).symm)
  exact (hopen.append hinner fun _ _ => trivial).mono fun _ _ => trivial

/-- Printed pieces joined by a separator that starts with a blank or a comma. -/
theorem lexesTo_joinWith {sep : String} {op : Lexeme}
    (hsep : LexesTo (Bytes.ofString sep) [op] (fun _ => True))
    (hstart : ∀ tail, Delim (Bytes.ofString sep ++ tail)) {xs : List String}
    {ls : List (List Lexeme)}
    (h : List.Forall₂ (fun x l => LexesTo (Bytes.ofString x) l Delim) xs ls) :
    LexesTo (Bytes.ofString (Expr.joinWith sep xs)) (Expr.joinLexemes op ls) Delim := by
  induction h with
  | nil => simpa [Expr.joinLexemes, Bytes.ofString_eq] using lexesTo_nil Delim
  | @cons x l xs ls hx hrest ih =>
    cases hrest with
    | nil => simpa [Expr.joinLexemes] using hx
    | @cons x' l' xs' ls' hx' hrest' =>
      -- the first piece, the separator, then the others joined
      have hjoin : Expr.joinLexemes op (l :: l' :: ls') = l ++ op :: Expr.joinLexemes op (l' :: ls') := by
        simp [Expr.joinLexemes]
      rw [Expr.joinWith_cons_cons, hjoin]
      exact lexesTo_around hx hsep hstart ih

/-- A call's name, with its namespace if it has one. -/
theorem lexesTo_qualifiedName {ns name : String} (hns : ns = "" ∨ IsName ns)
    (hname : IsName name) :
    LexesTo (Bytes.ofString (Expr.qualifiedName ns name)) (Expr.nameLexemes ns name) NameStop := by
  by_cases h : ns = ""
  · simpa [Expr.qualifiedName, Expr.nameLexemes, h] using lexesTo_isName hname
  · have hns' : IsName ns := hns.resolve_left h
    have hcolon : LexesTo [byte ':'] [(.colon, ":")] (fun _ => True) :=
      lexesTo_mark (by decide) (by decide) (by decide) (by decide)
    -- the namespace stops at the colon, which nothing joins
    have htail := hcolon.append (lexesTo_isName hname) fun _ _ => trivial
    have hall := (lexesTo_isName hns').append htail fun tail _ c hc => by
      rw [← Option.some.inj hc]; decide
    rw [Expr.qualifiedName, if_neg h, Bytes.ofString_append, Bytes.ofString_append,
      show Bytes.ofString ":" = [byte ':'] by rw [Bytes.ofString_eq]; rfl, List.append_assoc]
    simpa [Expr.nameLexemes, h] using hall

/-- The first byte of a printed operand that may stand right after `!`. -/
def NotJoins (b : Bytes) : Prop := ∀ c ∈ b.head?, c ≠ byte '=' ∧ c ≠ byte '~'

theorem notJoins_of_head {s : String} {c : Char} {cs : List Char} (hs : s.toList = c :: cs)
    (hc : c.toNat < 128) (h : c.toNat ≠ 61 ∧ c.toNat ≠ 126) : NotJoins (Bytes.ofString s) := by
  have henc : String.utf8EncodeChar c = [Bytes.ofChar c] := by
    unfold String.utf8EncodeChar Bytes.ofChar
    rw [if_pos (by rw [← Char.toNat_val] at hc; omega)]
    rfl
  intro b hb
  rw [Bytes.ofString_eq, hs, List.flatMap_cons, henc, List.singleton_append, List.head?_cons,
    Option.mem_def, Option.some_inj] at hb
  subst hb
  have hmod : (Bytes.ofChar c).toNat = c.toNat := by
    simp [Bytes.ofChar, Nat.mod_eq_of_lt (by omega : c.toNat < 256)]
  exact ⟨ne_of_toNat_ne (by rw [hmod]; exact h.1), ne_of_toNat_ne (by rw [hmod]; exact h.2)⟩

theorem notJoins_isName {n : String} (hn : IsName n) : NotJoins (Bytes.ofString n) := by
  obtain ⟨bs, hbs, htext, -⟩ := hn
  rw [← htext, ofString_asciiText hbs.lt]
  cases bs with
  | nil => exact hbs.elim
  | cons b body =>
    intro c hc
    rw [List.head?_cons, Option.mem_def, Option.some_inj] at hc
    subst hc
    have h := hbs.1
    rw [isNameStart_iff] at h
    exact ⟨ne_of_toNat_ne (by rw [show (byte '=').toNat = 61 from rfl]; omega),
      ne_of_toNat_ne (by rw [show (byte '~').toNat = 126 from rfl]; omega)⟩

/-- A signed numeral's text starts with a minus sign or a digit. -/
theorem notJoins_signed (negative : Bool) {n : Numeral} (hn : n.WellFormed) :
    NotJoins (Bytes.ofString (String.ofList ((if negative then ['-'] else []) ++ n.chars))) := by
  obtain ⟨c, cs, hcs, hc⟩ := Numeral.head_chars hn
  rw [Read.isDigit_iff] at hc
  cases negative
  · exact @notJoins_of_head _ c cs (by simp [hcs]) (by omega) (by omega)
  · exact @notJoins_of_head _ '-' n.chars (by simp) (by decide) (by decide)

theorem notJoins_literal {l : Literal} (hl : l.Printable) :
    NotJoins (Bytes.ofString l.render) := by
  cases l with
  | null =>
    exact notJoins_of_head (show "null".toList = 'n' :: "ull".toList from rfl)
      (by decide) (by decide)
  | bool b =>
    cases b
    · exact notJoins_of_head (show "false".toList = 'f' :: "alse".toList from rfl)
        (by decide) (by decide)
    · exact notJoins_of_head (show "true".toList = 't' :: "rue".toList from rfl)
        (by decide) (by decide)
  | int n =>
    rw [show Literal.render (.int n) = toString n from rfl,
      ← String.ofList_toList (s := toString n), intText_toList]
    simpa using notJoins_signed (decide (n < 0)) (Numeral.wellFormed_ofNat n.natAbs)
  | float x =>
    have hx : Binary64.isFinite x = true := hl
    rw [show Literal.render (.float x) = Literal.floatText x from rfl,
      ← String.ofList_toList (s := Literal.floatText x), floatText_toList hx]
    exact notJoins_signed _ (wellFormed_ofFloat hx)
  | str s =>
    exact @notJoins_of_head _ '\'' (s.toList.flatMap Literal.escapeChar ++ ['\''])
      (by simp [Literal.render, Literal.quote]) (by decide) (by decide)

/-- `!` before a piece that does not start with `=` or `~`. -/
theorem lexesTo_bang {b : Bytes} {ls : List Lexeme} (h : LexesTo b ls Delim)
    (hjoin : NotJoins b) : LexesTo (byte '!' :: b) ((.not, "!") :: ls) Delim := by
  have hbang : LexesTo [byte '!'] [(.not, "!")]
      (fun tail => ∀ c ∈ tail.head?, twoByteKind (byte '!') c = none) :=
    lexesTo_oneByte (by decide) (by decide)
  refine hbang.append h fun tail htail c hc => ?_
  -- what follows `!` is the piece's first byte, or a delimiter when the piece is empty
  have hne : c ≠ byte '=' ∧ c ≠ byte '~' := by
    cases hb : b with
    | nil =>
      rw [hb, List.nil_append] at hc
      rcases htail c hc with rfl | rfl | rfl <;> decide
    | cons x xs =>
      rw [hb, List.cons_append, List.head?_cons] at hc
      exact hjoin c (by rw [hb]; exact hc)
  simp +decide [twoByteKind, hne.1, hne.2]

end Lexer

/-! ### Reading a printed expression -/

namespace Expr

theorem Printable.ne_hole {e : Expr} (h : e.Printable) : e ≠ hole := by
  cases h <;> simp

theorem operandText_of_ne_hole {e : Expr} (he : e ≠ hole) (min : Nat) (text : String) :
    operandText e min text = if e.strength < min then "(" ++ text ++ ")" else text := by
  cases e with
  | hole => exact absurd rfl he
  | _ => rfl

theorem operandLexemes_of_ne_hole {e : Expr} (he : e ≠ hole) (min : Nat) (ls : List Lexeme) :
    operandLexemes e min ls =
      if e.strength < min then (.lparen, "(") :: (ls ++ [(.rparen, ")")]) else ls := by
  cases e with
  | hole => exact absurd rfl he
  | _ => rfl

theorem render_not_of_ne_hole {t : Expr} (ht : t ≠ hole) :
    render (not t) = if bareUnderNot t then "!" ++ render t else "!(" ++ render t ++ ")" := by
  cases t with
  | hole => exact absurd rfl ht
  | _ => rfl

theorem lexemes_not_of_ne_hole {t : Expr} (ht : t ≠ hole) :
    lexemes (not t) = if bareUnderNot t then (.not, "!") :: lexemes t
      else (.not, "!") :: (.lparen, "(") :: (lexemes t ++ [(.rparen, ")")]) := by
  cases t with
  | hole => exact absurd rfl ht
  | _ => rfl

theorem render_paren_of_ne_hole {t : Expr} (ht : t ≠ hole) :
    render (paren t) = "(" ++ render t ++ ")" := by
  cases t with
  | hole => exact absurd rfl ht
  | _ => rfl

theorem lexemes_paren_of_ne_hole {t : Expr} (ht : t ≠ hole) :
    lexemes (paren t) = (.lparen, "(") :: (lexemes t ++ [(.rparen, ")")]) := by
  cases t with
  | hole => exact absurd rfl ht
  | _ => rfl

/-- An operand, in brackets where its place binds more tightly than it does. -/
theorem lexesTo_operand {e : Expr} (he : e ≠ hole) (min : Nat)
    (h : LexesTo (Bytes.ofString e.render) e.lexemes Delim) :
    LexesTo (Bytes.ofString (operandText e min e.render)) (operandLexemes e min e.lexemes)
      Delim := by
  rw [operandText_of_ne_hole he, operandLexemes_of_ne_hole he]
  split_ifs
  · exact lexesTo_parens h
  · exact h

theorem forall₂_operands {ts : List Expr} (min : Nat)
    (h : ∀ t ∈ ts, t ≠ hole ∧ LexesTo (Bytes.ofString t.render) t.lexemes Delim) :
    List.Forall₂ (fun x l => LexesTo (Bytes.ofString x) l Delim) (renderOperands ts min)
      (operandsLexemes ts min) := by
  induction ts with
  | nil => exact .nil
  | cons t ts ih =>
    obtain ⟨hne, ht⟩ := h t List.mem_cons_self
    rw [renderOperands, operandsLexemes]
    exact .cons (lexesTo_operand hne min ht) (ih fun u hu => h u (List.mem_cons_of_mem t hu))

theorem forall₂_args {ts : List Expr}
    (h : ∀ t ∈ ts, LexesTo (Bytes.ofString t.render) t.lexemes Delim) :
    List.Forall₂ (fun x l => LexesTo (Bytes.ofString x) l Delim) (renderAll ts)
      (lexemesAll ts) := by
  induction ts with
  | nil => exact .nil
  | cons t ts ih =>
    rw [renderAll, lexemesAll]
    exact .cons (h t List.mem_cons_self) (ih fun u hu => h u (List.mem_cons_of_mem t hu))

theorem notJoins_append {a b : Bytes} (h : NotJoins a) (hne : a ≠ []) : NotJoins (a ++ b) := by
  obtain ⟨x, xs, rfl⟩ := List.exists_cons_of_ne_nil hne
  exact h

theorem ofString_ne_nil_of_isName {n : String} (hn : IsName n) : Bytes.ofString n ≠ [] := by
  obtain ⟨bs, hbs, htext, -⟩ := hn
  rw [← htext, ofString_asciiText hbs.lt]
  rintro rfl
  exact hbs

/-- A negated term written without brackets does not start with `=` or `~`. -/
theorem notJoins_bare {t : Expr} (ht : t.Printable) (hb : bareUnderNot t = true) :
    NotJoins (Bytes.ofString t.render) := by
  cases ht with
  | field hn => exact notJoins_isName hn
  | lit hl => exact notJoins_literal hl
  | @call ns name args hns hname _ =>
    -- the call starts with its namespace, or its name when it has none
    have hq : NotJoins (Bytes.ofString (qualifiedName ns name)) ∧
        Bytes.ofString (qualifiedName ns name) ≠ [] := by
      by_cases h : ns = ""
      · simpa [qualifiedName, h] using ⟨notJoins_isName hname, ofString_ne_nil_of_isName hname⟩
      · have hns' := hns.resolve_left h
        simp only [qualifiedName, h, if_false, Bytes.ofString_append]
        exact ⟨notJoins_append (notJoins_append (notJoins_isName hns')
          (ofString_ne_nil_of_isName hns')) (by simp [ofString_ne_nil_of_isName hns']),
          by simp [ofString_ne_nil_of_isName hns']⟩
    rw [render, Bytes.ofString_append, Bytes.ofString_append, Bytes.ofString_append,
      List.append_assoc, List.append_assoc]
    exact notJoins_append hq.1 hq.2
  | @paren t ht =>
    rw [render_paren_of_ne_hole ht.ne_hole]
    exact @notJoins_of_head _ '(' (render t ++ ")").toList
      (by simp [String.toList_append]) (by decide) (by decide)
  | _ => simp [bareUnderNot] at hb

/-- A tree the printer writes faithfully reads back as its lexemes, whatever may follow an
expression after it. -/
theorem lexesTo_render {e : Expr} (he : e.Printable) :
    LexesTo (Bytes.ofString e.render) e.lexemes Delim := by
  induction he with
  | field hn => exact (lexesTo_isName hn).mono fun _ h => nameStop_of_delim h
  | lit hl => exact (lexesTo_literal hl).mono fun _ h => nameStop_of_delim h
  | @compare op l r hl hr ihl ihr =>
    have hmid : ∀ tail, Delim (Bytes.ofString (" " ++ op.symbol ++ " ") ++ tail) :=
      delim_of_head (by rw [Bytes.ofString_append, ofString_space_append]; rfl) (Or.inl rfl)
    rw [render, lexemes, show ∀ A B : String, A ++ " " ++ op.symbol ++ " " ++ B =
      A ++ (" " ++ op.symbol ++ " ") ++ B from fun A B => by simp only [String.append_assoc]]
    exact lexesTo_around (lexesTo_operand hl.ne_hole 5 ihl) (lexesTo_compareSymbol op) hmid
      (lexesTo_operand hr.ne_hole 5 ihr)
  | @arith op l r hl hr ihl ihr =>
    have hmid : ∀ tail, Delim (Bytes.ofString (" " ++ op.symbol ++ " ") ++ tail) :=
      delim_of_head (by rw [Bytes.ofString_append, ofString_space_append]; rfl) (Or.inl rfl)
    rw [render, lexemes, show ∀ A B : String, A ++ " " ++ op.symbol ++ " " ++ B =
      A ++ (" " ++ op.symbol ++ " ") ++ B from fun A B => by simp only [String.append_assoc]]
    exact lexesTo_around (lexesTo_operand hl.ne_hole _ ihl) (lexesTo_arithSymbol op) hmid
      (lexesTo_operand hr.ne_hole _ ihr)
  | @and ts _ hall ih =>
    rw [render, lexemes]
    exact lexesTo_joinWith lexesTo_conj
      (delim_of_head (by rw [Bytes.ofString_eq]; rfl) (Or.inl rfl))
      (forall₂_operands 3 fun t ht => ⟨(hall t ht).ne_hole, ih t ht⟩)
  | @or ts _ hall ih =>
    rw [render, lexemes]
    exact lexesTo_joinWith lexesTo_disj
      (delim_of_head (by rw [Bytes.ofString_eq]; rfl) (Or.inl rfl))
      (forall₂_operands 2 fun t ht => ⟨(hall t ht).ne_hole, ih t ht⟩)
  | @not t ht ih =>
    rw [render_not_of_ne_hole ht.ne_hole, lexemes_not_of_ne_hole ht.ne_hole]
    split_ifs with hb
    · rw [Bytes.ofString_append, show Bytes.ofString "!" = [byte '!'] by
        rw [Bytes.ofString_eq]; rfl, List.singleton_append]
      exact lexesTo_bang ih (notJoins_bare ht hb)
    · -- a bracketed term after `!`
      rw [show "!(" ++ t.render ++ ")" = "!" ++ ("(" ++ t.render ++ ")") by
        simp only [← String.append_assoc]; rfl, Bytes.ofString_append,
        show Bytes.ofString "!" = [byte '!'] by rw [Bytes.ofString_eq]; rfl,
        List.singleton_append]
      exact lexesTo_bang (lexesTo_parens ih) (@notJoins_of_head _ '('
        (t.render ++ ")").toList (by simp [String.toList_append]) (by decide) (by decide))
  | @call ns name args hns hname _ ih =>
    rw [render, lexemes, show ∀ A B : String, A ++ "(" ++ B ++ ")" = A ++ ("(" ++ B ++ ")") from
      fun A B => by simp only [String.append_assoc], Bytes.ofString_append]
    have hargs := lexesTo_parens (lexesTo_joinWith lexesTo_comma
      (delim_of_head (by rw [Bytes.ofString_eq]; rfl) (Or.inr (Or.inr rfl))) (forall₂_args ih))
    -- the name stops at the opening bracket
    exact (lexesTo_qualifiedName hns hname).append hargs fun tail _ c hc => by
      rw [Bytes.ofString_append, Bytes.ofString_append,
        show Bytes.ofString "(" = [byte '('] by rw [Bytes.ofString_eq]; rfl] at hc
      obtain rfl : c = byte '(' := by simp at hc; exact hc.symm
      decide
  | @paren t ht ih =>
    rw [render_paren_of_ne_hole ht.ne_hole, lexemes_paren_of_ne_hole ht.ne_hole]
    exact lexesTo_parens ih

end Expr

end Query

end EdgeQuery
