import EdgeQuery.Proofs.ReadTrees
/-! # Printed filters read back

The printer writes a tree so that reading the text gives the tree back, with parentheses
where the printer had to write them (`Expr.reread`): `parse_render` shows
`parse e.render = .ok e.reread` for every tree the printer writes faithfully. Printing that
tree again gives the same text (`render_reread`), and apart from its parentheses it is the
tree printed (`unparen_reread`), when the tree's conjunctions and disjunctions have two
terms or more, as the trees reading gives do. So a text read, printed and read again gives
the same text once more and the same tree up to parentheses (`parse_render_of_parse`).

The printer's binding strengths are the grammar's levels (`Derives`): the loosest, a
disjunction, is an `or_expr`, and the tightest is a `primary`. A tree's tokens derive the
tree it reads back as at its own strength, and an operand in parentheses is a `primary`
whatever it holds. Arithmetic grows to the left: an operand after an operator extends the
tail of the derivation before it (`Additive.snoc`). -/

namespace EdgeQuery.Query

namespace Expr

/-! ## The tree a text reads back as -/

/-- The tree an operand's text reads back as, given the tree `t` its own text reads back as:
in parentheses where its place binds more tightly than it does. -/
def operandTree (e : Expr) (min : Nat) (t : Expr) : Expr :=
  if e.strength < min then paren t else t

/-- A chain of terms as it reads back: a chain of one term is that term. -/
def chainTree (node : List Expr → Expr) : List Expr → Expr
  | [t] => t
  | ts => node ts

mutual

/-- The tree the printed form of a tree reads back as: parentheses stand where the printer
writes them, and a conjunction or disjunction of one term is that term. -/
def reread : Expr → Expr
  | field n => field n
  | lit l => lit l
  | compare op l r => compare op (operandTree l 5 (reread l)) (operandTree r 5 (reread r))
  | arith op l r =>
    let p := if op.isMultiplicative then 6 else 5
    arith op (operandTree l p (reread l)) (operandTree r (p + 1) (reread r))
  | and ts => chainTree and (rereadOperands ts 3)
  | or ts => chainTree or (rereadOperands ts 2)
  | not t => if bareUnderNot t then not (reread t) else not (paren (reread t))
  | call ns name args => call ns name (rereadAll args)
  | paren t => paren (reread t)
  | hole => hole

/-- The trees junction terms read back as, each as an operand of strength `min`. -/
def rereadOperands : List Expr → Nat → List Expr
  | [], _ => []
  | t :: ts, min => operandTree t min (reread t) :: rereadOperands ts min

/-- The trees call arguments read back as. -/
def rereadAll : List Expr → List Expr
  | [] => []
  | t :: ts => reread t :: rereadAll ts

end

mutual

/-- A tree with its parentheses taken out, at every depth. -/
def unparen : Expr → Expr
  | compare op l r => compare op (unparen l) (unparen r)
  | arith op l r => arith op (unparen l) (unparen r)
  | and ts => and (unparenAll ts)
  | or ts => or (unparenAll ts)
  | not t => not (unparen t)
  | call ns name args => call ns name (unparenAll args)
  | paren t => unparen t
  | e => e

/-- The trees of a list with their parentheses taken out. -/
def unparenAll : List Expr → List Expr
  | [] => []
  | t :: ts => unparen t :: unparenAll ts

end

theorem one_le_strength (e : Expr) : 1 ≤ e.strength := by
  cases e with
  | arith op =>
    simp only [strength]
    split <;> omega
  | _ => simp [strength]

theorem chainTree_cons (node : List Expr → Expr) (t : Expr) (ts : List Expr) :
    chainTree node (t :: ts) = Grammar.junction node t ts := by
  cases ts <;> rfl

theorem chainTree_of_two_le {node : List Expr → Expr} {ts : List Expr} (h : 2 ≤ ts.length) :
    chainTree node ts = node ts := by
  match ts, h with
  | _ :: _ :: _, _ => rfl

@[simp] theorem length_rereadOperands (ts : List Expr) (min : Nat) :
    (rereadOperands ts min).length = ts.length := by
  induction ts with
  | nil => rfl
  | cons t ts ih => simp [rereadOperands, ih]

theorem bareUnderNot_reread {t : Expr} (h : bareUnderNot t = true) :
    bareUnderNot t.reread = true := by
  cases t <;> simp_all [bareUnderNot, reread]

theorem strength_of_bareUnderNot {t : Expr} (h : bareUnderNot t = true) : t.strength = 7 := by
  cases t <;> simp_all [bareUnderNot, strength]

theorem operandTree_ne_hole (e : Expr) (min : Nat) {t : Expr} (ht : t ≠ hole) :
    operandTree e min t ≠ hole := by
  unfold operandTree
  split <;> simp [ht]

/-- An operand reads back as a tree that binds at least as tightly as its place asks. -/
theorem le_strength_operandTree {e t : Expr} {min : Nat} (hmin : min ≤ 7)
    (hs : e.strength ≤ t.strength) : min ≤ (operandTree e min t).strength := by
  unfold operandTree
  split
  · exact hmin
  · omega

theorem Printable.reread_ne_hole {e : Expr} (he : e.Printable) : e.reread ≠ hole := by
  induction he with
  | @and ts hne _ ih | @or ts hne _ ih =>
    obtain ⟨t, ts, rfl⟩ := List.exists_cons_of_ne_nil hne
    cases ts with
    | nil => exact operandTree_ne_hole t _ (ih t List.mem_cons_self)
    | cons => simp [reread, rereadOperands, chainTree]
  | not =>
    simp only [reread]
    split <;> simp
  | _ => simp [reread]

/-- Reading back binds at least as tightly: only a chain of one term changes its strength,
to that of its term in its place. -/
theorem Printable.strength_le_reread {e : Expr} (he : e.Printable) :
    e.strength ≤ e.reread.strength := by
  induction he with
  | @and ts hne _ ih =>
    obtain ⟨t, ts, rfl⟩ := List.exists_cons_of_ne_nil hne
    cases ts with
    | nil =>
      -- a conjunction of one term reads back as that term in the place of a conjunct
      have h3 : 3 ≤ (operandTree t 3 t.reread).strength :=
        le_strength_operandTree (by omega) (ih t List.mem_cons_self)
      have hr : (Expr.and [t]).reread = operandTree t 3 t.reread := rfl
      rw [hr]
      exact le_trans (by simp [strength]) h3
    | cons => simp [reread, rereadOperands, chainTree, strength]
  | @or ts hne _ ih =>
    obtain ⟨t, ts, rfl⟩ := List.exists_cons_of_ne_nil hne
    cases ts with
    | nil =>
      have h2 : 2 ≤ (operandTree t 2 t.reread).strength :=
        le_strength_operandTree (by omega) (ih t List.mem_cons_self)
      have hr : (Expr.or [t]).reread = operandTree t 2 t.reread := rfl
      rw [hr]
      exact le_trans (by simp [strength]) h2
    | cons => simp [reread, rereadOperands, chainTree, strength]
  | not =>
    simp only [reread]
    split <;> simp [strength]
  | @arith op l r _ _ _ _ =>
    simp only [reread, strength]
    exact le_rfl
  | _ => simp [reread, strength]

end Expr

namespace Grammar

open EdgeQuery.Query.Expr

/-! ## Binding strengths are grammar levels -/

/-- The rule that derives the trees of each binding strength: `or_expr` for the loosest, up
to `primary` for the tightest. -/
def Derives : Nat → List Token → Expr → Prop
  | 0 | 1 => Disjunction
  | 2 => Conjunction
  | 3 => Unary
  | 4 => Comparison
  | 5 => Additive
  | 6 => Term
  | _ => Primary

theorem Term.of_primary {ts : List Token} {e : Expr} (h : Primary ts e) : Term ts e := by
  simpa using Term.mk h .nil

theorem Additive.of_term {ts : List Token} {e : Expr} (h : Term ts e) : Additive ts e := by
  simpa using Additive.mk h .nil

theorem Conjunction.of_unary {ts : List Token} {e : Expr} (h : Unary ts e) :
    Conjunction ts e := by
  simpa [junction] using Conjunction.mk h .nil

theorem Disjunction.of_conjunction {ts : List Token} {e : Expr} (h : Conjunction ts e) :
    Disjunction ts e := by
  simpa [junction] using Disjunction.mk h .nil

/-- What a rule derives, the rule one level looser derives too. -/
theorem Derives.succ {n : Nat} {ts : List Token} {e : Expr} (h : Derives (n + 1) ts e) :
    Derives n ts e := by
  match n, h with
  | 0, h => exact h
  | 1, h => exact Disjunction.of_conjunction h
  | 2, h => exact Conjunction.of_unary h
  | 3, h => exact .comparison h
  | 4, h => exact .operand h
  | 5, h => exact Additive.of_term h
  | 6, h => exact Term.of_primary h
  | _ + 7, h => exact h

theorem Derives.of_le {m n : Nat} {ts : List Token} {e : Expr} (hmn : m ≤ n)
    (h : Derives n ts e) : Derives m ts e := by
  induction hmn with
  | refl => exact h
  | step _ ih => exact ih h.succ

theorem Derives.disjunction {n : Nat} {ts : List Token} {e : Expr} (hn : 1 ≤ n)
    (h : Derives n ts e) : Disjunction ts e :=
  Derives.of_le hn h

/-- A `primary` stands at every level. -/
theorem Derives.of_primary {ts : List Token} {e : Expr} (h : Primary ts e) (m : Nat) :
    Derives m ts e := by
  by_cases hm : m ≤ 7
  · exact Derives.of_le (n := 7) hm h
  · obtain ⟨k, rfl⟩ : ∃ k, m = k + 8 := ⟨m - 8, by omega⟩
    exact h

/-! ## Operators -/

theorem compareToken_kind (op : CompareOp) : CompareToken op.kind op := by
  cases op <;> constructor

theorem addToken_kind {op : ArithOp} (h : op.isMultiplicative = false) :
    AddToken op.kind op := by
  cases op with
  | add => exact .plus
  | sub => exact .minus
  | mul | div | mod => simp [ArithOp.isMultiplicative] at h

theorem mulToken_kind {op : ArithOp} (h : op.isMultiplicative = true) :
    MulToken op.kind op := by
  cases op with
  | mul => exact .star
  | div => exact .slash
  | mod => exact .percent
  | add | sub => simp [ArithOp.isMultiplicative] at h

-- The tails are indexed by their operands, so the induction runs on those.
theorem AddTail.snoc {us vs : List Token} {tail : List (ArithOp × Expr)} {t : Token}
    {op : ArithOp} {r : Expr} (h : AddTail us tail) (hop : AddToken t.kind op)
    (hr : Term vs r) : AddTail (us ++ t :: vs) (tail ++ [(op, r)]) := by
  induction tail generalizing us with
  | nil =>
    cases h
    simpa using AddTail.cons hop hr .nil
  | cons p tail ih =>
    cases h with
    | cons ht hp hd => simpa using AddTail.cons ht hp (ih hd)

theorem MulTail.snoc {us vs : List Token} {tail : List (ArithOp × Expr)} {t : Token}
    {op : ArithOp} {r : Expr} (h : MulTail us tail) (hop : MulToken t.kind op)
    (hr : Primary vs r) : MulTail (us ++ t :: vs) (tail ++ [(op, r)]) := by
  induction tail generalizing us with
  | nil =>
    cases h
    simpa using MulTail.cons hop hr .nil
  | cons p tail ih =>
    cases h with
    | cons ht hp hd => simpa using MulTail.cons ht hp (ih hd)

theorem foldLeft_append_single (first : Expr) (tail : List (ArithOp × Expr)) (op : ArithOp)
    (r : Expr) : foldLeft first (tail ++ [(op, r)]) = .arith op (foldLeft first tail) r := by
  simp [foldLeft]

/-- An additive operator and a term after an additive derivation extend its tail: the new
operand is grouped with everything before it. -/
theorem Additive.snoc {ts us : List Token} {l r : Expr} {t : Token} {op : ArithOp}
    (h : Additive ts l) (hop : AddToken t.kind op) (hr : Term us r) :
    Additive (ts ++ t :: us) (.arith op l r) := by
  cases h with
  | @mk ts₁ ts₂ first tail hfirst htail =>
    have := Additive.mk hfirst (htail.snoc hop hr)
    rwa [foldLeft_append_single, ← List.append_assoc] at this

theorem Term.snoc {ts us : List Token} {l r : Expr} {t : Token} {op : ArithOp}
    (h : Term ts l) (hop : MulToken t.kind op) (hr : Primary us r) :
    Term (ts ++ t :: us) (.arith op l r) := by
  cases h with
  | @mk ts₁ ts₂ first tail hfirst htail =>
    have := Term.mk hfirst (htail.snoc hop hr)
    rwa [foldLeft_append_single, ← List.append_assoc] at this

/-! ## Tokens of lexemes -/

theorem lexeme_eq {t : Token} {k : TokenKind} {s : String} (h : t.lexeme = (k, s)) :
    t.kind = k ∧ t.text = s :=
  ⟨congrArg Prod.fst h, congrArg Prod.snd h⟩

theorem single_of_lexemes {ts : List Token} {k : TokenKind} {s : String}
    (h : ts.map Token.lexeme = [(k, s)]) : ∃ t, ts = [t] ∧ t.kind = k ∧ t.text = s := by
  obtain ⟨t, rfl, ht⟩ := List.map_eq_singleton_iff.1 h
  exact ⟨t, rfl, lexeme_eq ht⟩

/-- Tokens whose lexemes are wrapped in brackets are brackets around tokens. -/
theorem bracketed_of_lexemes {ts : List Token} {ls : List Lexeme}
    (h : ts.map Token.lexeme = (.lparen, "(") :: (ls ++ [(.rparen, ")")])) :
    ∃ o inner c, ts = o :: (inner ++ [c]) ∧ o.kind = .lparen ∧ inner.map Token.lexeme = ls ∧
      c.kind = .rparen := by
  obtain ⟨o, rest, rfl, ho, hrest⟩ := List.map_eq_cons_iff.1 h
  obtain ⟨inner, cl, rfl, hinner, hcl⟩ := List.map_eq_append_iff.1 hrest
  obtain ⟨c, rfl, hc, -⟩ := single_of_lexemes hcl
  exact ⟨o, inner, c, rfl, (lexeme_eq ho).1, hinner, hc⟩

/-- Tokens whose lexemes stand around one lexeme stand around one token. -/
theorem around_of_lexemes {ts : List Token} {la lb : List Lexeme} {l : Lexeme}
    (h : ts.map Token.lexeme = la ++ l :: lb) :
    ∃ A t B, ts = A ++ t :: B ∧ A.map Token.lexeme = la ∧ t.lexeme = l ∧
      B.map Token.lexeme = lb := by
  obtain ⟨A, rest, rfl, hA, hrest⟩ := List.map_eq_append_iff.1 h
  obtain ⟨t, B, rfl, ht, hB⟩ := List.map_eq_cons_iff.1 hrest
  exact ⟨A, t, B, rfl, hA, ht, hB⟩

/-! ## Printed literals -/

theorem signedText_ofList (negative : Bool) (cs : List Char) :
    signedText negative (String.ofList cs) =
      String.ofList ((if negative then ['-'] else []) ++ cs) := by
  cases negative
  · simp [signedText]
  · apply String.toList_injective
    simp [signedText]

theorem digitsValue_toDigits (m : Nat) : Read.digitsValue (Nat.toDigits 10 m) = m := by
  have h : Read.digitsValue (Nat.toDigits 10 m) = Nat.ofDigitChars 10 (Nat.toDigits 10 m) 0 := by
    simp only [Read.digitsValue, Nat.ofDigitChars_eq_foldl, Nat.mul_comm]
    rfl
  rw [h, Nat.ofDigitChars_ten_toDigits]

/-- The tokens of a printed integer are its number, after a minus sign when it is negative. -/
theorem primary_int {n : Int} (hn : (Literal.int n).Printable) {ts : List Token}
    (hts : ts.map Token.lexeme = (Literal.int n).lexemes) : Primary ts (.lit (.int n)) := by
  have hw := Numeral.wellFormed_ofNat n.natAbs
  have hlex : (Literal.int n).lexemes = (if decide (n < 0) then [(.minus, "-")] else []) ++
      [(.int, String.ofList (Numeral.ofNat n.natAbs).chars)] := by
    rw [← Literal.numberLexemes_signed .int (decide (n < 0)) hw, Literal.lexemes,
      ← String.ofList_toList (s := toString n), intText_toList]
    simp only [decide_eq_true_eq]
  have hdigits : Numeral.IsDigits (Numeral.ofNat n.natAbs).chars := by
    simpa [Numeral.ofNat, Numeral.chars, Numeral.fractionChars, Numeral.exponentChars]
      using hw.whole
  have hvalue : Read.digitsValue (Numeral.ofNat n.natAbs).chars = n.natAbs := by
    simpa [Numeral.ofNat, Numeral.chars, Numeral.fractionChars, Numeral.exponentChars]
      using digitsValue_toDigits n.natAbs
  obtain ⟨hlo, hhi⟩ := hn
  rw [hlex] at hts
  by_cases hneg : n < 0
  · simp only [hneg, decide_true, if_true, List.singleton_append] at hts
    obtain ⟨m, rest, rfl, hm, hrest⟩ := List.map_eq_cons_iff.1 hts
    obtain ⟨t, rfl, hk, htext⟩ := single_of_lexemes hrest
    refine .negative (lexeme_eq hm).1 (.int hk (by simpa [htext] using hdigits) ?_ hlo hhi)
    simp only [htext, String.toList_ofList, hvalue, if_true]
    omega
  · simp only [hneg, decide_false, Bool.false_eq_true, if_false, List.nil_append] at hts
    obtain ⟨t, rfl, hk, htext⟩ := single_of_lexemes hts
    refine .number (.int hk (by simpa [htext] using hdigits) ?_ hlo hhi)
    simp only [htext, String.toList_ofList, hvalue, Bool.false_eq_true, if_false]
    omega

/-- The tokens of a printed finite float are its number, after a minus sign when it is
negative, and the number reader gives the float back. -/
theorem primary_float {x : Float} (hx : (Literal.float x).Printable) {ts : List Token}
    (hts : ts.map Token.lexeme = (Literal.float x).lexemes) : Primary ts (.lit (.float x)) := by
  have hfin : Binary64.isFinite x = true := hx
  set negative := (Binary64.parts x).negative
  set n := Numeral.ofDigits (Decimal.ofFloat x).digits (Decimal.ofFloat x).point
  have hw : n.WellFormed := wellFormed_ofFloat hfin
  have htext : Literal.floatText x = String.ofList ((if negative then ['-'] else []) ++ n.chars) := by
    rw [← floatText_toList hfin, String.ofList_toList]
  have hlex : (Literal.float x).lexemes =
      (if negative then [(.minus, "-")] else []) ++ [(.float, String.ofList n.chars)] := by
    rw [← Literal.numberLexemes_signed .float negative hw, Literal.lexemes, htext]
  have hread : Read.parseFloat (signedText negative (String.ofList n.chars)) = .ok x := by
    rw [signedText_ofList, ← htext]
    exact parseFloat_floatText hfin
  rw [hlex] at hts
  cases hneg : negative
  · simp only [hneg, Bool.false_eq_true, if_false, List.nil_append] at hts hread
    obtain ⟨t, rfl, hk, ht⟩ := single_of_lexemes hts
    exact .number (.float hk (by rw [ht]; exact hread))
  · simp only [hneg, if_true, List.singleton_append] at hts hread
    obtain ⟨m, rest, rfl, hm, hrest⟩ := List.map_eq_cons_iff.1 hts
    obtain ⟨t, rfl, hk, ht⟩ := single_of_lexemes hrest
    exact .negative (lexeme_eq hm).1 (.float hk (by rw [ht]; exact hread))

theorem primary_lit {l : Literal} (hl : l.Printable) {ts : List Token}
    (hts : ts.map Token.lexeme = l.lexemes) : Primary ts (.lit l) := by
  cases l with
  | null =>
    obtain ⟨t, rfl, hk, -⟩ := single_of_lexemes hts
    exact .null hk
  | bool b =>
    cases b
    · obtain ⟨t, rfl, hk, -⟩ := single_of_lexemes hts
      exact .false hk
    · obtain ⟨t, rfl, hk, -⟩ := single_of_lexemes hts
      exact .true hk
  | int n => exact primary_int hl hts
  | float x => exact primary_float hl hts
  | str s =>
    obtain ⟨t, rfl, hk, ht⟩ := single_of_lexemes hts
    rw [← ht]
    exact .string hk

/-! ## Printed trees are derived -/

/-- The tokens of a tree's printed form derive, at the tree's own strength, the tree it
reads back as. -/
def ReadsBack (e : Expr) : Prop :=
  ∀ ts : List Token, ts.map Token.lexeme = e.lexemes → Derives e.strength ts e.reread

/-- An operand's tokens derive at the strength of its place, in brackets or not. -/
theorem derives_operand {e : Expr} (he : e.Printable) (hback : ReadsBack e) {min : Nat}
    {ts : List Token}
    (hts : ts.map Token.lexeme = operandLexemes e min e.lexemes) :
    Derives min ts (operandTree e min e.reread) := by
  rw [operandLexemes_of_ne_hole he.ne_hole] at hts
  unfold operandTree
  split_ifs at hts ⊢ with hlt
  · obtain ⟨o, inner, c, rfl, ho, hinner, hc⟩ := bracketed_of_lexemes hts
    exact Derives.of_primary (.paren ho ((hback inner hinner).disjunction (one_le_strength e)) hc) _
  · exact Derives.of_le (by omega) (hback ts hts)

theorem conjuncts_of_operands {ys : List Expr} (h : ∀ y ∈ ys, y.Printable ∧ ReadsBack y)
    {us : List Token}
    (hus : us.map Token.lexeme = (operandsLexemes ys 3).flatMap ((.and, "&&") :: ·)) :
    Conjuncts us (rereadOperands ys 3) := by
  induction ys generalizing us with
  | nil =>
    obtain rfl := List.map_eq_nil_iff.1 hus
    exact .nil
  | cons y ys ih =>
    rw [List.forall_mem_cons] at h
    simp only [operandsLexemes, List.flatMap_cons, List.cons_append] at hus
    obtain ⟨a, rest, rfl, ha, hrest⟩ := List.map_eq_cons_iff.1 hus
    obtain ⟨A, B, rfl, hA, hB⟩ := List.map_eq_append_iff.1 hrest
    exact .cons (lexeme_eq ha).1 (derives_operand h.1.1 h.1.2 hA) (ih h.2 hB)

theorem disjuncts_of_operands {ys : List Expr} (h : ∀ y ∈ ys, y.Printable ∧ ReadsBack y)
    {us : List Token}
    (hus : us.map Token.lexeme = (operandsLexemes ys 2).flatMap ((.or, "||") :: ·)) :
    Disjuncts us (rereadOperands ys 2) := by
  induction ys generalizing us with
  | nil =>
    obtain rfl := List.map_eq_nil_iff.1 hus
    exact .nil
  | cons y ys ih =>
    rw [List.forall_mem_cons] at h
    simp only [operandsLexemes, List.flatMap_cons, List.cons_append] at hus
    obtain ⟨a, rest, rfl, ha, hrest⟩ := List.map_eq_cons_iff.1 hus
    obtain ⟨A, B, rfl, hA, hB⟩ := List.map_eq_append_iff.1 hrest
    exact .cons (lexeme_eq ha).1 (derives_operand h.1.1 h.1.2 hA) (ih h.2 hB)

theorem conjunction_of_operands {ys : List Expr} (hne : ys ≠ [])
    (h : ∀ y ∈ ys, y.Printable ∧ ReadsBack y) {ts : List Token}
    (hts : ts.map Token.lexeme = joinLexemes (.and, "&&") (operandsLexemes ys 3)) :
    Conjunction ts (chainTree .and (rereadOperands ys 3)) := by
  obtain ⟨y, ys, rfl⟩ := List.exists_cons_of_ne_nil hne
  rw [List.forall_mem_cons] at h
  simp only [operandsLexemes, joinLexemes] at hts
  obtain ⟨A, B, rfl, hA, hB⟩ := List.map_eq_append_iff.1 hts
  rw [rereadOperands, chainTree_cons]
  exact .mk (derives_operand h.1.1 h.1.2 hA) (conjuncts_of_operands h.2 hB)

theorem disjunction_of_operands {ys : List Expr} (hne : ys ≠ [])
    (h : ∀ y ∈ ys, y.Printable ∧ ReadsBack y) {ts : List Token}
    (hts : ts.map Token.lexeme = joinLexemes (.or, "||") (operandsLexemes ys 2)) :
    Disjunction ts (chainTree .or (rereadOperands ys 2)) := by
  obtain ⟨y, ys, rfl⟩ := List.exists_cons_of_ne_nil hne
  rw [List.forall_mem_cons] at h
  simp only [operandsLexemes, joinLexemes] at hts
  obtain ⟨A, B, rfl, hA, hB⟩ := List.map_eq_append_iff.1 hts
  rw [rereadOperands, chainTree_cons]
  exact .mk (derives_operand h.1.1 h.1.2 hA) (disjuncts_of_operands h.2 hB)

theorem joinLexemes_cons_cons (sep : Lexeme) (l l' : List Lexeme) (ls : List (List Lexeme)) :
    joinLexemes sep (l :: l' :: ls) = l ++ sep :: joinLexemes sep (l' :: ls) := by
  simp [joinLexemes]

theorem argList_of_args {xs : List Expr} (hne : xs ≠ [])
    (h : ∀ x ∈ xs, x.Printable ∧ ReadsBack x) {ts : List Token}
    (hts : ts.map Token.lexeme = joinLexemes (.comma, ",") (lexemesAll xs)) :
    ArgList ts (rereadAll xs) := by
  induction xs generalizing ts with
  | nil => exact absurd rfl hne
  | cons x xs ih =>
    rw [List.forall_mem_cons] at h
    have hx := fun us hus => (h.1.2 us hus).disjunction (one_le_strength x)
    cases xs with
    | nil =>
      simp only [lexemesAll, joinLexemes, List.flatMap_nil, List.append_nil] at hts
      exact .last (hx ts hts)
    | cons x' xs =>
      rw [lexemesAll, lexemesAll, joinLexemes_cons_cons, ← lexemesAll] at hts
      obtain ⟨A, c, B, rfl, hA, hc, hB⟩ := around_of_lexemes hts
      exact .cons (hx A hA) (lexeme_eq hc).1 (ih (List.cons_ne_nil _ _) h.2 hB)

theorem arguments_of_args {xs : List Expr} (h : ∀ x ∈ xs, x.Printable ∧ ReadsBack x)
    {ts : List Token} (hts : ts.map Token.lexeme = joinLexemes (.comma, ",") (lexemesAll xs)) :
    Arguments ts (rereadAll xs) := by
  cases xs with
  | nil =>
    obtain rfl := List.map_eq_nil_iff.1 hts
    exact .none
  | cons x xs => exact .some (argList_of_args (List.cons_ne_nil _ _) h hts)

/-- The tokens of a call: its name, with its namespace if it has one, and its arguments in
brackets. -/
theorem primary_call {ns name : String} {args : List Expr}
    (h : ∀ x ∈ args, x.Printable ∧ ReadsBack x) {ts : List Token}
    (hts : ts.map Token.lexeme = (call ns name args).lexemes) :
    Primary ts (call ns name (rereadAll args)) := by
  simp only [lexemes, nameLexemes] at hts
  by_cases hempty : ns = ""
  · simp only [hempty, if_true, List.nil_append, List.singleton_append] at hts
    obtain ⟨f, rest, rfl, hf, hrest⟩ := List.map_eq_cons_iff.1 hts
    obtain ⟨o, inner, c, rfl, ho, hinner, hc⟩ := bracketed_of_lexemes hrest
    obtain ⟨hfk, hft⟩ := lexeme_eq hf
    rw [hempty, ← hft]
    exact .call hfk ho (arguments_of_args h hinner) hc
  · simp only [hempty, if_false, List.cons_append, List.nil_append] at hts
    obtain ⟨n, rest, rfl, hn, hrest⟩ := List.map_eq_cons_iff.1 hts
    obtain ⟨k, rest, rfl, hk, hrest⟩ := List.map_eq_cons_iff.1 hrest
    obtain ⟨f, rest, rfl, hf, hrest⟩ := List.map_eq_cons_iff.1 hrest
    obtain ⟨o, inner, c, rfl, ho, hinner, hc⟩ := bracketed_of_lexemes hrest
    obtain ⟨hnk, hnt⟩ := lexeme_eq hn
    obtain ⟨hfk, hft⟩ := lexeme_eq hf
    rw [← hnt, ← hft]
    exact .qualifiedCall hnk (lexeme_eq hk).1 hfk ho (arguments_of_args h hinner) hc

/-- The tokens of a printed tree derive, at its strength, the tree it reads back as. -/
theorem readsBack_of_printable {e : Expr} (he : e.Printable) : ReadsBack e := by
  induction he with
  | @field n hn =>
    intro ts hts
    obtain ⟨t, rfl, hk, ht⟩ := single_of_lexemes hts
    rw [← ht]
    exact Primary.field hk
  | lit hl => exact fun ts hts => primary_lit hl hts
  | @compare op l r hl hr ihl ihr =>
    intro ts hts
    obtain ⟨A, t, B, rfl, hA, ht, hB⟩ := around_of_lexemes hts
    refine Comparison.compare (derives_operand hl ihl hA) ?_
      (derives_operand hr ihr hB)
    rw [(lexeme_eq ht).1]
    exact compareToken_kind op
  | @arith op l r hl hr ihl ihr =>
    intro ts hts
    obtain ⟨A, t, B, rfl, hA, ht, hB⟩ := around_of_lexemes hts
    cases hmul : op.isMultiplicative
    · -- an additive operator: the right operand is a `term`
      simp only [hmul, Bool.false_eq_true, if_false] at hA hB
      have hl' := derives_operand hl ihl hA
      have hr' := derives_operand hr ihr hB
      simp only [reread, strength, hmul, Bool.false_eq_true, if_false]
      refine Additive.snoc hl' ?_ hr'
      rw [(lexeme_eq ht).1]
      exact addToken_kind hmul
    · simp only [hmul, if_true] at hA hB
      have hl' := derives_operand hl ihl hA
      have hr' := derives_operand hr ihr hB
      simp only [reread, strength, hmul, if_true]
      refine Term.snoc hl' ?_ hr'
      rw [(lexeme_eq ht).1]
      exact mulToken_kind hmul
  | @and ts hne _ ih =>
    intro tks htks
    exact Derives.of_le (n := 2) le_rfl
      (conjunction_of_operands hne (fun t ht => ⟨‹∀ t ∈ ts, t.Printable› t ht, ih t ht⟩) htks)
  | @or ts hne _ ih =>
    intro tks htks
    exact disjunction_of_operands hne (fun t ht => ⟨‹∀ t ∈ ts, t.Printable› t ht, ih t ht⟩) htks
  | @not t ht ih =>
    intro ts hts
    rw [lexemes_not_of_ne_hole ht.ne_hole] at hts
    simp only [reread, strength]
    split_ifs at hts ⊢ with hb
    · -- a bare term: a `!` and the term itself, a `primary`
      obtain ⟨n, rest, rfl, hn, hrest⟩ := List.map_eq_cons_iff.1 hts
      have hu := ih rest hrest
      rw [strength_of_bareUnderNot hb] at hu
      exact Unary.not (lexeme_eq hn).1 (Derives.of_le (m := 3) (by omega) hu)
    · obtain ⟨n, rest, rfl, hn, hrest⟩ := List.map_eq_cons_iff.1 hts
      obtain ⟨o, inner, c, rfl, ho, hinner, hc⟩ := bracketed_of_lexemes hrest
      exact Unary.not (lexeme_eq hn).1 (Derives.of_primary
        (.paren ho ((ih inner hinner).disjunction (one_le_strength t)) hc) 3)
  | @call ns name args hns hname hall ih =>
    intro ts hts
    exact primary_call (fun x hx => ⟨hall x hx, ih x hx⟩) hts
  | @paren t ht ih =>
    intro ts hts
    rw [lexemes_paren_of_ne_hole ht.ne_hole] at hts
    obtain ⟨o, inner, c, rfl, ho, hinner, hc⟩ := bracketed_of_lexemes hts
    exact Primary.paren ho ((ih inner hinner).disjunction (one_le_strength t)) hc

/-- A tree the printer writes faithfully reads back from its text as `reread`. -/
theorem parse_render {e : Expr} (he : e.Printable) : parse e.render = .ok e.reread := by
  obtain ⟨ts, pos, hts, hs⟩ := lexesTo_render he [] 0 (by simp [Lexer.Delim])
  have hd : Disjunction ts e.reread := (readsBack_of_printable he ts hts).disjunction (one_le_strength e)
  refine parse_of_derivation (p := pos) ?_ hd
  simpa [Stream.ofText, Lexer.tokens] using hs

end Grammar

namespace Expr

/-! ## Printing again -/

theorem operandText_self {x : Expr} (hx : x ≠ hole) {min : Nat} (hs : min ≤ x.strength) :
    operandText x min x.render = x.render := by
  rw [operandText_of_ne_hole hx, if_neg (by omega)]

/-- An operand read back prints as the operand did. -/
theorem render_operandTree {e t : Expr} (he : e ≠ hole) (ht : t ≠ hole)
    (hr : t.render = e.render) (min : Nat) :
    (operandTree e min t).render = operandText e min e.render := by
  rw [operandText_of_ne_hole he]
  unfold operandTree
  split_ifs
  · rw [render_paren_of_ne_hole ht, hr]
  · exact hr

theorem operandText_operandTree {e : Expr} (he : e.Printable) (hr : e.reread.render = e.render)
    {min : Nat} (hmin : min ≤ 7) :
    operandText (operandTree e min e.reread) min (operandTree e min e.reread).render =
      operandText e min e.render := by
  rw [operandText_self (operandTree_ne_hole e min he.reread_ne_hole)
    (le_strength_operandTree hmin he.strength_le_reread)]
  exact render_operandTree he.ne_hole he.reread_ne_hole hr min

theorem renderOperands_rereadOperands {ts : List Expr} {min : Nat} (hmin : min ≤ 7)
    (h : ∀ t ∈ ts, t.Printable ∧ t.reread.render = t.render) :
    renderOperands (rereadOperands ts min) min = renderOperands ts min := by
  induction ts with
  | nil => rfl
  | cons t ts ih =>
    rw [List.forall_mem_cons] at h
    simp only [rereadOperands, renderOperands]
    rw [operandText_operandTree h.1.1 h.1.2 hmin, ih h.2]

theorem renderAll_rereadAll {ts : List Expr} (h : ∀ t ∈ ts, t.reread.render = t.render) :
    renderAll (rereadAll ts) = renderAll ts := by
  induction ts with
  | nil => rfl
  | cons t ts ih =>
    rw [List.forall_mem_cons] at h
    simp only [rereadAll, renderAll, h.1, ih h.2]

/-- A chain read back prints as the chain did: a chain of one term prints as that term in
its place, and so does the term read back. -/
theorem render_chainTree {node : List Expr → Expr} {sep : String} {min : Nat} (hmin : min ≤ 7)
    (hnode : ∀ xs, 2 ≤ xs.length → (node xs).render = joinWith sep (renderOperands xs min))
    {ts : List Expr} (hne : ts ≠ []) (h : ∀ t ∈ ts, t.Printable ∧ t.reread.render = t.render) :
    (chainTree node (rereadOperands ts min)).render = joinWith sep (renderOperands ts min) := by
  obtain ⟨t, ts, rfl⟩ := List.exists_cons_of_ne_nil hne
  cases ts with
  | nil =>
    have ht := h t List.mem_cons_self
    simp only [rereadOperands, chainTree, renderOperands, joinWith_singleton]
    rw [render_operandTree ht.1.ne_hole ht.1.reread_ne_hole ht.2]
  | cons t' ts =>
    rw [chainTree_of_two_le (by simp), hnode _ (by simp), renderOperands_rereadOperands hmin h]

/-- Printing the tree a text reads back as gives the text again. -/
theorem render_reread {e : Expr} (he : e.Printable) : e.reread.render = e.render := by
  induction he with
  | field => rfl
  | lit => rfl
  | @compare op l r hl hr ihl ihr =>
    simp only [reread, render]
    rw [operandText_operandTree hl ihl (by omega), operandText_operandTree hr ihr (by omega)]
  | @arith op l r hl hr ihl ihr =>
    simp only [reread, render]
    rw [operandText_operandTree hl ihl (by split <;> omega),
      operandText_operandTree hr ihr (by split <;> omega)]
  | @and ts hne hall ih =>
    simp only [reread, render]
    exact render_chainTree (by omega) (fun _ _ => rfl) hne fun t ht => ⟨hall t ht, ih t ht⟩
  | @or ts hne hall ih =>
    simp only [reread, render]
    exact render_chainTree (by omega) (fun _ _ => rfl) hne fun t ht => ⟨hall t ht, ih t ht⟩
  | @not t ht ih =>
    rw [render_not_of_ne_hole ht.ne_hole]
    simp only [reread]
    split_ifs with hb
    · rw [render_not_of_ne_hole ht.reread_ne_hole, if_pos (bareUnderNot_reread hb), ih]
    · rw [render_not_of_ne_hole (by simp), if_pos (show bareUnderNot (paren t.reread) = true from rfl),
        render_paren_of_ne_hole ht.reread_ne_hole, ih]
      simp only [← String.append_assoc]
      rfl
  | @call ns name args _ _ _ ih =>
    simp only [reread, render, renderAll_rereadAll ih]
  | @paren t ht ih =>
    rw [render_paren_of_ne_hole ht.ne_hole]
    simp only [reread]
    rw [render_paren_of_ne_hole ht.reread_ne_hole, ih]

/-! ## The same tree up to parentheses -/

@[simp] theorem unparen_operandTree (e : Expr) (min : Nat) (t : Expr) :
    (operandTree e min t).unparen = t.unparen := by
  unfold operandTree
  split <;> rfl

theorem unparenAll_rereadOperands {ts : List Expr} (min : Nat)
    (h : ∀ t ∈ ts, t.reread.unparen = t.unparen) :
    unparenAll (rereadOperands ts min) = unparenAll ts := by
  induction ts with
  | nil => rfl
  | cons t ts ih =>
    rw [List.forall_mem_cons] at h
    simp only [rereadOperands, unparenAll, unparen_operandTree, h.1, ih h.2]

theorem unparenAll_rereadAll {ts : List Expr} (h : ∀ t ∈ ts, t.reread.unparen = t.unparen) :
    unparenAll (rereadAll ts) = unparenAll ts := by
  induction ts with
  | nil => rfl
  | cons t ts ih =>
    rw [List.forall_mem_cons] at h
    simp only [rereadAll, unparenAll, h.1, ih h.2]

/-- Apart from parentheses, a tree with wide junctions reads back as itself. -/
theorem unparen_reread {e : Expr} (he : e.Wide) : e.reread.unparen = e.unparen := by
  induction he with
  | @compare op l r _ _ ihl ihr => simp only [reread, unparen, unparen_operandTree, ihl, ihr]
  | @arith op l r _ _ ihl ihr => simp only [reread, unparen, unparen_operandTree, ihl, ihr]
  | @and ts hlen _ ih =>
    simp only [reread]
    rw [chainTree_of_two_le (by simpa using hlen)]
    simp only [unparen, unparenAll_rereadOperands 3 ih]
  | @or ts hlen _ ih =>
    simp only [reread]
    rw [chainTree_of_two_le (by simpa using hlen)]
    simp only [unparen, unparenAll_rereadOperands 2 ih]
  | @not t _ ih =>
    simp only [reread]
    split <;> simp only [unparen, ih]
  | @call ns name args _ ih => simp only [reread, unparen, unparenAll_rereadAll ih]
  | @paren t _ ih => simp only [reread, unparen, ih]
  | _ => rfl

end Expr

namespace Grammar

open EdgeQuery.Query.Expr

/-- A text that reads as a tree prints as a text that reads back, as a tree that prints as
the same text and is the same tree up to parentheses. -/
theorem parse_render_of_parse {q : String} {e : Expr} (h : parse q = .ok e) :
    ∃ e', parse e.render = .ok e' ∧ e'.render = e.render ∧ e'.unparen = e.unparen := by
  have hp := parsed_of_parse h
  exact ⟨e.reread, parse_render hp.1, render_reread hp.1, unparen_reread hp.2⟩

/-- A negated comparison with a negative number reads, prints and reads back. -/
theorem parse_render_negated_comparison :
    ∃ e, parse "!(a == -1)" = .ok e ∧
      ∃ e', parse e.render = .ok e' ∧ e'.render = e.render ∧ e'.unparen = e.unparen := by
  have hname : IsName "a" := ⟨[97], ⟨by decide, by simp⟩, by decide, by decide +kernel⟩
  have hp : (Expr.not (.compare .eq (.field "a") (.lit (.int (-1))))).Printable :=
    .not (.compare (.field hname) (.lit ⟨by decide, by decide⟩))
  have htext : (Expr.not (.compare .eq (.field "a") (.lit (.int (-1))))).render = "!(a == -1)" := by
    decide
  have h := parse_render hp
  rw [htext] at h
  exact ⟨_, h, parse_render_of_parse h⟩

end Grammar

end EdgeQuery.Query
