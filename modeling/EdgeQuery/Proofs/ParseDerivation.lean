import EdgeQuery.Proofs.FilterGrammar
/-! # The reader derives exactly the grammar

`parse` accepts a text exactly when the lexer reads it into tokens that the grammar of
`FilterGrammar` derives, and the tree it returns is the tree of that derivation
(`parse_eq_ok_iff`).

The proof runs both ways over streams of tokens. Completeness goes down a derivation: the
rule's reading of the derived tokens, followed by anything that does not continue the rule
(`Follows`), gives the derived tree and stops right after them. Soundness goes down the
reader's own recursion: whatever a rule reads off a stream is a derivation followed by the
rest. Between the two stand the reader's extra checks, which the grammar makes
unnecessary: an empty pair of parentheses, a `!` at the end, a second comparison operator
after a comparison and a minus sign before something other than a number are derived by no
rule, and the reader refuses them. -/

namespace EdgeQuery.Query

namespace Grammar

open EdgeQuery.Query.Parser

/-! ## Readings -/

/-- A reading of a stream gives `a` and leaves the rest `r`. -/
def Yields {α : Type} {P : Stream → Prop} (x : Except SyntaxError (α × Subtype P)) (a : α)
    (r : Stream) : Prop :=
  ∃ h : P r, x = .ok (a, ⟨r, h⟩)

theorem next_of_ne_fail {s : Stream} (h : ∀ e, s ≠ .fail e) :
    next s = .ok ⟨s, Nat.le_refl _⟩ := by
  cases s with
  | fail e => exact absurd rfl (h e)
  | eof => rfl
  | cons => rfl

theorem next_cons (t : Token) (rest : Stream) :
    next (.cons t rest) = .ok ⟨.cons t rest, Nat.le_refl _⟩ := rfl

theorem Follows.next {n : Nat} {r : Stream} (hr : Follows n r) :
    next r = .ok ⟨r, Nat.le_refl _⟩ :=
  next_of_ne_fail hr.ne_fail

theorem next_prepend_cons (ts : List Token) (t : Token) (r : Stream) :
    next (Stream.prepend ts (.cons t r)) = .ok ⟨_, Nat.le_refl _⟩ :=
  next_of_ne_fail (by cases ts <;> simp)

/-! ## Operators -/

theorem compareOf_of_compareToken {k : TokenKind} {op : CompareOp} (h : CompareToken k op) :
    compareOf k = some op := by
  cases h <;> rfl

theorem compareToken_of_compareOf {k : TokenKind} {op : CompareOp} (h : compareOf k = some op) :
    CompareToken k op := by
  cases k <;> cases h <;> constructor

theorem compareOf_eq_none {k : TokenKind} (h : continuesAt k ≠ 4) : compareOf k = none := by
  revert h
  cases k <;> decide

theorem addOf_of_addToken {k : TokenKind} {op : ArithOp} (h : AddToken k op) :
    addOf k = some op := by
  cases h <;> rfl

theorem addToken_of_addOf {k : TokenKind} {op : ArithOp} (h : addOf k = some op) :
    AddToken k op := by
  cases k <;> cases h <;> constructor

theorem addOf_eq_none {k : TokenKind} (h : continuesAt k ≠ 3) : addOf k = none := by
  revert h
  cases k <;> decide

theorem mulOf_of_mulToken {k : TokenKind} {op : ArithOp} (h : MulToken k op) :
    mulOf k = some op := by
  cases h <;> rfl

theorem mulToken_of_mulOf {k : TokenKind} {op : ArithOp} (h : mulOf k = some op) :
    MulToken k op := by
  cases k <;> cases h <;> constructor

theorem mulOf_eq_none {k : TokenKind} (h : continuesAt k ≠ 2) : mulOf k = none := by
  revert h
  cases k <;> decide

/-- Only `(` and `:` continue a name into a call. -/
theorem ne_call_of_continuesAt {k : TokenKind} (h : continuesAt k ≠ 1) :
    k ≠ .colon ∧ k ≠ .lparen := by
  revert h
  cases k <;> decide

/-! ## Numbers -/

/-- A run of digits after an optional minus sign reads as its value when that fits in 64
bits. -/
theorem parseInt_signedText (negative : Bool) {s : String} (hs : Numeral.IsDigits s.toList)
    (n : Int) :
    Read.parseInt (signedText negative s) = .ok n ↔
      n = (if negative then -(Read.digitsValue s.toList : Int)
        else (Read.digitsValue s.toList : Int)) ∧
      -Int.pow 2 63 ≤ n ∧ n < Int.pow 2 63 := by
  obtain ⟨d, rest, hdr⟩ := List.exists_cons_of_ne_nil hs.1
  have hd : Read.isDigit d = true := hs.2 d (by simp [hdr])
  have hall : (d :: rest).all Read.isDigit = true := by
    rw [← hdr, List.all_eq_true]
    exact hs.2
  have hplus : d ≠ '+' := Read.ne_of_isDigit hd rfl
  have hminus : d ≠ '-' := Read.ne_of_isDigit hd rfl
  cases negative <;>
    simp [signedText, Read.parseInt, Read.int64, hdr, hall, hplus, hminus] <;>
    split_ifs <;> simp <;> omega

theorem numberLiteral_of_numberValue {t : Token} {negative : Bool} {l : Literal}
    (h : NumberValue t negative l) : numberLiteral t negative = .ok l := by
  cases h with
  | int hk hd hn hlo hhi =>
    have hp := (parseInt_signedText negative hd _).2 ⟨hn, hlo, hhi⟩
    simp only [signedText] at hp
    simp [numberLiteral, hk, hp]
  | float hk hx =>
    simp only [signedText] at hx
    simp [numberLiteral, hk, hx]

theorem numberValue_of_numberLiteral {t : Token} {negative : Bool} {l : Literal}
    (hk : t.kind = .int ∨ t.kind = .float) (hd : t.kind = .int → Numeral.IsDigits t.text.toList)
    (h : numberLiteral t negative = .ok l) : NumberValue t negative l := by
  rcases hk with hk | hk
  · simp only [numberLiteral, hk, if_true] at h
    split at h
    · rename_i n hn
      cases h
      obtain ⟨h1, h2, h3⟩ := (parseInt_signedText negative (hd hk) n).1 hn
      exact .int hk (hd hk) h1 h2 h3
    · cases h
  · simp only [numberLiteral, hk, reduceCtorEq, if_false] at h
    split at h
    · rename_i x hx
      cases h
      exact .float hk hx
    · cases h

/-! ## Derivations are read

Each rule's reading of the tokens of a derivation gives the derivation's tree, provided what
follows does not continue the rule. The reading of a tail continues while its operator
comes next; the `Follows` facts below say that the operator of a tail ends the rule inside
it. -/

theorem junction_eq (node : List Expr → Expr) (first : Expr) (rest : List Expr) :
    (if ([first] ++ rest).length = 1 then first else node ([first] ++ rest)) =
      junction node first rest := by
  cases rest <;> rfl

theorem next_prepend_of_ne_nil {ts : List Token} (hts : ts ≠ []) (r : Stream) :
    next (Stream.prepend ts r) = .ok ⟨_, Nat.le_refl _⟩ :=
  next_of_ne_fail (by cases ts <;> simp_all)

theorem Follows.current {n m : Nat} {r : Stream} (hr : Follows n r) (hm : 0 < m) (hmn : m ≤ n) :
    continuesAt (current r).kind ≠ m := by
  cases r with
  | eof => simp only [Parser.current, continuesAt]; omega
  | fail => exact absurd hr id
  | cons t rest => exact hr.not_continues hm hmn

theorem Disjuncts.follows {us : List Token} {es : List Expr} (h : Disjuncts us es) {r : Stream}
    (hr : Follows 6 r) : Follows 5 (Stream.prepend us r) := by
  cases h with
  | nil => exact hr.mono (by omega)
  | cons ht => exact follows_cons _ (by simp [ht, continuesAt])

theorem Conjuncts.follows {us : List Token} {es : List Expr} (h : Conjuncts us es) {r : Stream}
    (hr : Follows 5 r) : Follows 4 (Stream.prepend us r) := by
  cases h with
  | nil => exact hr.mono (by omega)
  | cons ht => exact follows_cons _ (by simp [ht, continuesAt])

theorem AddTail.follows {us : List Token} {tail : List (ArithOp × Expr)} (h : AddTail us tail)
    {r : Stream} (hr : Follows 3 r) : Follows 2 (Stream.prepend us r) := by
  cases h with
  | nil => exact hr.mono (by omega)
  | cons ht => exact follows_cons _ (by rw [ht.continuesAt_eq]; omega)

theorem MulTail.follows {us : List Token} {tail : List (ArithOp × Expr)} (h : MulTail us tail)
    {r : Stream} (hr : Follows 2 r) : Follows 1 (Stream.prepend us r) := by
  cases h with
  | nil => exact hr.mono (by omega)
  | cons ht => exact follows_cons _ (by rw [ht.continuesAt_eq]; omega)

theorem afterFront_yields {t : Token} {rest : Stream}
    {x : Except SyntaxError (Expr × {r : Stream // r.size ≤ rest.size})} {e : Expr} {r : Stream}
    (h : Yields x e r) : Yields (afterFront (t := t) x) e r := by
  obtain ⟨hr, rfl⟩ := h
  exact ⟨_, rfl⟩

theorem literalAfter_yields (l : Literal) {n : Nat} {r : Stream} (hr : Follows n r) :
    Yields (literalAfter l r) (.lit l) r :=
  ⟨Nat.le_refl _, by simp [literalAfter, hr.next]⟩

/-- A name before a token that does not continue it into a call is a field. -/
theorem nameOrCall_field (t : Token) {r : Stream} (hr : Follows 1 r) :
    Yields (nameOrCall t r) (.field t.text) r := by
  refine ⟨Nat.le_refl _, ?_⟩
  rw [nameOrCall, hr.next]
  cases r with
  | eof => rfl
  | fail => exact absurd hr id
  | cons t1 rest1 =>
    obtain ⟨hcolon, hparen⟩ := ne_call_of_continuesAt (hr.not_continues (by omega) le_rfl)
    simp only [hcolon, hparen, if_false]

mutual

theorem Disjunction.reads {ts : List Token} {e : Expr} (h : Disjunction ts e) {r : Stream}
    (hr : Follows 6 r) : Yields (orExpr (Stream.prepend ts r)) e r := by
  match h with
  | @Disjunction.mk ts us first rest hc hd =>
    rw [Stream.prepend_append]
    obtain ⟨h1, hx⟩ := hc.reads (hd.follows hr)
    obtain ⟨h2, hy⟩ := hd.reads hr [first]
    refine ⟨Nat.lt_of_le_of_lt h2 h1, ?_⟩
    rw [orExpr, hx]
    simp only [hy, junction_eq]

theorem Disjuncts.reads {us : List Token} {es : List Expr} (h : Disjuncts us es)
    {r : Stream} (hr : Follows 6 r) (acc : List Expr) :
    Yields (orRest (Stream.prepend us r) acc) (acc ++ es) r := by
  match h with
  | .nil =>
    rw [Stream.prepend_nil, List.append_nil]
    refine ⟨Nat.le_refl _, ?_⟩
    cases r with
    | eof => exact orRest.eq_2 _ _ (by simp)
    | fail => exact absurd hr id
    | cons t rest =>
      have hne : t.kind ≠ .or := fun hk =>
        hr.not_continues (by omega) (le_refl 6) (by simp [hk, continuesAt])
      rw [orRest.eq_1, if_neg hne]
  | @Disjuncts.cons t ts us e es ht hc hd =>
    rw [List.cons_append, Stream.prepend_cons, Stream.prepend_append]
    obtain ⟨h1, hx⟩ := hc.reads (hd.follows hr)
    obtain ⟨h2, hy⟩ := hd.reads hr (acc ++ [e])
    refine ⟨by simp only [Stream.size] at h1 h2 ⊢; omega, ?_⟩
    rw [orRest.eq_1, if_pos ht, next_prepend_of_ne_nil hc.ne_nil]
    simp only [hx, hy, List.append_assoc, List.singleton_append]

theorem Conjunction.reads {ts : List Token} {e : Expr} (h : Conjunction ts e) {r : Stream}
    (hr : Follows 5 r) : Yields (andExpr (Stream.prepend ts r)) e r := by
  match h with
  | @Conjunction.mk ts us first rest hu hd =>
    rw [Stream.prepend_append]
    obtain ⟨h1, hx⟩ := hu.reads (hd.follows hr)
    obtain ⟨h2, hy⟩ := hd.reads hr [first]
    refine ⟨Nat.lt_of_le_of_lt h2 h1, ?_⟩
    rw [andExpr, hx]
    simp only [hy, junction_eq]

theorem Conjuncts.reads {us : List Token} {es : List Expr} (h : Conjuncts us es)
    {r : Stream} (hr : Follows 5 r) (acc : List Expr) :
    Yields (andRest (Stream.prepend us r) acc) (acc ++ es) r := by
  match h with
  | .nil =>
    rw [Stream.prepend_nil, List.append_nil]
    refine ⟨Nat.le_refl _, ?_⟩
    cases r with
    | eof => exact andRest.eq_2 _ _ (by simp)
    | fail => exact absurd hr id
    | cons t rest =>
      have hne : t.kind ≠ .and := fun hk =>
        hr.not_continues (by omega) (le_refl 5) (by simp [hk, continuesAt])
      rw [andRest.eq_1, if_neg hne]
  | @Conjuncts.cons t ts us e es ht hu hd =>
    rw [List.cons_append, Stream.prepend_cons, Stream.prepend_append]
    obtain ⟨h1, hx⟩ := hu.reads (hd.follows hr)
    obtain ⟨h2, hy⟩ := hd.reads hr (acc ++ [e])
    refine ⟨by simp only [Stream.size] at h1 h2 ⊢; omega, ?_⟩
    rw [andRest.eq_1, if_pos ht, next_prepend_of_ne_nil hu.ne_nil]
    simp only [hx, hy, List.append_assoc, List.singleton_append]

theorem Unary.reads {ts : List Token} {e : Expr} (h : Unary ts e) {r : Stream}
    (hr : Follows 4 r) : Yields (unaryExpr (Stream.prepend ts r)) e r := by
  match h with
  | @Unary.not t ts e ht hu =>
    rw [Stream.prepend_cons]
    obtain ⟨h1, hx⟩ := hu.reads hr
    obtain ⟨t', us, rfl, ht'⟩ := hu.head
    have hcur : (current (Stream.prepend (t' :: us) r)).kind ≠ .eof := (ne_of_startsUnary ht').1
    refine ⟨by simp only [Stream.size] at h1 ⊢; omega, ?_⟩
    rw [unaryExpr.eq_1, if_pos ht, next_prepend_of_ne_nil (List.cons_ne_nil t' us)]
    simp only [if_neg hcur, hx]
  | .comparison hc =>
    obtain ⟨h1, hx⟩ := hc.reads hr
    obtain ⟨t', us, rfl, ht'⟩ := hc.head
    -- a comparison never starts with `!`, so the reader goes straight to it
    have hu : unaryExpr (.cons t' (Stream.prepend us r)) =
        compareExpr (.cons t' (Stream.prepend us r)) := by
      rw [unaryExpr.eq_1, if_neg (ne_not_of_startsOperand ht')]
    exact ⟨h1, hu.trans hx⟩

theorem Comparison.reads {ts : List Token} {e : Expr} (h : Comparison ts e) {r : Stream}
    (hr : Follows 4 r) : Yields (compareExpr (Stream.prepend ts r)) e r := by
  match h with
  | .operand ha =>
    obtain ⟨h1, hx⟩ := ha.reads (hr.mono (by omega))
    refine ⟨h1, ?_⟩
    rw [compareExpr, hx]
    cases r with
    | eof => rfl
    | fail => exact absurd hr id
    | cons t rest => simp only [compareOf_eq_none (hr.not_continues (by omega) le_rfl)]
  | @Comparison.compare t ts us op l r' ha hop hb =>
    rw [Stream.prepend_append, Stream.prepend_cons]
    obtain ⟨h1, hx⟩ := ha.reads
      (follows_cons (Stream.prepend us r) (by rw [hop.continuesAt_eq]; omega))
    obtain ⟨h3, hy⟩ := hb.reads (hr.mono (by omega))
    refine ⟨by simp only [Stream.size] at h1 h3 ⊢; omega, ?_⟩
    rw [compareExpr, hx]
    simp only [compareOf_of_compareToken hop, next_prepend_of_ne_nil hb.ne_nil, hy,
      compareOf_eq_none (hr.current (by omega) le_rfl), Option.isSome_none, Bool.false_eq_true,
      if_false]

theorem Additive.reads {ts : List Token} {e : Expr} (h : Additive ts e) {r : Stream}
    (hr : Follows 3 r) : Yields (additiveExpr (Stream.prepend ts r)) e r := by
  match h with
  | @Additive.mk ts us first tail ht hat =>
    rw [Stream.prepend_append]
    obtain ⟨h1, hx⟩ := ht.reads (hat.follows hr)
    obtain ⟨h2, hy⟩ := hat.reads hr first
    refine ⟨Nat.lt_of_le_of_lt h2 h1, ?_⟩
    rw [additiveExpr, hx]
    simp only [hy]

theorem AddTail.reads {us : List Token} {tail : List (ArithOp × Expr)}
    (h : AddTail us tail) {r : Stream} (hr : Follows 3 r) (left : Expr) :
    Yields (additiveRest (Stream.prepend us r) left) (foldLeft left tail) r := by
  match h with
  | .nil =>
    rw [Stream.prepend_nil, foldLeft_nil]
    refine ⟨Nat.le_refl _, ?_⟩
    cases r with
    | eof => exact additiveRest.eq_2 _ _ (by simp)
    | fail => exact absurd hr id
    | cons t rest =>
      rw [additiveRest.eq_1, addOf_eq_none (hr.not_continues (by omega) le_rfl)]
  | @AddTail.cons t ts us op e tail hop ht hat =>
    rw [List.cons_append, Stream.prepend_cons, Stream.prepend_append, foldLeft_cons]
    obtain ⟨h1, hx⟩ := ht.reads (hat.follows hr)
    obtain ⟨h2, hy⟩ := hat.reads hr (.arith op left e)
    refine ⟨by simp only [Stream.size] at h1 h2 ⊢; omega, ?_⟩
    rw [additiveRest.eq_1, addOf_of_addToken hop]
    simp only [next_prepend_of_ne_nil ht.ne_nil, hx, hy]

theorem Term.reads {ts : List Token} {e : Expr} (h : Term ts e) {r : Stream}
    (hr : Follows 2 r) : Yields (termExpr (Stream.prepend ts r)) e r := by
  match h with
  | @Term.mk ts us first tail hp hmt =>
    rw [Stream.prepend_append]
    obtain ⟨h1, hx⟩ := hp.reads (hmt.follows hr)
    obtain ⟨h2, hy⟩ := hmt.reads hr first
    refine ⟨Nat.lt_of_le_of_lt h2 h1, ?_⟩
    rw [termExpr, hx]
    simp only [hy]

theorem MulTail.reads {us : List Token} {tail : List (ArithOp × Expr)}
    (h : MulTail us tail) {r : Stream} (hr : Follows 2 r) (left : Expr) :
    Yields (termRest (Stream.prepend us r) left) (foldLeft left tail) r := by
  match h with
  | .nil =>
    rw [Stream.prepend_nil, foldLeft_nil]
    refine ⟨Nat.le_refl _, ?_⟩
    cases r with
    | eof => exact termRest.eq_2 _ _ (by simp)
    | fail => exact absurd hr id
    | cons t rest =>
      rw [termRest.eq_1, mulOf_eq_none (hr.not_continues (by omega) le_rfl)]
  | @MulTail.cons t ts us op e tail hop hp hmt =>
    rw [List.cons_append, Stream.prepend_cons, Stream.prepend_append, foldLeft_cons]
    obtain ⟨h1, hx⟩ := hp.reads (hmt.follows hr)
    obtain ⟨h2, hy⟩ := hmt.reads hr (.arith op left e)
    refine ⟨by simp only [Stream.size] at h1 h2 ⊢; omega, ?_⟩
    rw [termRest.eq_1, mulOf_of_mulToken hop]
    simp only [next_prepend_of_ne_nil hp.ne_nil, hx, hy]

theorem Primary.reads {ts : List Token} {e : Expr} (h : Primary ts e) {r : Stream}
    (hr : Follows 1 r) : Yields (primaryExpr (Stream.prepend ts r)) e r := by
  match h with
  | @Primary.paren o c ts e ho hd hc =>
    rw [List.cons_append, Stream.prepend_cons, Stream.prepend_append, Stream.prepend_cons,
      Stream.prepend_nil]
    obtain ⟨h2, hx⟩ := hd.reads
      (follows_of_continuesAt_zero r (show continuesAt c.kind = 0 by simp [hc, continuesAt]))
    obtain ⟨t', us, rfl, ht'⟩ := hd.head
    have hcur : (current (Stream.prepend (t' :: us) (.cons c r))).kind ≠ .rparen :=
      (ne_of_startsUnary ht').2
    refine ⟨by simp only [Stream.size] at h2 ⊢; omega, ?_⟩
    rw [primaryExpr.eq_1]
    simp only [ho, next_prepend_of_ne_nil (List.cons_ne_nil t' us), if_neg hcur, hx, hc, if_true,
      hr.next]
  | @Primary.string t ht =>
    have hp : primaryExpr (.cons t r) = afterFront (literalAfter (.str t.text) r) := by
      rw [primaryExpr.eq_1, ht]
    rw [Stream.prepend_cons, Stream.prepend_nil, hp]
    exact afterFront_yields (literalAfter_yields _ hr)
  | @Primary.true t ht =>
    have hp : primaryExpr (.cons t r) = afterFront (literalAfter (.bool Bool.true) r) := by
      rw [primaryExpr.eq_1, ht]
    rw [Stream.prepend_cons, Stream.prepend_nil, hp]
    exact afterFront_yields (literalAfter_yields _ hr)
  | @Primary.false t ht =>
    have hp : primaryExpr (.cons t r) = afterFront (literalAfter (.bool Bool.false) r) := by
      rw [primaryExpr.eq_1, ht]
    rw [Stream.prepend_cons, Stream.prepend_nil, hp]
    exact afterFront_yields (literalAfter_yields _ hr)
  | @Primary.null t ht =>
    have hp : primaryExpr (.cons t r) = afterFront (literalAfter .null r) := by
      rw [primaryExpr.eq_1, ht]
    rw [Stream.prepend_cons, Stream.prepend_nil, hp]
    exact afterFront_yields (literalAfter_yields _ hr)
  | @Primary.number t l hv =>
    have hp : primaryExpr (.cons t r) = afterFront (literalAfter l r) := by
      rcases hv.kind with hk | hk <;>
        rw [primaryExpr.eq_1, hk] <;> simp only [numberLiteral_of_numberValue hv]
    rw [Stream.prepend_cons, Stream.prepend_nil, hp]
    exact afterFront_yields (literalAfter_yields _ hr)
  | @Primary.negative m t l hm hv =>
    rw [Stream.prepend_cons, Stream.prepend_cons, Stream.prepend_nil]
    refine ⟨by simp only [Stream.size]; omega, ?_⟩
    rw [primaryExpr.eq_1]
    simp only [hm, next_cons _ _, if_pos hv.kind,
      numberLiteral_of_numberValue hv, hr.next]
  | @Primary.field t ht =>
    have hp : primaryExpr (.cons t r) = afterFront (nameOrCall t r) := by
      rw [primaryExpr.eq_1, ht]
    rw [Stream.prepend_cons, Stream.prepend_nil, hp]
    exact afterFront_yields (nameOrCall_field t hr)
  | @Primary.call f o c ts args hf ho ha hc =>
    rw [List.cons_append, List.cons_append, Stream.prepend_cons, Stream.prepend_cons,
      Stream.prepend_append, Stream.prepend_cons, Stream.prepend_nil]
    obtain ⟨h1, hx⟩ := ha.reads hc hr "" f.text o.pos
    have hp : primaryExpr (.cons f (.cons o (Stream.prepend ts (.cons c r)))) =
        afterFront (nameOrCall f (.cons o (Stream.prepend ts (.cons c r)))) := by
      rw [primaryExpr.eq_1, hf]
    rw [hp]
    refine afterFront_yields ⟨by simp only [Stream.size] at h1 ⊢; omega, ?_⟩
    rw [nameOrCall, next_cons _ _]
    simp only [ho, reduceCtorEq, if_false, if_true, hx]
  | @Primary.qualifiedCall n k f o c ts args hn hk hf ho ha hc =>
    rw [List.cons_append, List.cons_append, List.cons_append, List.cons_append,
      Stream.prepend_cons, Stream.prepend_cons, Stream.prepend_cons, Stream.prepend_cons,
      Stream.prepend_append, Stream.prepend_cons, Stream.prepend_nil]
    obtain ⟨h1, hx⟩ := ha.reads hc hr n.text f.text o.pos
    have hp : primaryExpr (.cons n (.cons k (.cons f (.cons o (Stream.prepend ts (.cons c r)))))) =
        afterFront (nameOrCall n (.cons k (.cons f (.cons o (Stream.prepend ts (.cons c r)))))) := by
      rw [primaryExpr.eq_1, hn]
    rw [hp]
    refine afterFront_yields ⟨by simp only [Stream.size] at h1 ⊢; omega, ?_⟩
    rw [nameOrCall, next_cons _ _]
    simp only [hk, if_true, next_cons _ _, hf, ho, hx]

theorem Arguments.reads {ts : List Token} {args : List Expr} (h : Arguments ts args)
    {c : Token} (hc : c.kind = .rparen) {r : Stream} (hr : Follows 1 r) (ns name : String)
    (openPos : Nat) :
    Yields (callArgs ns name openPos (Stream.prepend ts (.cons c r))) (.call ns name args) r := by
  match h with
  | .none =>
    rw [Stream.prepend_nil]
    refine ⟨by simp [Stream.size], ?_⟩
    rw [callArgs, next_cons _ _]
    simp only [Parser.current, hc, if_true, hr.next]
  | .some hl =>
    obtain ⟨h2, hx⟩ := hl.reads hc r []
    obtain ⟨t', us, rfl, ht'⟩ := hl.head
    have hcur : (current (Stream.prepend (t' :: us) (.cons c r))).kind ≠ .rparen :=
      (ne_of_startsUnary ht').2
    refine ⟨by simp only [Stream.size] at h2 ⊢; omega, ?_⟩
    rw [callArgs, next_prepend_of_ne_nil (List.cons_ne_nil t' us)]
    simp only [if_neg hcur, hx, hc, if_true, hr.next, List.nil_append]

theorem ArgList.reads {ts : List Token} {es : List Expr} (h : ArgList ts es) {c : Token}
    (hc : c.kind = .rparen) (r : Stream) (acc : List Expr) :
    Yields (argList (Stream.prepend ts (.cons c r)) acc) (acc ++ es) (.cons c r) := by
  match h with
  | .last hd =>
    obtain ⟨h1, hx⟩ := hd.reads
      (follows_of_continuesAt_zero r (show continuesAt c.kind = 0 by simp [hc, continuesAt]))
    refine ⟨Nat.le_of_lt h1, ?_⟩
    rw [argList, hx]
    simp [hc]
  | @ArgList.cons t ts us e es hd ht hl =>
    rw [Stream.prepend_append, Stream.prepend_cons]
    obtain ⟨h1, hx⟩ := hd.reads
      (follows_of_continuesAt_zero (Stream.prepend us (.cons c r))
        (show continuesAt t.kind = 0 by simp [ht, continuesAt]))
    obtain ⟨h3, hy⟩ := hl.reads hc r (acc ++ [e])
    obtain ⟨t', us', rfl, -⟩ := hl.head
    refine ⟨by simp only [Stream.size] at h1 h3 ⊢; omega, ?_⟩
    rw [argList, hx]
    simp only [ht, if_true, next_prepend_of_ne_nil (List.cons_ne_nil t' us'), hy,
      List.append_assoc, List.singleton_append]

end

/-! ## Readings are derivations

Whatever a rule reads off a stream is a derivation of that rule, followed by the rest. The
proofs follow the reader's own recursion, on the same measure. The one fact about tokens
that the grammar needs beyond their kinds is that an integer is written as digits, which
the lexer guarantees (`IntsAreDigits`). -/

/-- Every integer token of a stream is written as a run of decimal digits. -/
def IntsAreDigits : Stream → Prop
  | .cons t rest => (t.kind = .int → Numeral.IsDigits t.text.toList) ∧ IntsAreDigits rest
  | _ => True

/-- A successful reading is known by its value and its rest. -/
theorem ok_inj {α : Type} {P : Stream → Prop} {a b : α} {r s : Stream} {hr : P r} {hs : P s}
    (h : (Except.ok (a, ⟨r, hr⟩) : Except SyntaxError (α × Subtype P)) = .ok (b, ⟨s, hs⟩)) :
    a = b ∧ r = s := by
  simp only [Except.ok.injEq, Prod.mk.injEq, Subtype.mk.injEq] at h
  exact h

theorem IntsAreDigits.rest {t : Token} {rest : Stream} (h : IntsAreDigits (.cons t rest)) :
    IntsAreDigits rest := h.2

theorem IntsAreDigits.of_prepend {ts : List Token} {r : Stream}
    (h : IntsAreDigits (Stream.prepend ts r)) : IntsAreDigits r := by
  induction ts with
  | nil => exact h
  | cons t ts ih => exact ih h.2

theorem eq_of_next {rest s1 : Stream} {h1 : s1.size ≤ rest.size}
    (h : next rest = .ok ⟨s1, h1⟩) : s1 = rest := by
  cases rest with
  | fail e => cases h
  | eof => cases h; rfl
  | cons => cases h; rfl

/-- A literal token read as one, with what follows it. -/
theorem eq_of_literalAfter {t : Token} {l : Literal} {rest r : Stream} {e : Expr}
    {hr : r.size < (Stream.cons t rest).size}
    (h : afterFront (t := t) (literalAfter l rest) = .ok (e, ⟨r, hr⟩)) : e = .lit l ∧ r = rest := by
  cases rest <;> simp_all [literalAfter, next, afterFront]

theorem yields_of_afterFront {t : Token} {rest : Stream}
    {x : Except SyntaxError (Expr × {r : Stream // r.size ≤ rest.size})} {e : Expr} {r : Stream}
    {hr : r.size < (Stream.cons t rest).size} (h : afterFront (t := t) x = .ok (e, ⟨r, hr⟩)) :
    Yields x e r := by
  unfold afterFront at h
  split at h
  · cases h
  · obtain ⟨rfl, rfl⟩ := ok_inj h
    exact ⟨_, rfl⟩

mutual

theorem disjunction_of_orExpr {s r : Stream} {e : Expr} (hs : IntsAreDigits s)
    (h : Yields (orExpr s) e r) : ∃ ts, s = Stream.prepend ts r ∧ Disjunction ts e := by
  obtain ⟨hr, h⟩ := h
  rw [orExpr] at h
  split at h
  · cases h
  rename_i first s1 h1 hand
  split at h
  · cases h
  rename_i terms s2 h2 hrest
  obtain ⟨rfl, rfl⟩ := ok_inj h
  obtain ⟨ts, rfl, hc⟩ := conjunction_of_andExpr hs ⟨h1, hand⟩
  obtain ⟨us, es, rfl, hd, rfl⟩ := disjuncts_of_orRest hs.of_prepend ⟨h2, hrest⟩
  exact ⟨ts ++ us, by rw [Stream.prepend_append], by rw [junction_eq]; exact .mk hc hd⟩
termination_by 10 * s.size + 9
decreasing_by all_goals omega

theorem disjuncts_of_orRest {r : Stream} {acc terms : List Expr} :
    ∀ {s : Stream}, IntsAreDigits s → Yields (orRest s acc) terms r →
      ∃ us es, s = Stream.prepend us r ∧ Disjuncts us es ∧ terms = acc ++ es
  | .cons t rest, hs, ⟨hr, h⟩ => by
    rw [orRest.eq_1] at h
    split at h
    · rename_i ht
      split at h
      · cases h
      rename_i s1 h1 hnext
      obtain rfl := eq_of_next hnext
      split at h
      · cases h
      rename_i term s2 h2 hand
      split at h
      · cases h
      rename_i terms' s3 h3 hrest
      obtain ⟨rfl, rfl⟩ := ok_inj h
      obtain ⟨ts, rfl, hc⟩ := conjunction_of_andExpr hs.rest ⟨h2, hand⟩
      obtain ⟨us, es, rfl, hd, rfl⟩ := disjuncts_of_orRest hs.rest.of_prepend ⟨h3, hrest⟩
      exact ⟨t :: ts ++ us, term :: es, by simp, .cons ht hc hd, by simp⟩
    · obtain ⟨rfl, rfl⟩ := ok_inj h
      exact ⟨[], [], rfl, .nil, by simp⟩
  | .eof p, _, ⟨hr, h⟩ => by
    rw [orRest.eq_2 _ _ (by simp)] at h
    obtain ⟨rfl, rfl⟩ := ok_inj h
    exact ⟨[], [], rfl, .nil, by simp⟩
  | .fail err, _, ⟨hr, h⟩ => by
    rw [orRest.eq_2 _ _ (by simp)] at h
    obtain ⟨rfl, rfl⟩ := ok_inj h
    exact ⟨[], [], rfl, .nil, by simp⟩
termination_by s _ _ => 10 * s.size + 9
decreasing_by
  all_goals (try simp only [Stream.size] at *)
  all_goals omega

theorem conjunction_of_andExpr {s r : Stream} {e : Expr} (hs : IntsAreDigits s)
    (h : Yields (andExpr s) e r) : ∃ ts, s = Stream.prepend ts r ∧ Conjunction ts e := by
  obtain ⟨hr, h⟩ := h
  rw [andExpr] at h
  split at h
  · cases h
  rename_i first s1 h1 hun
  split at h
  · cases h
  rename_i terms s2 h2 hrest
  obtain ⟨rfl, rfl⟩ := ok_inj h
  obtain ⟨ts, rfl, hu⟩ := unary_of_unaryExpr hs ⟨h1, hun⟩
  obtain ⟨us, es, rfl, hd, rfl⟩ := conjuncts_of_andRest hs.of_prepend ⟨h2, hrest⟩
  exact ⟨ts ++ us, by rw [Stream.prepend_append], by rw [junction_eq]; exact .mk hu hd⟩
termination_by 10 * s.size + 8
decreasing_by all_goals omega

theorem conjuncts_of_andRest {r : Stream} {acc terms : List Expr} :
    ∀ {s : Stream}, IntsAreDigits s → Yields (andRest s acc) terms r →
      ∃ us es, s = Stream.prepend us r ∧ Conjuncts us es ∧ terms = acc ++ es
  | .cons t rest, hs, ⟨hr, h⟩ => by
    rw [andRest.eq_1] at h
    split at h
    · rename_i ht
      split at h
      · cases h
      rename_i s1 h1 hnext
      obtain rfl := eq_of_next hnext
      split at h
      · cases h
      rename_i term s2 h2 hun
      split at h
      · cases h
      rename_i terms' s3 h3 hrest
      obtain ⟨rfl, rfl⟩ := ok_inj h
      obtain ⟨ts, rfl, hu⟩ := unary_of_unaryExpr hs.rest ⟨h2, hun⟩
      obtain ⟨us, es, rfl, hd, rfl⟩ := conjuncts_of_andRest hs.rest.of_prepend ⟨h3, hrest⟩
      exact ⟨t :: ts ++ us, term :: es, by simp, .cons ht hu hd, by simp⟩
    · obtain ⟨rfl, rfl⟩ := ok_inj h
      exact ⟨[], [], rfl, .nil, by simp⟩
  | .eof p, _, ⟨hr, h⟩ => by
    rw [andRest.eq_2 _ _ (by simp)] at h
    obtain ⟨rfl, rfl⟩ := ok_inj h
    exact ⟨[], [], rfl, .nil, by simp⟩
  | .fail err, _, ⟨hr, h⟩ => by
    rw [andRest.eq_2 _ _ (by simp)] at h
    obtain ⟨rfl, rfl⟩ := ok_inj h
    exact ⟨[], [], rfl, .nil, by simp⟩
termination_by s _ _ => 10 * s.size + 8
decreasing_by
  all_goals (try simp only [Stream.size] at *)
  all_goals omega

theorem unary_of_unaryExpr {r : Stream} {e : Expr} :
    ∀ {s : Stream}, IntsAreDigits s → Yields (unaryExpr s) e r →
      ∃ ts, s = Stream.prepend ts r ∧ Unary ts e
  | .cons t rest, hs, ⟨hr, h⟩ => by
    rw [unaryExpr.eq_1] at h
    split at h
    · rename_i ht
      split at h
      · cases h
      rename_i s1 h1 hnext
      obtain rfl := eq_of_next hnext
      split at h
      · cases h
      split at h
      · cases h
      rename_i term s2 h2 hun
      obtain ⟨rfl, rfl⟩ := ok_inj h
      obtain ⟨ts, rfl, hu⟩ := unary_of_unaryExpr hs.rest ⟨h2, hun⟩
      exact ⟨t :: ts, rfl, .not ht hu⟩
    · obtain ⟨ts, hts, hc⟩ := comparison_of_compareExpr hs ⟨hr, h⟩
      exact ⟨ts, hts, .comparison hc⟩
  | .eof p, hs, ⟨hr, h⟩ => by
    rw [unaryExpr.eq_2 _ (by simp)] at h
    obtain ⟨ts, hts, hc⟩ := comparison_of_compareExpr hs ⟨hr, h⟩
    exact ⟨ts, hts, .comparison hc⟩
  | .fail err, hs, ⟨hr, h⟩ => by
    rw [unaryExpr.eq_2 _ (by simp)] at h
    obtain ⟨ts, hts, hc⟩ := comparison_of_compareExpr hs ⟨hr, h⟩
    exact ⟨ts, hts, .comparison hc⟩
termination_by s _ _ => 10 * s.size + 7
decreasing_by
  all_goals (try simp only [Stream.size] at *)
  all_goals omega

theorem comparison_of_compareExpr {s r : Stream} {e : Expr} (hs : IntsAreDigits s)
    (h : Yields (compareExpr s) e r) : ∃ ts, s = Stream.prepend ts r ∧ Comparison ts e := by
  obtain ⟨hr, h⟩ := h
  rw [compareExpr] at h
  split at h
  · cases h
  rename_i left s1 h1 hadd
  -- `hadd` mentions `h1`, so the termination proof needs a copy of it that it can unfold
  have hlt1 := h1
  obtain ⟨ts, hts, ha⟩ := additive_of_additiveExpr hs ⟨h1, hadd⟩
  have hs1 := IntsAreDigits.of_prepend (hts ▸ hs : IntsAreDigits (Stream.prepend ts s1))
  split at h
  · split at h
    · obtain ⟨rfl, rfl⟩ := ok_inj h
      exact ⟨ts, hts, .operand ha⟩
    rename_i op hop
    split at h
    · cases h
    rename_i s2 h2 hnext
    obtain rfl := eq_of_next hnext
    split at h
    · cases h
    rename_i right s3 h3 hadd'
    dsimp only at h
    split at h
    · cases h
    obtain ⟨rfl, rfl⟩ := ok_inj h
    obtain ⟨us, rfl, hb⟩ := additive_of_additiveExpr hs1.rest ⟨h3, hadd'⟩
    refine ⟨ts ++ _ :: us, ?_, .compare ha (compareToken_of_compareOf hop) hb⟩
    rw [hts]
    simp
  · obtain ⟨rfl, rfl⟩ := ok_inj h
    exact ⟨ts, hts, .operand ha⟩
termination_by 10 * s.size + 6
decreasing_by
  all_goals (try simp only [Stream.size] at *)
  all_goals omega

theorem additive_of_additiveExpr {s r : Stream} {e : Expr} (hs : IntsAreDigits s)
    (h : Yields (additiveExpr s) e r) : ∃ ts, s = Stream.prepend ts r ∧ Additive ts e := by
  obtain ⟨hr, h⟩ := h
  rw [additiveExpr] at h
  split at h
  · cases h
  rename_i first s1 h1 hterm
  split at h
  · cases h
  rename_i e' s2 h2 hrest
  obtain ⟨rfl, rfl⟩ := ok_inj h
  obtain ⟨ts, rfl, ht⟩ := term_of_termExpr hs ⟨h1, hterm⟩
  obtain ⟨us, tail, rfl, hat, rfl⟩ := addTail_of_additiveRest hs.of_prepend ⟨h2, hrest⟩
  exact ⟨ts ++ us, by rw [Stream.prepend_append], .mk ht hat⟩
termination_by 10 * s.size + 5
decreasing_by all_goals omega

theorem addTail_of_additiveRest {r : Stream} {left e : Expr} :
    ∀ {s : Stream}, IntsAreDigits s → Yields (additiveRest s left) e r →
      ∃ us tail, s = Stream.prepend us r ∧ AddTail us tail ∧ e = foldLeft left tail
  | .cons t rest, hs, ⟨hr, h⟩ => by
    rw [additiveRest.eq_1] at h
    split at h
    · obtain ⟨rfl, rfl⟩ := ok_inj h
      exact ⟨[], [], rfl, .nil, rfl⟩
    rename_i op hop
    split at h
    · cases h
    rename_i s1 h1 hnext
    obtain rfl := eq_of_next hnext
    split at h
    · cases h
    rename_i right s2 h2 hterm
    split at h
    · cases h
    rename_i e' s3 h3 hrest
    obtain ⟨rfl, rfl⟩ := ok_inj h
    obtain ⟨ts, rfl, ht⟩ := term_of_termExpr hs.rest ⟨h2, hterm⟩
    obtain ⟨us, tail, rfl, hat, rfl⟩ := addTail_of_additiveRest hs.rest.of_prepend ⟨h3, hrest⟩
    exact ⟨t :: ts ++ us, (op, right) :: tail, by simp, .cons (addToken_of_addOf hop) ht hat, rfl⟩
  | .eof p, _, ⟨hr, h⟩ => by
    rw [additiveRest.eq_2 _ _ (by simp)] at h
    obtain ⟨rfl, rfl⟩ := ok_inj h
    exact ⟨[], [], rfl, .nil, rfl⟩
  | .fail err, _, ⟨hr, h⟩ => by
    rw [additiveRest.eq_2 _ _ (by simp)] at h
    obtain ⟨rfl, rfl⟩ := ok_inj h
    exact ⟨[], [], rfl, .nil, rfl⟩
termination_by s _ _ => 10 * s.size + 5
decreasing_by
  all_goals (try simp only [Stream.size] at *)
  all_goals omega

theorem term_of_termExpr {s r : Stream} {e : Expr} (hs : IntsAreDigits s)
    (h : Yields (termExpr s) e r) : ∃ ts, s = Stream.prepend ts r ∧ Term ts e := by
  obtain ⟨hr, h⟩ := h
  rw [termExpr] at h
  split at h
  · cases h
  rename_i first s1 h1 hprim
  split at h
  · cases h
  rename_i e' s2 h2 hrest
  obtain ⟨rfl, rfl⟩ := ok_inj h
  obtain ⟨ts, rfl, hp⟩ := primary_of_primaryExpr hs ⟨h1, hprim⟩
  obtain ⟨us, tail, rfl, hmt, rfl⟩ := mulTail_of_termRest hs.of_prepend ⟨h2, hrest⟩
  exact ⟨ts ++ us, by rw [Stream.prepend_append], .mk hp hmt⟩
termination_by 10 * s.size + 4
decreasing_by all_goals omega

theorem mulTail_of_termRest {r : Stream} {left e : Expr} :
    ∀ {s : Stream}, IntsAreDigits s → Yields (termRest s left) e r →
      ∃ us tail, s = Stream.prepend us r ∧ MulTail us tail ∧ e = foldLeft left tail
  | .cons t rest, hs, ⟨hr, h⟩ => by
    rw [termRest.eq_1] at h
    split at h
    · obtain ⟨rfl, rfl⟩ := ok_inj h
      exact ⟨[], [], rfl, .nil, rfl⟩
    rename_i op hop
    split at h
    · cases h
    rename_i s1 h1 hnext
    obtain rfl := eq_of_next hnext
    split at h
    · cases h
    rename_i right s2 h2 hprim
    split at h
    · cases h
    rename_i e' s3 h3 hrest
    obtain ⟨rfl, rfl⟩ := ok_inj h
    obtain ⟨ts, rfl, hp⟩ := primary_of_primaryExpr hs.rest ⟨h2, hprim⟩
    obtain ⟨us, tail, rfl, hmt, rfl⟩ := mulTail_of_termRest hs.rest.of_prepend ⟨h3, hrest⟩
    exact ⟨t :: ts ++ us, (op, right) :: tail, by simp, .cons (mulToken_of_mulOf hop) hp hmt, rfl⟩
  | .eof p, _, ⟨hr, h⟩ => by
    rw [termRest.eq_2 _ _ (by simp)] at h
    obtain ⟨rfl, rfl⟩ := ok_inj h
    exact ⟨[], [], rfl, .nil, rfl⟩
  | .fail err, _, ⟨hr, h⟩ => by
    rw [termRest.eq_2 _ _ (by simp)] at h
    obtain ⟨rfl, rfl⟩ := ok_inj h
    exact ⟨[], [], rfl, .nil, rfl⟩
termination_by s _ _ => 10 * s.size + 4
decreasing_by
  all_goals (try simp only [Stream.size] at *)
  all_goals omega

theorem primary_of_primaryExpr {r : Stream} {e : Expr} :
    ∀ {s : Stream}, IntsAreDigits s → Yields (primaryExpr s) e r →
      ∃ ts, s = Stream.prepend ts r ∧ Primary ts e
  | .cons t rest, hs, ⟨hr, h⟩ => by
    rw [primaryExpr.eq_1] at h
    -- one case per kind of the front token; the kinds that start no operand are refused
    cases hk : t.kind <;> simp only [hk, reduceCtorEq] at h
    case lparen =>
      split at h
      · cases h
      rename_i s1 h1 hnext
      obtain rfl := eq_of_next hnext
      split at h
      · cases h
      split at h
      · cases h
      rename_i inner s2 h2 hor
      obtain ⟨ts, rfl, hd⟩ := disjunction_of_orExpr hs.rest ⟨h2, hor⟩
      split at h
      · split at h
        · rename_i hc
          split at h
          · cases h
          rename_i s3 h3 hnext'
          obtain rfl := eq_of_next hnext'
          obtain ⟨rfl, rfl⟩ := ok_inj h
          refine ⟨t :: ts ++ [_], ?_, .paren hk hd hc⟩
          simp
        · cases h
      · cases h
    case str =>
      obtain ⟨rfl, rfl⟩ := eq_of_literalAfter h
      exact ⟨[t], rfl, .string hk⟩
    case kwTrue =>
      obtain ⟨rfl, rfl⟩ := eq_of_literalAfter h
      exact ⟨[t], rfl, .true hk⟩
    case kwFalse =>
      obtain ⟨rfl, rfl⟩ := eq_of_literalAfter h
      exact ⟨[t], rfl, .false hk⟩
    case kwNull =>
      obtain ⟨rfl, rfl⟩ := eq_of_literalAfter h
      exact ⟨[t], rfl, .null hk⟩
    case int =>
      split at h
      · cases h
      rename_i l hl
      obtain ⟨rfl, rfl⟩ := eq_of_literalAfter h
      exact ⟨[t], rfl, .number (numberValue_of_numberLiteral (.inl hk) hs.1 hl)⟩
    case float =>
      split at h
      · cases h
      rename_i l hl
      obtain ⟨rfl, rfl⟩ := eq_of_literalAfter h
      exact ⟨[t], rfl, .number (numberValue_of_numberLiteral (.inr hk) hs.1 hl)⟩
    case minus =>
      split at h
      · cases h
      rename_i s1 h1 hnext
      obtain rfl := eq_of_next hnext
      split at h
      · split at h
        · rename_i hnum
          split at h
          · cases h
          rename_i l hl
          split at h
          · cases h
          rename_i s2 h2 hnext'
          obtain rfl := eq_of_next hnext'
          obtain ⟨rfl, rfl⟩ := ok_inj h
          exact ⟨[t, _], rfl, .negative hk (numberValue_of_numberLiteral hnum hs.rest.1 hl)⟩
        · cases h
      · cases h
    case ident =>
      obtain ⟨ts, rfl, hp⟩ := primary_of_nameOrCall hk hs.rest (yields_of_afterFront h)
      exact ⟨t :: ts, rfl, hp⟩
  | .eof p, _, ⟨hr, h⟩ => by
    rw [primaryExpr.eq_2] at h
    cases h
  | .fail err, _, ⟨hr, h⟩ => by
    rw [primaryExpr.eq_3] at h
    cases h
termination_by s _ _ => 10 * s.size + 3
decreasing_by
  all_goals (try simp only [Stream.size] at *)
  all_goals omega

theorem primary_of_nameOrCall {t : Token} {rest r : Stream} {e : Expr} (ht : t.kind = .ident)
    (hs : IntsAreDigits rest) (h : Yields (nameOrCall t rest) e r) :
    ∃ ts, rest = Stream.prepend ts r ∧ Primary (t :: ts) e := by
  obtain ⟨hr, h⟩ := h
  rw [nameOrCall] at h
  split at h
  · cases h
  rename_i s1 h1 hnext
  have hlt1 := h1
  -- the recursion measures `rest`, so it stays as it is and `s1` takes its place
  have hrest := eq_of_next hnext
  rw [← hrest] at hs
  rw [← hrest]
  split at h
  · split at h
    · -- `name : name ( ... )`
      rename_i hcolon
      split at h
      · cases h
      rename_i s2 h2 hnext'
      obtain rfl := eq_of_next hnext'
      split at h
      · split at h
        · rename_i hf
          split at h
          · cases h
          rename_i s3 h3 hnext''
          obtain rfl := eq_of_next hnext''
          split at h
          · split at h
            · rename_i ho
              split at h
              · cases h
              rename_i e' s4 h4 hcall
              obtain ⟨rfl, rfl⟩ := ok_inj h
              obtain ⟨ts, args, c, hc, rfl, ha, rfl⟩ :=
                arguments_of_callArgs hs.rest.rest.rest ⟨h4, hcall⟩
              refine ⟨_ :: _ :: _ :: ts ++ [c], ?_, .qualifiedCall ht hcolon hf ho ha hc⟩
              simp
            · cases h
          · cases h
        · cases h
      · cases h
    · split at h
      · -- `name ( ... )`
        rename_i ho
        split at h
        · cases h
        rename_i e' s2 h2 hcall
        obtain ⟨rfl, rfl⟩ := ok_inj h
        obtain ⟨ts, args, c, hc, rfl, ha, rfl⟩ := arguments_of_callArgs hs.rest ⟨h2, hcall⟩
        refine ⟨_ :: ts ++ [c], ?_, .call ht ho ha hc⟩
        simp
      · obtain ⟨rfl, rfl⟩ := ok_inj h
        exact ⟨[], rfl, .field ht⟩
  · obtain ⟨rfl, rfl⟩ := ok_inj h
    exact ⟨[], rfl, .field ht⟩
termination_by 10 * rest.size + 10
decreasing_by all_goals (simp only [Stream.size] at hlt1; omega)

theorem arguments_of_callArgs {ns name : String} {openPos : Nat} {rest r : Stream} {e : Expr}
    (hs : IntsAreDigits rest) (h : Yields (callArgs ns name openPos rest) e r) :
    ∃ ts args c, c.kind = .rparen ∧ rest = Stream.prepend ts (.cons c r) ∧ Arguments ts args ∧
      e = .call ns name args := by
  obtain ⟨hr, h⟩ := h
  rw [callArgs] at h
  split at h
  · cases h
  rename_i s1 h1 hnext
  have hlt1 := h1
  have hrest := eq_of_next hnext
  rw [← hrest] at hs
  rw [← hrest]
  dsimp only at h
  by_cases hcur : (current s1).kind = .rparen
  · -- no arguments: the closing parenthesis comes at once
    simp only [if_pos hcur] at h
    split at h
    · split at h
      · rename_i hc
        split at h
        · cases h
        rename_i s3 h3 hnext'
        obtain rfl := eq_of_next hnext'
        obtain ⟨rfl, rfl⟩ := ok_inj h
        exact ⟨[], [], _, hc, rfl, .none, rfl⟩
      · split at h <;> cases h
    · cases h
  · simp only [if_neg hcur] at h
    split at h
    · cases h
    rename_i args s2 h2 hargs
    obtain ⟨ts, es, rfl, hl, hes⟩ := argList_of_argList hs ⟨h2, hargs⟩
    split at h
    · split at h
      · rename_i hc
        split at h
        · cases h
        rename_i s3 h3 hnext'
        obtain rfl := eq_of_next hnext'
        obtain ⟨rfl, rfl⟩ := ok_inj h
        exact ⟨ts, es, _, hc, rfl, .some hl, by simp [hes]⟩
      · split at h <;> cases h
    · cases h
termination_by 10 * rest.size + 11
decreasing_by all_goals omega

theorem argList_of_argList {s r : Stream} {acc args : List Expr} (hs : IntsAreDigits s)
    (h : Yields (argList s acc) args r) :
    ∃ ts es, s = Stream.prepend ts r ∧ ArgList ts es ∧ args = acc ++ es := by
  obtain ⟨hr, h⟩ := h
  rw [argList] at h
  split at h
  · cases h
  rename_i arg s1 h1 hor
  have hlt1 := h1
  obtain ⟨ts, hts, hd⟩ := disjunction_of_orExpr hs ⟨h1, hor⟩
  rw [hts] at hs
  split at h
  · split at h
    · rename_i hcomma
      split at h
      · cases h
      rename_i s2 h2 hnext
      obtain rfl := eq_of_next hnext
      split at h
      · cases h
      rename_i args' s3 h3 hl
      obtain ⟨rfl, rfl⟩ := ok_inj h
      obtain ⟨us, es, rfl, hl', rfl⟩ := argList_of_argList hs.of_prepend.rest ⟨h3, hl⟩
      exact ⟨ts ++ _ :: us, arg :: es, by simp [hts], .cons hd hcomma hl', by simp⟩
    · obtain ⟨rfl, rfl⟩ := ok_inj h
      exact ⟨ts, [arg], hts, .last hd, rfl⟩
  · obtain ⟨rfl, rfl⟩ := ok_inj h
    exact ⟨ts, [arg], hts, .last hd, rfl⟩
termination_by 10 * s.size + 10
decreasing_by all_goals (try simp only [Stream.size] at hlt1); omega

end

/-! ## The lexer writes integers as digits

A number is an integer only when it has neither a fraction nor an exponent, and its text is
then the run of digits it starts with. -/

theorem isDigit_latin1 {b : UInt8} (h : Lexer.isDigit b = true) :
    Read.isDigit (Bytes.latin1 b) = true := by
  rw [Lexer.isDigit_iff] at h
  rw [Read.isDigit_iff, Bytes.toNat_latin1 (by omega)]
  exact h

theorem isDigits_asciiText {bs : Bytes} (hne : bs ≠ []) (h : ∀ b ∈ bs, Lexer.isDigit b = true) :
    Numeral.IsDigits (Lexer.asciiText bs).toList := by
  rw [Lexer.asciiText, String.toList_ofList]
  refine ⟨by simpa using hne, ?_⟩
  simp only [List.mem_map]
  rintro c ⟨b, hb, rfl⟩
  exact isDigit_latin1 (h b hb)

theorem fractionEnd_of_int {s : Bytes} {start i1 i2 : Nat}
    (h : Lexer.fractionEnd s start i1 = .ok (i2, false)) : i2 = i1 := by
  unfold Lexer.fractionEnd at h
  split at h
  · -- a fraction makes the number a float, or fails
    split at h
    · split at h <;> cases h
    · cases h
  · cases h
    rfl

theorem exponentEnd_of_int {s : Bytes} {start i2 n : Nat} {isFloat : Bool}
    (h : Lexer.exponentEnd s start i2 isFloat = .ok (n, false)) : n = i2 ∧ isFloat = false := by
  unfold Lexer.exponentEnd at h
  split at h
  · -- an exponent makes the number a float, or fails
    dsimp only at h
    split at h
    · split at h <;> cases h
    · cases h
  · cases h
    exact ⟨rfl, rfl⟩

theorem numberEnd_of_int {s : Bytes} {start n m : Nat} {isFloat : Bool} {text : String}
    (h : Lexer.numberEnd s start n isFloat = .ok (.int, text, m)) :
    isFloat = false ∧ text = Lexer.asciiText (s.take n) := by
  -- both branches that succeed give the kind `if isFloat then .float else .int`
  have hok : (Except.ok (if isFloat then TokenKind.float else .int, Lexer.asciiText (s.take n), n) :
      Except SyntaxError (TokenKind × String × Nat)) = .ok (.int, text, m) := by
    unfold Lexer.numberEnd at h
    split at h
    · rename_i c _
      by_cases hn : Lexer.isNameStart c = true
      · rw [if_pos hn] at h
        cases h
      · rw [if_neg hn] at h
        exact h
    · exact h
  cases isFloat with
  | false =>
    simp only [Bool.false_eq_true, if_false, Except.ok.injEq, Prod.mk.injEq, true_and] at hok
    exact ⟨rfl, hok.1.symm⟩
  | true => simp at hok

/-- An integer's text is the run of digits that starts the number. -/
theorem number_of_int {s : Bytes} {start n : Nat} {text : String}
    (h : Lexer.number s start = .ok (.int, text, n)) :
    text = Lexer.asciiText (s.takeWhile Lexer.isDigit) := by
  rw [Lexer.number_eq] at h
  split at h
  · cases h
  rename_i i2 isFloat hf
  split at h
  · cases h
  rename_i n' isFloat' he
  obtain ⟨rfl, rfl⟩ := numberEnd_of_int h
  obtain ⟨rfl, rfl⟩ := exponentEnd_of_int he
  obtain rfl := fractionEnd_of_int hf
  rw [Lexer.digitsAt, List.drop_zero, ← List.prefix_iff_eq_take.1 (List.takeWhile_prefix _)]

-- No branch of the operator tables gives a number or a name, and no keyword is a number;
-- `ite_eq_iff` asks this of every branch without comparing the bytes of one branch with
-- those of another.
theorem twoByteKind_ne_word (a b : UInt8) {k : TokenKind}
    (hk : k = .int ∨ k = .float ∨ k = .ident) : Lexer.twoByteKind a b ≠ some k := by
  unfold Lexer.twoByteKind
  rcases hk with rfl | rfl | rfl <;>
    simp only [ne_eq, ite_eq_iff, reduceCtorEq, Option.some.injEq, and_false, or_false,
      not_false_eq_true]

theorem oneByteKind_ne_word (a : UInt8) {k : TokenKind}
    (hk : k = .int ∨ k = .float ∨ k = .ident) : Lexer.oneByteKind a ≠ some k := by
  unfold Lexer.oneByteKind
  rcases hk with rfl | rfl | rfl <;>
    simp only [ne_eq, ite_eq_iff, reduceCtorEq, Option.some.injEq, and_false, or_false,
      not_false_eq_true]

theorem nameKind_ne_number (word : String) {k : TokenKind} (hk : k = .int ∨ k = .float) :
    Lexer.nameKind word ≠ k := by
  unfold Lexer.nameKind
  rcases hk with rfl | rfl <;>
    simp only [ne_eq, ite_eq_iff, reduceCtorEq, and_false, or_false, not_false_eq_true]

/-- The integer a token reader reads is written as digits. -/
theorem tokenOne_int {b : UInt8} {rest : Bytes} {pos : Nat} {t : Token}
    {r : {r : Bytes // r.length ≤ rest.length}} (h : Lexer.tokenOne b rest pos = .ok (t, r))
    (ht : t.kind = .int) : Numeral.IsDigits t.text.toList := by
  unfold Lexer.tokenOne at h
  split at h
  · rename_i k hk
    cases h
    subst ht
    exact absurd hk (oneByteKind_ne_word b (Or.inl rfl))
  split_ifs at h with hq hd hn
  · split at h <;> cases h
    cases ht
  · split at h
    · rename_i k text n hnum
      cases h
      subst ht
      rw [number_of_int hnum, List.takeWhile_cons_of_pos hd]
      exact isDigits_asciiText (List.cons_ne_nil _ _)
        (fun c hc => List.mem_takeWhile_imp (l := b :: rest) (by simpa [hd] using hc))
    · cases h
  · cases h
    exact absurd ht (nameKind_ne_number _ (Or.inl rfl))

theorem token_int {b : UInt8} {rest : Bytes} {pos : Nat} {t : Token}
    {r : {r : Bytes // r.length ≤ rest.length}} (h : Lexer.token b rest pos = .ok (t, r))
    (ht : t.kind = .int) : Numeral.IsDigits t.text.toList := by
  unfold Lexer.token at h
  split at h
  · split at h
    · rename_i k hk
      cases h
      subst ht
      exact absurd hk (twoByteKind_ne_word b _ (Or.inl rfl))
    · exact tokenOne_int h ht
  · exact tokenOne_int h ht

theorem intsAreDigits_tokens (s : Bytes) (pos : Nat) : IntsAreDigits (Lexer.tokens s pos) := by
  fun_induction Lexer.tokens s pos with
  | case1 => trivial
  | case2 => assumption
  | case3 => trivial
  | case4 pos b rest hb t r hr htok ih => exact ⟨token_int htok, ih⟩

/-! ## Reading a text -/

/-- A text that reads as a filter lexes into the tokens of a derivation of it. -/
theorem derivation_of_parse {text : String} {e : Expr} (h : parse text = .ok e) :
    ∃ ts p, Stream.ofText text = Stream.prepend ts (.eof p) ∧ Disjunction ts e := by
  unfold parse at h
  split at h
  · cases h
  · cases h
  split at h
  · cases h
  split at h
  · cases h
  · cases h
  rename_i p hr hor
  cases h
  obtain ⟨ts, hts, hd⟩ := disjunction_of_orExpr (intsAreDigits_tokens _ _) ⟨hr, hor⟩
  exact ⟨ts, p, hts, hd⟩

/-- The tokens of a derivation, up to the end of the text, read as its tree. -/
theorem parse_of_derivation {text : String} {ts : List Token} {p : Nat} {e : Expr}
    (hs : Stream.ofText text = Stream.prepend ts (.eof p)) (hd : Disjunction ts e) :
    parse text = .ok e := by
  obtain ⟨t, us, rfl, -⟩ := hd.head
  obtain ⟨hr, hx⟩ := hd.reads (r := .eof p) trivial
  have hx' : orExpr (.cons t (Stream.prepend us (.eof p))) = .ok (e, ⟨.eof p, hr⟩) := hx
  rw [Stream.prepend_cons] at hs
  unfold parse
  rw [hs]
  simp only [hx']

theorem parse_eq_ok_iff (text : String) (e : Expr) :
    parse text = .ok e ↔
      ∃ ts p, Stream.ofText text = Stream.prepend ts (.eof p) ∧ Disjunction ts e :=
  ⟨derivation_of_parse, fun ⟨_, _, hs, hd⟩ => parse_of_derivation hs hd⟩

/-- The grammar is unambiguous: the tokens of a derivation determine its tree. -/
theorem Disjunction.unique {ts : List Token} {e e' : Expr} (h : Disjunction ts e)
    (h' : Disjunction ts e') : e = e' := by
  obtain ⟨_, hx⟩ := h.reads (r := .eof 0) trivial
  obtain ⟨_, hx'⟩ := h'.reads (r := .eof 0) trivial
  rw [hx] at hx'
  exact (ok_inj hx').1

end Grammar

end EdgeQuery.Query
