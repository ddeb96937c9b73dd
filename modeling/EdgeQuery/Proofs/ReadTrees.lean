import EdgeQuery.Proofs.ParseDerivation
import EdgeQuery.Proofs.LexRendered
/-! # The trees reading gives

Every tree `parse` returns is one the printer writes faithfully (`Expr.Printable`): its
names are identifiers, its integers fit in 64 bits, its floats are finite and it has no
empty slots. Its conjunctions and disjunctions have two terms or more (`Expr.Wide`), since
a chain of one term reads as that term. Together these make `Expr.Parsed`.

The grammar gives most of this. Two facts come from the lexer (`TokenFits`): the text of
an identifier is a name, and a float is written from a digit on, so that its text is no
spelling of infinity and the number reader's value of it is finite. -/

namespace EdgeQuery.Query

namespace Expr

/-- Trees whose conjunctions and disjunctions have two terms or more, at every depth. -/
inductive Wide : Expr → Prop
  | field {n : String} : Wide (field n)
  | lit {l : Literal} : Wide (lit l)
  | compare {op : CompareOp} {l r : Expr} : Wide l → Wide r → Wide (compare op l r)
  | arith {op : ArithOp} {l r : Expr} : Wide l → Wide r → Wide (arith op l r)
  | and {ts : List Expr} : 2 ≤ ts.length → (∀ t ∈ ts, Wide t) → Wide (and ts)
  | or {ts : List Expr} : 2 ≤ ts.length → (∀ t ∈ ts, Wide t) → Wide (or ts)
  | not {t : Expr} : Wide t → Wide (not t)
  | call {ns name : String} {args : List Expr} : (∀ t ∈ args, Wide t) → Wide (call ns name args)
  | paren {t : Expr} : Wide t → Wide (paren t)
  | hole : Wide hole

/-- The trees of the shape reading gives: printable, with wide junctions. -/
def Parsed (e : Expr) : Prop := e.Printable ∧ e.Wide

theorem Parsed.compare {op : CompareOp} {l r : Expr} (hl : l.Parsed) (hr : r.Parsed) :
    (compare op l r).Parsed :=
  ⟨.compare hl.1 hr.1, .compare hl.2 hr.2⟩

theorem Parsed.arith {op : ArithOp} {l r : Expr} (hl : l.Parsed) (hr : r.Parsed) :
    (arith op l r).Parsed :=
  ⟨.arith hl.1 hr.1, .arith hl.2 hr.2⟩

theorem Parsed.and {ts : List Expr} (hlen : 2 ≤ ts.length) (h : ∀ t ∈ ts, t.Parsed) :
    (and ts).Parsed :=
  ⟨.and (List.ne_nil_of_length_pos (by omega)) fun t ht => (h t ht).1,
    .and hlen fun t ht => (h t ht).2⟩

theorem Parsed.or {ts : List Expr} (hlen : 2 ≤ ts.length) (h : ∀ t ∈ ts, t.Parsed) :
    (or ts).Parsed :=
  ⟨.or (List.ne_nil_of_length_pos (by omega)) fun t ht => (h t ht).1,
    .or hlen fun t ht => (h t ht).2⟩

theorem Parsed.not {t : Expr} (h : t.Parsed) : (not t).Parsed := ⟨.not h.1, .not h.2⟩

theorem Parsed.paren {t : Expr} (h : t.Parsed) : (paren t).Parsed := ⟨.paren h.1, .paren h.2⟩

theorem Parsed.call {ns name : String} {args : List Expr} (hns : ns = "" ∨ IsName ns)
    (hname : IsName name) (h : ∀ t ∈ args, t.Parsed) : (call ns name args).Parsed :=
  ⟨.call hns hname fun t ht => (h t ht).1, .call fun t ht => (h t ht).2⟩

end Expr

namespace Grammar

open EdgeQuery.Query.Expr

/-! ## What the lexer writes -/

/-- What the trees need of a token beyond its kind: a float is written from a digit on, and
an identifier is a name. -/
def TokenFits (t : Token) : Prop :=
  (t.kind = .float → ∃ d cs, t.text.toList = d :: cs ∧ Read.isDigit d = true) ∧
    (t.kind = .ident → IsName t.text)

/-- Every token of a stream fits. -/
def AllFit : Stream → Prop
  | .cons t rest => TokenFits t ∧ AllFit rest
  | _ => True

theorem AllFit.mem {ts : List Token} {r : Stream} (h : AllFit (Stream.prepend ts r)) :
    ∀ t ∈ ts, TokenFits t := by
  induction ts with
  | nil => simp
  | cons t ts ih =>
    intro u hu
    rcases List.mem_cons.1 hu with rfl | hu
    · exact h.1
    · exact ih h.2 u hu

theorem fractionEnd_le {s : Bytes} {start i1 i2 : Nat} {isFloat : Bool}
    (h : Lexer.fractionEnd s start i1 = .ok (i2, isFloat)) : i1 ≤ i2 := by
  unfold Lexer.fractionEnd at h
  split at h
  · split at h
    · split at h
      · cases h
        omega
      · cases h
    · cases h
  · cases h
    exact le_rfl

theorem exponentEnd_le {s : Bytes} {start i2 n : Nat} {isFloat isFloat' : Bool}
    (h : Lexer.exponentEnd s start i2 isFloat = .ok (n, isFloat')) : i2 ≤ n := by
  unfold Lexer.exponentEnd at h
  split at h
  · dsimp only at h
    split at h
    · split at h
      · cases h
        split <;> omega
      · cases h
    · cases h
  · cases h
    exact le_rfl

theorem numberEnd_text {s : Bytes} {start n m : Nat} {isFloat : Bool} {k : TokenKind}
    {text : String} (h : Lexer.numberEnd s start n isFloat = .ok (k, text, m)) :
    (k = .int ∨ k = .float) ∧ text = Lexer.asciiText (s.take n) ∧ m = n := by
  have hkind : (if isFloat then TokenKind.float else .int) = .int ∨
      (if isFloat then TokenKind.float else .int) = .float := by
    cases isFloat <;> simp
  unfold Lexer.numberEnd at h
  split at h
  · split at h
    · cases h
    · cases h
      exact ⟨hkind, rfl, rfl⟩
  · cases h
    exact ⟨hkind, rfl, rfl⟩

/-- A number is an integer or a float, and its text is the bytes it takes, at least its
leading digits. -/
theorem number_text {s : Bytes} {start n : Nat} {k : TokenKind} {text : String}
    (h : Lexer.number s start = .ok (k, text, n)) :
    (k = .int ∨ k = .float) ∧ text = Lexer.asciiText (s.take n) ∧ Lexer.digitsAt s 0 ≤ n := by
  rw [Lexer.number_eq] at h
  split at h
  · cases h
  rename_i i2 isFloat hf
  split at h
  · cases h
  rename_i n' isFloat' he
  obtain ⟨hk, rfl, rfl⟩ := numberEnd_text h
  exact ⟨hk, rfl, (fractionEnd_le hf).trans (exponentEnd_le he)⟩

/-- A number that starts with a digit is written from that digit on. -/
theorem number_head {b : UInt8} {rest : Bytes} {start n : Nat} {k : TokenKind} {text : String}
    (hb : Lexer.isDigit b = true) (h : Lexer.number (b :: rest) start = .ok (k, text, n)) :
    ∃ cs, text.toList = Bytes.latin1 b :: cs := by
  obtain ⟨-, rfl, hn⟩ := number_text h
  have h1 : 1 ≤ Lexer.digitsAt (b :: rest) 0 := by simp [Lexer.digitsAt, hb]
  obtain ⟨n', rfl⟩ : ∃ n', n = n' + 1 := ⟨n - 1, by omega⟩
  exact ⟨(rest.take n').map Bytes.latin1, by simp [Lexer.asciiText]⟩

theorem tokenOne_fits {b : UInt8} {rest : Bytes} {pos : Nat} {t : Token}
    {r : {r : Bytes // r.length ≤ rest.length}} (h : Lexer.tokenOne b rest pos = .ok (t, r)) :
    TokenFits t := by
  unfold Lexer.tokenOne at h
  split at h
  · rename_i k hk
    cases h
    exact ⟨fun hf => absurd hk (oneByteKind_ne_word b (Or.inr (Or.inl hf))),
      fun hi => absurd hk (oneByteKind_ne_word b (Or.inr (Or.inr hi)))⟩
  split_ifs at h with hq hd hn
  · -- a string
    split at h <;> cases h
    exact ⟨nofun, nofun⟩
  · -- a number, written from its first digit on
    split at h
    · rename_i k text n hnum
      cases h
      obtain ⟨hk, -, -⟩ := number_text hnum
      obtain ⟨cs, hcs⟩ := number_head hd hnum
      refine ⟨fun _ => ⟨_, cs, hcs, isDigit_latin1 hd⟩, fun hi => ?_⟩
      rcases hk with hk | hk <;> simp_all
    · cases h
  · -- a name, which is an identifier unless it is a keyword
    cases h
    refine ⟨fun hf => absurd hf (nameKind_ne_number _ (Or.inr rfl)), fun hi => ?_⟩
    exact ⟨b :: rest.takeWhile Lexer.isNameChar,
      ⟨hn, fun x hx => List.mem_takeWhile_imp hx⟩, rfl, hi⟩

theorem token_fits {b : UInt8} {rest : Bytes} {pos : Nat} {t : Token}
    {r : {r : Bytes // r.length ≤ rest.length}} (h : Lexer.token b rest pos = .ok (t, r)) :
    TokenFits t := by
  unfold Lexer.token at h
  split at h
  · split at h
    · rename_i k hk
      cases h
      exact ⟨fun hf => absurd hk (twoByteKind_ne_word b _ (Or.inr (Or.inl hf))),
        fun hi => absurd hk (twoByteKind_ne_word b _ (Or.inr (Or.inr hi)))⟩
    · exact tokenOne_fits h
  · exact tokenOne_fits h

theorem allFit_tokens (s : Bytes) (pos : Nat) : AllFit (Lexer.tokens s pos) := by
  fun_induction Lexer.tokens s pos with
  | case1 => trivial
  | case2 => assumption
  | case3 => trivial
  | case4 pos b rest hb t r hr htok ih => exact ⟨token_fits htok, ih⟩

/-! ## Finite floats -/

/-- A number written from a digit on, with a minus sign or none, is no spelling of infinity
or not-a-number. -/
theorem special_of_digit (negative : Bool) {d : Char} (hd : Read.isDigit d = true)
    (cs : List Char) : Read.special ((if negative then ['-'] else []) ++ d :: cs) = none := by
  have h1 : d ≠ '+' := Read.ne_of_isDigit hd rfl
  have h2 : d ≠ '-' := Read.ne_of_isDigit hd rfl
  have hi : d ≠ 'i' := Read.ne_of_isDigit hd rfl
  have hn : d ≠ 'n' := Read.ne_of_isDigit hd rfl
  cases negative <;>
    simp [Read.special, h1, h2, Read.commonPrefixIgnoringCase, Read.lower_of_isDigit hd, hi, hn]

theorem isFinite_ofDecimal {negative : Bool} {m : Nat} {e : Int}
    (h : Binary64.isInfinite (Binary64.ofDecimal negative m e) = false) :
    Binary64.isFinite (Binary64.ofDecimal negative m e) = true := by
  unfold Binary64.ofDecimal at h ⊢
  by_cases he : 0 ≤ e
  · rw [if_pos he] at h ⊢
    exact Binary64.isFinite_ofRatio _ _ _ h
  · rw [if_neg he] at h ⊢
    exact Binary64.isFinite_ofRatio _ _ _ h

theorem isFinite_ofBinary {negative : Bool} {m : Nat} {e : Int}
    (h : Binary64.isInfinite (Binary64.ofBinary negative m e) = false) :
    Binary64.isFinite (Binary64.ofBinary negative m e) = true := by
  unfold Binary64.ofBinary at h ⊢
  by_cases he : 0 ≤ e
  · rw [if_pos he] at h ⊢
    exact Binary64.isFinite_ofRatio _ _ _ h
  · rw [if_neg he] at h ⊢
    exact Binary64.isFinite_ofRatio _ _ _ h

/-- Apart from the spellings of infinity and not-a-number, the number reader gives only
finite values: it refuses a number out of range. -/
theorem isFinite_of_parseFloat {s : String} {x : Float} (hs : Read.special s.toList = none)
    (h : Read.parseFloat s = .ok x) : Binary64.isFinite x = true := by
  unfold Read.parseFloat at h
  simp only [hs] at h
  split at h
  · cases h
  rename_i negative m e hex _
  -- the value is a rounded ratio in either base, refused when it is infinite
  by_cases hinf : Binary64.isInfinite
      (if hex then Binary64.ofBinary negative m e else Binary64.ofDecimal negative m e) = true
  · rw [if_pos hinf] at h
    cases h
  · rw [if_neg hinf] at h
    cases h
    cases hex
    · simp only [Bool.false_eq_true, if_false] at hinf ⊢
      exact isFinite_ofDecimal (Bool.eq_false_iff.2 hinf)
    · simp only [if_true] at hinf ⊢
      exact isFinite_ofBinary (Bool.eq_false_iff.2 hinf)

theorem NumberValue.printable {t : Token} {negative : Bool} {l : Literal}
    (h : NumberValue t negative l) (hfit : TokenFits t) : l.Printable := by
  cases h with
  | int _ _ _ hlo hhi => exact ⟨hlo, hhi⟩
  | float hk hx =>
    obtain ⟨d, cs, hcs, hd⟩ := hfit.1 hk
    have hspecial : Read.special (signedText negative t.text).toList = none := by
      have := special_of_digit negative hd cs
      cases negative <;> simpa [signedText, hcs] using this
    exact isFinite_of_parseFloat hspecial hx

/-! ## Derived trees -/

theorem junction_parsed {node : List Expr → Expr}
    (hnode : ∀ es, 2 ≤ es.length → (∀ e ∈ es, e.Parsed) → (node es).Parsed) {first : Expr}
    {rest : List Expr} (hfirst : first.Parsed) (hrest : ∀ e ∈ rest, e.Parsed) :
    (junction node first rest).Parsed := by
  cases rest with
  | nil => exact hfirst
  | cons e es =>
    refine hnode _ (by simp) fun x hx => ?_
    rcases List.mem_cons.1 hx with rfl | hx
    · exact hfirst
    · exact hrest x hx

theorem foldLeft_parsed {first : Expr} {tail : List (ArithOp × Expr)} (hfirst : first.Parsed)
    (htail : ∀ p ∈ tail, p.2.Parsed) : (foldLeft first tail).Parsed := by
  induction tail generalizing first with
  | nil => exact hfirst
  | cons p tail ih =>
    obtain ⟨op, e⟩ := p
    rw [foldLeft_cons]
    exact ih (hfirst.arith (htail _ List.mem_cons_self))
      fun q hq => htail q (List.mem_cons_of_mem _ hq)

-- The derivations are taken apart the way `Disjunction.reads` takes them apart; each rule's
-- tree is parsed when the trees of its parts are.
mutual

theorem Disjunction.parsed {ts : List Token} {e : Expr} (h : Disjunction ts e)
    (hts : ∀ t ∈ ts, TokenFits t) : e.Parsed := by
  match h with
  | @Disjunction.mk ts us first rest hc hd =>
    rw [List.forall_mem_append] at hts
    exact junction_parsed (fun _ => Parsed.or) (hc.parsed hts.1) (hd.parsed hts.2)

theorem Disjuncts.parsed {us : List Token} {es : List Expr} (h : Disjuncts us es)
    (hts : ∀ t ∈ us, TokenFits t) : ∀ e ∈ es, e.Parsed := by
  match h with
  | .nil => exact nofun
  | @Disjuncts.cons t ts us e es _ hc hd =>
    rw [List.cons_append, List.forall_mem_cons, List.forall_mem_append] at hts
    exact List.forall_mem_cons.2 ⟨hc.parsed hts.2.1, hd.parsed hts.2.2⟩

theorem Conjunction.parsed {ts : List Token} {e : Expr} (h : Conjunction ts e)
    (hts : ∀ t ∈ ts, TokenFits t) : e.Parsed := by
  match h with
  | @Conjunction.mk ts us first rest hu hd =>
    rw [List.forall_mem_append] at hts
    exact junction_parsed (fun _ => Parsed.and) (hu.parsed hts.1) (hd.parsed hts.2)

theorem Conjuncts.parsed {us : List Token} {es : List Expr} (h : Conjuncts us es)
    (hts : ∀ t ∈ us, TokenFits t) : ∀ e ∈ es, e.Parsed := by
  match h with
  | .nil => exact nofun
  | @Conjuncts.cons t ts us e es _ hu hd =>
    rw [List.cons_append, List.forall_mem_cons, List.forall_mem_append] at hts
    exact List.forall_mem_cons.2 ⟨hu.parsed hts.2.1, hd.parsed hts.2.2⟩

theorem Unary.parsed {ts : List Token} {e : Expr} (h : Unary ts e)
    (hts : ∀ t ∈ ts, TokenFits t) : e.Parsed := by
  match h with
  | @Unary.not t ts e _ hu =>
    rw [List.forall_mem_cons] at hts
    exact (hu.parsed hts.2).not
  | .comparison hc => exact hc.parsed hts

theorem Comparison.parsed {ts : List Token} {e : Expr} (h : Comparison ts e)
    (hts : ∀ t ∈ ts, TokenFits t) : e.Parsed := by
  match h with
  | .operand ha => exact ha.parsed hts
  | @Comparison.compare t ts us op l r ha _ hb =>
    rw [List.forall_mem_append, List.forall_mem_cons] at hts
    exact (ha.parsed hts.1).compare (hb.parsed hts.2.2)

theorem Additive.parsed {ts : List Token} {e : Expr} (h : Additive ts e)
    (hts : ∀ t ∈ ts, TokenFits t) : e.Parsed := by
  match h with
  | @Additive.mk ts us first tail ht hd =>
    rw [List.forall_mem_append] at hts
    exact foldLeft_parsed (ht.parsed hts.1) (hd.parsed hts.2)

theorem AddTail.parsed {us : List Token} {tail : List (ArithOp × Expr)} (h : AddTail us tail)
    (hts : ∀ t ∈ us, TokenFits t) : ∀ p ∈ tail, p.2.Parsed := by
  match h with
  | .nil => exact nofun
  | @AddTail.cons t ts us op e tail _ ht hd =>
    rw [List.cons_append, List.forall_mem_cons, List.forall_mem_append] at hts
    exact List.forall_mem_cons.2 ⟨ht.parsed hts.2.1, hd.parsed hts.2.2⟩

theorem Term.parsed {ts : List Token} {e : Expr} (h : Term ts e)
    (hts : ∀ t ∈ ts, TokenFits t) : e.Parsed := by
  match h with
  | @Term.mk ts us first tail hp hd =>
    rw [List.forall_mem_append] at hts
    exact foldLeft_parsed (hp.parsed hts.1) (hd.parsed hts.2)

theorem MulTail.parsed {us : List Token} {tail : List (ArithOp × Expr)} (h : MulTail us tail)
    (hts : ∀ t ∈ us, TokenFits t) : ∀ p ∈ tail, p.2.Parsed := by
  match h with
  | .nil => exact nofun
  | @MulTail.cons t ts us op e tail _ hp hd =>
    rw [List.cons_append, List.forall_mem_cons, List.forall_mem_append] at hts
    exact List.forall_mem_cons.2 ⟨hp.parsed hts.2.1, hd.parsed hts.2.2⟩

theorem Primary.parsed {ts : List Token} {e : Expr} (h : Primary ts e)
    (hts : ∀ t ∈ ts, TokenFits t) : e.Parsed := by
  match h with
  | @Primary.paren o c ts e _ hd _ =>
    rw [List.cons_append, List.forall_mem_cons, List.forall_mem_append] at hts
    exact (hd.parsed hts.2.1).paren
  | .string _ => exact ⟨.lit trivial, .lit⟩
  | .true _ => exact ⟨.lit trivial, .lit⟩
  | .false _ => exact ⟨.lit trivial, .lit⟩
  | .null _ => exact ⟨.lit trivial, .lit⟩
  | @Primary.number t l hv =>
    exact ⟨.lit (hv.printable (hts t List.mem_cons_self)), .lit⟩
  | @Primary.negative m t l _ hv =>
    exact ⟨.lit (hv.printable (hts t (by simp))), .lit⟩
  | @Primary.field t ht => exact ⟨.field ((hts t List.mem_cons_self).2 ht), .field⟩
  | @Primary.call f o c ts args hf _ ha _ =>
    rw [List.cons_append, List.cons_append, List.forall_mem_cons, List.forall_mem_cons,
      List.forall_mem_append] at hts
    exact Parsed.call (.inl rfl) (hts.1.2 hf) (ha.parsed hts.2.2.1)
  | @Primary.qualifiedCall n k f o c ts args hn _ hf _ ha _ =>
    simp only [List.cons_append, List.forall_mem_cons, List.forall_mem_append] at hts
    exact Parsed.call (.inr (hts.1.2 hn)) (hts.2.2.1.2 hf) (ha.parsed hts.2.2.2.2.1)

theorem Arguments.parsed {ts : List Token} {args : List Expr} (h : Arguments ts args)
    (hts : ∀ t ∈ ts, TokenFits t) : ∀ e ∈ args, e.Parsed := by
  match h with
  | .none => exact nofun
  | .some hl => exact hl.parsed hts

theorem ArgList.parsed {ts : List Token} {es : List Expr} (h : ArgList ts es)
    (hts : ∀ t ∈ ts, TokenFits t) : ∀ e ∈ es, e.Parsed := by
  match h with
  | .last hd => exact List.forall_mem_singleton.2 (hd.parsed hts)
  | @ArgList.cons t ts us e es hd _ hl =>
    rw [List.forall_mem_append, List.forall_mem_cons] at hts
    exact List.forall_mem_cons.2 ⟨hd.parsed hts.1, hl.parsed hts.2.2⟩

end

/-- Every tree reading gives is printable, with wide junctions. -/
theorem parsed_of_parse {text : String} {e : Expr} (h : parse text = .ok e) : e.Parsed := by
  obtain ⟨ts, p, hs, hd⟩ := derivation_of_parse h
  have hfit : AllFit (Stream.prepend ts (.eof p)) := hs ▸ allFit_tokens _ _
  exact hd.parsed hfit.mem

end Grammar

end EdgeQuery.Query
