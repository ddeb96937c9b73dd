import EdgeQuery.Proofs.FloatTextRead
import EdgeQuery.Proofs.Base64RoundTrip
import EdgeQuery.Query.Lexer
import Mathlib
/-! # Reading printed pieces as tokens

The printer writes a filter as pieces: names, numbers, quoted strings, operators, brackets
and blanks. This module shows what the reader makes of each piece, wherever it stands.

`Lexer.LexesTo b ls F` says that the bytes `b` read as tokens with the kinds and texts `ls`
whenever the bytes after them satisfy `F`, and that the reader then goes on with those bytes
as if they stood alone. What may follow a piece is the only thing that couples it to its
neighbours: a name must not run into a name byte, `<` must not meet `=`. Pieces compose by
`LexesTo.append`, so a printed text is read piece by piece.

* `lexesTo_name`: a name start and name bytes, before a byte that cannot continue a name;
* `lexesTo_numeral`: the digits of a `Numeral`, with its fraction and exponent;
* `lexesTo_quote`: a string as the printer quotes it, whose value is the string itself;
* `lexesTo_oneByte`, `lexesTo_twoByte`, `lexesTo_blank`: operators, brackets, blanks. -/

namespace EdgeQuery

/-! ### Text as bytes -/

namespace Bytes

theorem ofString_ofList (cs : List Char) :
    ofString (String.ofList cs) = cs.flatMap String.utf8EncodeChar := by
  simp [ofString, byteArray_toList, List.utf8Encode]

theorem ofString_eq (s : String) : ofString s = s.toList.flatMap String.utf8EncodeChar := by
  rw [← String.ofList_toList (s := s), ofString_ofList, String.toList_ofList]

@[simp] theorem ofString_append (s t : String) :
    ofString (s ++ t) = ofString s ++ ofString t := by
  simp [ofString_eq, String.toList_append]

theorem toNat_latin1 {b : UInt8} (h : b.toNat < 128) : (latin1 b).toNat = b.toNat := by
  have hv : b.toNat.isValidChar := by simp [Nat.isValidChar]; omega
  simp [latin1, Char.ofNat, dif_pos hv, Char.ofNatAux, Char.toNat]

theorem ofChar_latin1 {b : UInt8} (h : b.toNat < 128) : ofChar (latin1 b) = b := by
  rw [ofChar, toNat_latin1 h]
  exact UInt8.ofNat_toNat

theorem latin1_ofChar {c : Char} (h : c.toNat < 128) : latin1 (ofChar c) = c := by
  apply Char.toNat_inj.1
  rw [toNat_latin1 (by simp [ofChar]; omega)]
  simp [ofChar]
  omega

end Bytes

/-- The kind of token a numeral reads as: a float when it has a fraction or an exponent. -/
def Numeral.kind (n : Numeral) : Query.TokenKind :=
  if n.fraction.isSome || n.exponent.isSome then .float else .int

namespace Query

/-! ### Lexemes and streams -/

/-- What the reader of filters uses of a token: its kind and its text. -/
abbrev Lexeme := TokenKind × String

/-- The lexeme of a token. -/
def Token.lexeme (t : Token) : Lexeme := (t.kind, t.text)

/-- Tokens in front of a stream. -/
def Stream.prepend : List Token → Stream → Stream
  | [], s => s
  | t :: ts, s => .cons t (prepend ts s)

@[simp] theorem Stream.prepend_nil (s : Stream) : Stream.prepend [] s = s := rfl

@[simp] theorem Stream.prepend_cons (t : Token) (ts : List Token) (s : Stream) :
    Stream.prepend (t :: ts) s = .cons t (Stream.prepend ts s) := rfl

@[simp] theorem Stream.prepend_append (ts us : List Token) (s : Stream) :
    Stream.prepend (ts ++ us) s = Stream.prepend ts (Stream.prepend us s) := by
  induction ts with
  | nil => rfl
  | cons t ts ih => simp [ih]

namespace Lexer

/-- The bytes `b` read as tokens with the lexemes `ls` whenever the bytes after them satisfy
`follows`; the reader then goes on with those bytes as if they stood alone. -/
def LexesTo (b : Bytes) (ls : List Lexeme) (follows : Bytes → Prop) : Prop :=
  ∀ tail pos, follows tail → ∃ ts pos', ts.map Token.lexeme = ls ∧
    tokens (b ++ tail) pos = Stream.prepend ts (tokens tail pos')

theorem LexesTo.mono {b : Bytes} {ls : List Lexeme} {F G : Bytes → Prop} (h : LexesTo b ls F)
    (hGF : ∀ tail, G tail → F tail) : LexesTo b ls G :=
  fun tail pos hG => h tail pos (hGF tail hG)

/-- Two pieces read one after the other, when the second may follow the first. -/
theorem LexesTo.append {b₁ b₂ : Bytes} {l₁ l₂ : List Lexeme} {F₁ F₂ : Bytes → Prop}
    (h₁ : LexesTo b₁ l₁ F₁) (h₂ : LexesTo b₂ l₂ F₂)
    (hF : ∀ tail, F₂ tail → F₁ (b₂ ++ tail)) :
    LexesTo (b₁ ++ b₂) (l₁ ++ l₂) F₂ := by
  intro tail pos htail
  obtain ⟨ts₁, pos₁, hts₁, h₁⟩ := h₁ (b₂ ++ tail) pos (hF tail htail)
  obtain ⟨ts₂, pos₂, hts₂, h₂⟩ := h₂ tail pos₁ htail
  refine ⟨ts₁ ++ ts₂, pos₂, by simp [hts₁, hts₂], ?_⟩
  rw [List.append_assoc, h₁, h₂, Stream.prepend_append]

theorem lexesTo_nil (F : Bytes → Prop) : LexesTo [] [] F :=
  fun _ pos _ => ⟨[], pos, rfl, rfl⟩

/-! ### Classes of bytes -/

/-- Bytes that start a two-byte operator. -/
def opStart (b : UInt8) : Bool :=
  b = byte '&' ∨ b = byte '|' ∨ b = byte '=' ∨ b = byte '!' ∨ b = byte '<' ∨ b = byte '>'

theorem isNameStart_iff (b : UInt8) : isNameStart b = true ↔
    b.toNat = 95 ∨ b.toNat = 36 ∨ (97 ≤ b.toNat ∧ b.toNat ≤ 122) ∨
      (65 ≤ b.toNat ∧ b.toNat ≤ 90) := by
  simp [isNameStart, UInt8.le_iff_toNat_le, ← UInt8.toNat_inj, Bytes.ofChar]

theorem isDigit_iff (b : UInt8) : isDigit b = true ↔ 48 ≤ b.toNat ∧ b.toNat ≤ 57 := by
  simp [isDigit, UInt8.le_iff_toNat_le, Bytes.ofChar]

theorem isNameChar_iff (b : UInt8) : isNameChar b = true ↔
    isNameStart b = true ∨ isDigit b = true ∨ b.toNat = 46 := by
  simp [isNameChar, ← UInt8.toNat_inj, Bytes.ofChar]

theorem isBlank_iff (b : UInt8) : isBlank b = true ↔
    b.toNat = 32 ∨ b.toNat = 9 ∨ b.toNat = 10 ∨ b.toNat = 13 := by
  simp [isBlank, ← UInt8.toNat_inj, Bytes.ofChar]

theorem opStart_iff (b : UInt8) : opStart b = true ↔
    b.toNat = 38 ∨ b.toNat = 124 ∨ b.toNat = 61 ∨ b.toNat = 33 ∨ b.toNat = 60 ∨
      b.toNat = 62 := by
  simp [opStart, ← UInt8.toNat_inj, Bytes.ofChar]

/-- Only brackets, commas, colons and operator marks are one-byte tokens. -/
theorem oneByteKind_eq_none {b : UInt8}
    (h : b.toNat ∉ [33, 37, 40, 41, 42, 43, 44, 45, 47, 58, 60, 62]) : oneByteKind b = none := by
  simp only [oneByteKind]
  -- each test compares `b` with one mark, and `h` rules every mark out
  repeat rw [if_neg (fun he => h (by rw [he]; decide))]

theorem twoByteKind_of_opStart {b : UInt8} (h : opStart b = false) (c : UInt8) :
    twoByteKind b c = none := by
  simp only [opStart, decide_eq_false_iff_not, not_or] at h
  simp [twoByteKind, h]

theorem token_of_opStart {b : UInt8} (h : opStart b = false) (rest : Bytes) (pos : Nat) :
    token b rest pos = tokenOne b rest pos := by
  cases rest <;> simp [token, twoByteKind_of_opStart h]

theorem ne_of_toNat_ne {b c : UInt8} (h : b.toNat ≠ c.toNat) : b ≠ c :=
  fun he => h (by rw [he])

/-- A byte that starts a name or a number is nothing else the reader looks for. -/
theorem wordStart_facts {b : UInt8} (h : isNameStart b = true ∨ isDigit b = true) :
    isBlank b = false ∧ oneByteKind b = none ∧ opStart b = false ∧ b ≠ byte '"' ∧
      b ≠ byte '\'' ∧ b.toNat < 128 := by
  rw [isNameStart_iff, isDigit_iff] at h
  have hq1 : b.toNat ≠ (byte '"').toNat := by rw [show (byte '"').toNat = 34 from rfl]; omega
  have hq2 : b.toNat ≠ (byte '\'').toNat := by rw [show (byte '\'').toNat = 39 from rfl]; omega
  have hone : oneByteKind b = none := by
    apply oneByteKind_eq_none
    simp only [List.mem_cons, List.not_mem_nil, or_false]
    omega
  refine ⟨?_, hone, ?_, ne_of_toNat_ne hq1, ne_of_toNat_ne hq2, by omega⟩
  · rw [← Bool.not_eq_true, isBlank_iff]; omega
  · rw [← Bool.not_eq_true, opStart_iff]; omega

theorem lt_of_isNameChar {b : UInt8} (h : isNameChar b = true) : b.toNat < 128 := by
  rw [isNameChar_iff, isNameStart_iff, isDigit_iff] at h
  omega

theorem isDigit_ofChar {c : Char} (h : Read.isDigit c = true) :
    isDigit (Bytes.ofChar c) = true := by
  rw [Read.isDigit_iff] at h
  simp [isDigit, UInt8.le_iff_toNat_le, Bytes.ofChar]
  omega

/-! ### Texts of ASCII bytes -/

theorem ofString_asciiText {bs : Bytes} (h : ∀ b ∈ bs, b.toNat < 128) :
    Bytes.ofString (asciiText bs) = bs := by
  have hascii : ∀ c ∈ bs.map Bytes.latin1, c.toNat < 128 := by
    simp only [List.mem_map]
    rintro c ⟨b, hb, rfl⟩
    rw [Bytes.toNat_latin1 (h b hb)]
    exact h b hb
  rw [asciiText, Base64.ofString_ofList_ascii hascii, List.map_map]
  exact (List.map_congr_left fun b hb => Bytes.ofChar_latin1 (h b hb)).trans (List.map_id _)

theorem asciiText_map_ofChar {cs : List Char} (h : ∀ c ∈ cs, c.toNat < 128) :
    asciiText (cs.map Bytes.ofChar) = String.ofList cs := by
  rw [asciiText, List.map_map]
  congr 1
  exact (List.map_congr_left fun c hc => Bytes.latin1_ofChar (h c hc)).trans (List.map_id _)

/-! ### Reading one token -/

theorem tokens_cons_blank {b : UInt8} (hb : isBlank b = true) (rest : Bytes) (pos : Nat) :
    tokens (b :: rest) pos = tokens rest (pos + 1) := by
  rw [tokens.eq_def]
  simp [hb]

theorem tokens_cons_token {b : UInt8} (hb : isBlank b = false) {rest : Bytes} {pos : Nat}
    {t : Token} {r : Bytes} {hr : r.length ≤ rest.length}
    (h : token b rest pos = .ok (t, ⟨r, hr⟩)) :
    tokens (b :: rest) pos = .cons t (tokens r (pos + 1 + (rest.length - r.length))) := by
  rw [tokens.eq_def]
  simp [hb, h]

/-- A piece that the reader takes as one token, in front of what may follow it. -/
theorem lexesTo_token {b : UInt8} {body : Bytes} {k : TokenKind} {text : String}
    {F : Bytes → Prop} (hb : isBlank b = false)
    (h : ∀ tail pos, F tail →
      ∃ hr, token b (body ++ tail) pos = .ok (⟨k, text, pos⟩, ⟨tail, hr⟩)) :
    LexesTo (b :: body) [(k, text)] F := by
  intro tail pos htail
  obtain ⟨hr, htok⟩ := h tail pos htail
  exact ⟨[⟨k, text, pos⟩], _, rfl, by rw [List.cons_append, tokens_cons_token hb htok]; rfl⟩

/-- A blank is skipped. -/
theorem lexesTo_blank {b : UInt8} (hb : isBlank b = true) (F : Bytes → Prop) :
    LexesTo [b] [] F :=
  fun _ pos _ => ⟨[], pos + 1, rfl, by simp [tokens_cons_blank hb]⟩

/-- A two-byte operator. -/
theorem lexesTo_twoByte {b c : UInt8} {k : TokenKind} (hb : isBlank b = false)
    (h : twoByteKind b c = some k) (F : Bytes → Prop) :
    LexesTo [b, c] [(k, asciiText [b, c])] F :=
  lexesTo_token hb fun _ _ _ => ⟨by simp, by simp [token, h]⟩

/-- A one-byte token, when the next byte does not make a two-byte operator with it. -/
theorem lexesTo_oneByte {b : UInt8} {k : TokenKind} (hb : isBlank b = false)
    (h : oneByteKind b = some k) :
    LexesTo [b] [(k, asciiText [b])] (fun tail => ∀ c ∈ tail.head?, twoByteKind b c = none) := by
  refine lexesTo_token hb fun tail pos htail => ⟨Nat.le_refl _, ?_⟩
  have hone : tokenOne b tail pos = .ok (⟨k, asciiText [b], pos⟩, ⟨tail, Nat.le_refl _⟩) := by
    simp [tokenOne, h]
  cases tail with
  | nil => simpa [token] using hone
  | cons c rest =>
    have hc : twoByteKind b c = none := htail c rfl
    simpa [token, hc] using hone

/-! ### Names -/

/-- What may follow a name or a number: a byte that cannot continue a name. -/
def NameStop (tail : Bytes) : Prop := ∀ c ∈ tail.head?, isNameChar c = false

/-- Bytes that read as one name: a name start, then name bytes. -/
def NameBytes : Bytes → Prop
  | [] => False
  | b :: body => isNameStart b = true ∧ ∀ x ∈ body, isNameChar x = true

theorem NameBytes.lt {bs : Bytes} (h : NameBytes bs) : ∀ b ∈ bs, b.toNat < 128 := by
  cases bs with
  | nil => exact h.elim
  | cons b body =>
    intro x hx
    rcases List.mem_cons.1 hx with rfl | hx
    · exact (wordStart_facts (Or.inl h.1)).2.2.2.2.2
    · exact lt_of_isNameChar (h.2 x hx)

/-- A name, before a byte that cannot continue it. -/
theorem lexesTo_name {bs : Bytes} (hbs : NameBytes bs) :
    LexesTo bs [(nameKind (asciiText bs), asciiText bs)] NameStop := by
  cases bs with
  | nil => exact hbs.elim
  | cons b body =>
    obtain ⟨hb, hbody⟩ := hbs
    obtain ⟨hblank, hone, hop, hq1, hq2, -⟩ := wordStart_facts (Or.inl hb)
    have hnd : isDigit b = false := by
      rw [isNameStart_iff] at hb
      rw [← Bool.not_eq_true, isDigit_iff]; omega
    refine lexesTo_token hblank fun tail pos htail => ⟨by simp, ?_⟩
    -- the name takes exactly its own bytes
    have hwhile : (body ++ tail).takeWhile isNameChar = body := by
      rw [List.takeWhile_append_of_pos hbody]
      cases tail with
      | nil => simp
      | cons c r => simp [htail c rfl]
    rw [token_of_opStart hop]
    simp [tokenOne, hone, hq1, hq2, hnd, hb, hwhile]

/-! ### Numbers, stage by stage -/

theorem digits_run {ds : List Char} (hds : ∀ c ∈ ds, Read.isDigit c = true) {r : Bytes}
    (hr : ∀ c ∈ r.head?, isDigit c = false) :
    ((ds.map Bytes.ofChar ++ r).takeWhile isDigit).length = ds.length := by
  rw [List.takeWhile_append_of_pos (by simpa using fun c hc => isDigit_ofChar (hds c hc))]
  cases r with
  | nil => simp
  | cons c r =>
    have hc : isDigit c = false := hr c rfl
    simp [hc]

/-- How many digits stand at offset `n`. -/
def digitsAt (s : Bytes) (n : Nat) : Nat := ((s.drop n).takeWhile isDigit).length

/-- The end of a number's optional fraction, from the end `i1` of its whole digits. -/
def fractionEnd (s : Bytes) (start i1 : Nat) : Except SyntaxError (Nat × Bool) :=
  if (s.drop i1).head? = some (byte '.') then
    match (s.drop (i1 + 1)).head? with
    | some d => if isDigit d then .ok (i1 + 1 + digitsAt s (i1 + 1), true)
      else .error (.malformedNumber start (asciiText (s.take (i1 + 1))))
    | none => .error (.malformedNumber start (asciiText (s.take (i1 + 1))))
  else .ok (i1, false)

/-- The end of a number's optional exponent, from the end `i2` of its fraction. -/
def exponentEnd (s : Bytes) (start i2 : Nat) (isFloat : Bool) :
    Except SyntaxError (Nat × Bool) :=
  if (s.drop i2).head? = some (byte 'e') ∨ (s.drop i2).head? = some (byte 'E') then
    let j := if (s.drop (i2 + 1)).head? = some (byte '+') ∨
        (s.drop (i2 + 1)).head? = some (byte '-') then i2 + 2 else i2 + 1
    match (s.drop j).head? with
    | some d => if isDigit d then .ok (j + digitsAt s j, true)
      else .error (.malformedNumber start (asciiText (s.take j)))
    | none => .error (.malformedNumber start (asciiText (s.take j)))
  else .ok (i2, isFloat)

/-- A number ending at `n`, provided no name runs into it. -/
def numberEnd (s : Bytes) (start n : Nat) (isFloat : Bool) :
    Except SyntaxError (TokenKind × String × Nat) :=
  match (s.drop n).head? with
  | some c => if isNameStart c then .error (.malformedNumber start (asciiText (s.take (n + 1))))
    else .ok (if isFloat then .float else .int, asciiText (s.take n), n)
  | none => .ok (if isFloat then .float else .int, asciiText (s.take n), n)

/-- The reader of numbers, as its three stages. -/
theorem number_eq (s : Bytes) (start : Nat) :
    number s start =
      match fractionEnd s start (digitsAt s 0) with
      | .error e => .error e
      | .ok (i2, isFloat) =>
        match exponentEnd s start i2 isFloat with
        | .error e => .error e
        | .ok (n, isFloat) => numberEnd s start n isFloat := rfl

theorem digitsAt_eq {s : Bytes} {n : Nat} {ds : List Char} {r : Bytes}
    (hs : s.drop n = ds.map Bytes.ofChar ++ r) (hds : ∀ c ∈ ds, Read.isDigit c = true)
    (hr : ∀ c ∈ r.head?, isDigit c = false) : digitsAt s n = ds.length := by
  rw [digitsAt, hs, digits_run hds hr]

theorem drop_succ_of_drop {s r : Bytes} {n : Nat} {b : UInt8} (hs : s.drop n = b :: r) :
    s.drop (n + 1) = r := by
  rw [← List.drop_drop, hs, List.drop_one, List.tail_cons]

open Numeral

/-- The fraction of a numeral is read to its end. -/
theorem fractionEnd_chars {s : Bytes} {start i : Nat} {F : Option (List Char)} {r : Bytes}
    (hs : s.drop i = (fractionChars F).map Bytes.ofChar ++ r) (hF : ∀ fd ∈ F, IsDigits fd)
    (hr : ∀ c ∈ r.head?, isDigit c = false ∧ c ≠ byte '.') :
    fractionEnd s start i = .ok (i + (fractionChars F).length, F.isSome) := by
  cases F with
  | none =>
    have hdot : (s.drop i).head? ≠ some (byte '.') := by
      rw [hs]
      intro h
      exact (hr _ (by simpa [fractionChars] using h)).2 rfl
    rw [fractionEnd, if_neg hdot]
    rfl
  | some fd =>
    obtain ⟨hfd0, hfd⟩ := hF fd rfl
    obtain ⟨f, fd, rfl⟩ := List.exists_cons_of_ne_nil hfd0
    -- the point, then the digits
    have h1 : s.drop (i + 1) = (f :: fd).map Bytes.ofChar ++ r :=
      drop_succ_of_drop (by simpa [fractionChars] using hs)
    have hf : isDigit (Bytes.ofChar f) = true := isDigit_ofChar (hfd f (by simp))
    have hdig := digitsAt_eq h1 hfd (fun c hc => (hr c hc).1)
    simp [fractionEnd, hs, fractionChars, h1, hf, hdig]
    omega

/-- The exponent of a numeral is read to its end. -/
theorem exponentEnd_chars {s : Bytes} {start i : Nat} {isFloat : Bool}
    {E : Option (Bool × List Char)} {r : Bytes}
    (hs : s.drop i = (exponentChars E).map Bytes.ofChar ++ r) (hE : ∀ e ∈ E, IsDigits e.2)
    (hr : ∀ c ∈ r.head?, isDigit c = false ∧ c ≠ byte 'e' ∧ c ≠ byte 'E') :
    exponentEnd s start i isFloat = .ok (i + (exponentChars E).length, isFloat || E.isSome) := by
  cases E with
  | none =>
    have he : ¬((s.drop i).head? = some (byte 'e') ∨ (s.drop i).head? = some (byte 'E')) := by
      rw [hs]
      rintro (h | h)
      · exact (hr _ (by simpa [exponentChars] using h)).2.1 rfl
      · exact (hr _ (by simpa [exponentChars] using h)).2.2 rfl
    rw [exponentEnd, if_neg he]
    simp [exponentChars]
  | some e =>
    obtain ⟨negative, ed⟩ := e
    obtain ⟨hed0, hed⟩ := hE _ rfl
    obtain ⟨x, ed, rfl⟩ := List.exists_cons_of_ne_nil hed0
    -- the `e`, the sign, then the digits
    have h1 : s.drop (i + 1) = Bytes.ofChar (if negative then '-' else '+') ::
        ((x :: ed).map Bytes.ofChar ++ r) := drop_succ_of_drop (by simpa [exponentChars] using hs)
    have h2 : s.drop (i + 2) = (x :: ed).map Bytes.ofChar ++ r := drop_succ_of_drop h1
    have hsign : (s.drop (i + 1)).head? = some (byte '+') ∨
        (s.drop (i + 1)).head? = some (byte '-') := by
      cases negative <;> simp [h1]
    have hx : isDigit (Bytes.ofChar x) = true := isDigit_ofChar (hed x (by simp))
    have hdig := digitsAt_eq h2 hed (fun c hc => (hr c hc).1)
    have he : ((exponentChars (some (negative, x :: ed))).map Bytes.ofChar ++ r).head? =
        some (byte 'e') := rfl
    rw [exponentEnd, hs, if_pos (Or.inl he), if_pos hsign]
    simp only [h2, List.map_cons, List.cons_append, List.head?_cons, hx, if_true, hdig]
    simp [exponentChars]
    omega

/-- A number followed by no name ends where its digits end. -/
theorem numberEnd_eq {s : Bytes} {start n : Nat} {isFloat : Bool} {r : Bytes}
    (hs : s.drop n = r) (hr : ∀ c ∈ r.head?, isNameStart c = false) :
    numberEnd s start n isFloat =
      .ok (if isFloat then .float else .int, asciiText (s.take n), n) := by
  unfold numberEnd
  rw [hs]
  cases r with
  | nil => rfl
  | cons c r => simp [hr c rfl]

/-- A numeral followed by no name byte reads as one number. -/
theorem number_numeral {n : Numeral} (hn : n.WellFormed) {tail : Bytes}
    (htail : NameStop tail) (start : Nat) :
    number (n.chars.map Bytes.ofChar ++ tail) start =
      .ok (n.kind, asciiText (n.chars.map Bytes.ofChar), n.chars.length) := by
  obtain ⟨⟨-, hW⟩, hF, hE⟩ := hn
  -- what may follow each part of the numeral
  have hstop : ∀ c ∈ tail.head?, isDigit c = false ∧ c ≠ byte '.' ∧ c ≠ byte 'e' ∧
      c ≠ byte 'E' ∧ isNameStart c = false := by
    intro c hc
    have h := htail c hc
    simp only [isNameChar, decide_eq_false_iff_not, not_or, Bool.not_eq_true] at h
    obtain ⟨hs, hd, hdot⟩ := h
    refine ⟨hd, hdot, ?_, ?_, hs⟩ <;> rintro rfl <;> revert hs <;> decide
  have hafterF : ∀ c ∈ ((exponentChars n.exponent).map Bytes.ofChar ++ tail).head?,
      isDigit c = false ∧ c ≠ byte '.' := by
    cases n.exponent with
    | none => simpa [exponentChars] using fun c hc => ⟨(hstop c hc).1, (hstop c hc).2.1⟩
    | some e => simp [exponentChars]; decide
  have hafterW : ∀ c ∈ ((fractionChars n.fraction).map Bytes.ofChar ++
      ((exponentChars n.exponent).map Bytes.ofChar ++ tail)).head?, isDigit c = false := by
    cases n.fraction with
    | none => simpa [fractionChars] using fun c hc => (hafterF c hc).1
    | some e => simp [fractionChars]; decide
  -- the numeral's parts, as the reader meets them
  have hsplit : n.chars.map Bytes.ofChar ++ tail = n.whole.map Bytes.ofChar ++
      ((fractionChars n.fraction).map Bytes.ofChar ++
        ((exponentChars n.exponent).map Bytes.ofChar ++ tail)) := by
    simp [chars]
  have h0 : (n.chars.map Bytes.ofChar ++ tail).drop 0 = n.whole.map Bytes.ofChar ++
      ((fractionChars n.fraction).map Bytes.ofChar ++
        ((exponentChars n.exponent).map Bytes.ofChar ++ tail)) := by
    rw [List.drop_zero, hsplit]
  have h1 : (n.chars.map Bytes.ofChar ++ tail).drop n.whole.length =
      (fractionChars n.fraction).map Bytes.ofChar ++
        ((exponentChars n.exponent).map Bytes.ofChar ++ tail) := by
    rw [hsplit, List.drop_left' (by simp)]
  have h2 : (n.chars.map Bytes.ofChar ++ tail).drop
      (n.whole.length + (fractionChars n.fraction).length) =
      (exponentChars n.exponent).map Bytes.ofChar ++ tail := by
    rw [hsplit, ← List.append_assoc, List.drop_left' (by simp)]
  have h3 : (n.chars.map Bytes.ofChar ++ tail).drop (n.whole.length +
      (fractionChars n.fraction).length + (exponentChars n.exponent).length) = tail := by
    rw [hsplit, ← List.append_assoc, ← List.append_assoc, List.drop_left' (by simp; omega)]
  have hlen : n.whole.length + (fractionChars n.fraction).length +
      (exponentChars n.exponent).length = n.chars.length := by
    simp [chars]; omega
  rw [number_eq, digitsAt_eq h0 hW hafterW, fractionEnd_chars h1 hF hafterF]
  simp only
  rw [exponentEnd_chars h2 (fun e he => (hE e he).1)
    (fun c hc => ⟨(hstop c hc).1, (hstop c hc).2.2.1, (hstop c hc).2.2.2.1⟩)]
  simp only
  rw [numberEnd_eq h3 (fun c hc => (hstop c hc).2.2.2.2), hlen, List.take_left' (by simp)]
  simp [Numeral.kind]

/-- A numeral, before a byte that cannot continue a name, reads as one number token. -/
theorem lexesTo_numeral {n : Numeral} (hn : n.WellFormed) :
    LexesTo (Bytes.ofString (String.ofList n.chars)) [(n.kind, String.ofList n.chars)]
      NameStop := by
  have hascii : ∀ c ∈ n.chars, c.toNat < 128 := by
    intro c hc
    rcases mem_chars hn hc with hd | rfl | rfl | rfl | rfl
    · rw [Read.isDigit_iff] at hd; omega
    all_goals decide
  rw [Base64.ofString_ofList_ascii hascii]
  obtain ⟨c, cs, hcs⟩ : ∃ c cs, n.chars = c :: cs := by
    obtain ⟨⟨hw0, -⟩, -, -⟩ := hn
    obtain ⟨c, w, hw⟩ := List.exists_cons_of_ne_nil hw0
    exact ⟨c, w ++ fractionChars n.fraction ++ exponentChars n.exponent, by simp [chars, hw]⟩
  have hc : isDigit (Bytes.ofChar c) = true := by
    obtain ⟨⟨hw0, hw⟩, -, -⟩ := hn
    obtain ⟨c', w, hw'⟩ := List.exists_cons_of_ne_nil hw0
    have : c = c' := (by simpa [chars, hw'] using hcs : c' = c ∧ _).1.symm
    exact isDigit_ofChar (hw c (by simp [hw', this]))
  obtain ⟨hblank, hone, hop, hq1, hq2, -⟩ := wordStart_facts (Or.inr hc)
  have htext := asciiText_map_ofChar hascii
  rw [hcs, List.map_cons] at htext
  rw [hcs]
  refine lexesTo_token hblank fun tail pos htail => ⟨by simp, ?_⟩
  have hnum := number_numeral hn htail pos
  rw [hcs, List.map_cons, List.cons_append, htext] at hnum
  rw [token_of_opStart hop]
  simp [tokenOne, hone, hq1, hq2, hc, hnum]

/-! ### Strings -/

/-- What reading a string body gives: its value and the bytes after the closing quote. -/
def bodyValue (quote : UInt8) (start : Nat) (rest : Bytes) (pos : Nat) (acc : Bytes) :
    Option (Bytes × Bytes) :=
  match stringBody quote start rest pos acc with
  | .ok (v, r) => some (v, r.1)
  | .error _ => none

theorem bodyValue_quote (q : UInt8) (start : Nat) (rest : Bytes) (pos : Nat) (acc : Bytes) :
    bodyValue q start (q :: rest) pos acc = some (acc.reverse, rest) := by
  simp [bodyValue, stringBody.eq_def]

theorem bodyValue_plain {q b : UInt8} (hq : b ≠ q) (hb : b ≠ byte '\\') (start : Nat)
    (rest : Bytes) (pos : Nat) (acc : Bytes) :
    bodyValue q start (b :: rest) pos acc = bodyValue q start rest (pos + 1) (b :: acc) := by
  unfold bodyValue
  rw [stringBody.eq_def]
  simp only [if_neg hq, if_neg hb]
  rcases stringBody q start rest (pos + 1) (b :: acc) with _ | ⟨v, r, hr⟩ <;> rfl

theorem bodyValue_escape {q e : UInt8} {v : Bytes} (hq : byte '\\' ≠ q)
    (he : escapeValue e = some v) (start : Nat) (rest : Bytes) (pos : Nat) (acc : Bytes) :
    bodyValue q start (byte '\\' :: e :: rest) pos acc =
      bodyValue q start rest (pos + 2) (v.reverse ++ acc) := by
  unfold bodyValue
  rw [stringBody.eq_def]
  simp only [if_neg hq, he]
  rcases stringBody q start rest (pos + 2) (v.reverse ++ acc) with _ | ⟨v, r, hr⟩ <;> rfl

/-- Bytes that are neither the quote nor a backslash are taken as they are. -/
theorem bodyValue_plains {q : UInt8} {bs : Bytes} (hbs : ∀ b ∈ bs, b ≠ q ∧ b ≠ byte '\\')
    (start : Nat) (rest : Bytes) (pos : Nat) (acc : Bytes) :
    bodyValue q start (bs ++ rest) pos acc =
      bodyValue q start rest (pos + bs.length) (bs.reverse ++ acc) := by
  induction bs generalizing pos acc with
  | nil => rfl
  | cons b bs ih =>
    obtain ⟨hq, hb⟩ := hbs b List.mem_cons_self
    rw [List.cons_append, bodyValue_plain hq hb,
      ih (fun x hx => hbs x (List.mem_cons_of_mem b hx))]
    simp [Nat.add_assoc, Nat.add_comm 1]

theorem utf8EncodeChar_ge {c : Char} (hc : 128 ≤ c.toNat) :
    ∀ b ∈ String.utf8EncodeChar c, 128 ≤ b.toNat := by
  have hv : c.val.toNat = c.toNat := rfl
  unfold String.utf8EncodeChar
  simp only [hv]
  split_ifs <;> simp <;> omega

/-- The bytes of a character other than the quote and the backslash are neither. -/
theorem utf8EncodeChar_plain {c : Char} (h1 : c ≠ '\'') (h2 : c ≠ '\\') :
    ∀ b ∈ String.utf8EncodeChar c, b ≠ byte '\'' ∧ b ≠ byte '\\' := by
  by_cases hc : c.toNat < 128
  · -- an ASCII character is its own byte
    have henc : String.utf8EncodeChar c = [Bytes.ofChar c] := by
      unfold String.utf8EncodeChar Bytes.ofChar
      rw [if_pos (by rw [← Char.toNat_val] at hc; omega)]
      rfl
    have hne : ∀ d : Char, d.toNat < 128 → c ≠ d → Bytes.ofChar c ≠ Bytes.ofChar d := by
      intro d hd hcd he
      apply hcd
      have := congrArg UInt8.toNat he
      simp [Bytes.ofChar] at this
      exact Char.toNat_inj.1 (by omega)
    simp only [henc, List.mem_singleton]
    rintro b rfl
    exact ⟨hne _ (by decide) h1, hne _ (by decide) h2⟩
  · -- the bytes of any other character are all above the ASCII range
    intro b hb
    have := utf8EncodeChar_ge (by omega) b hb
    constructor <;> intro he <;> rw [he] at this <;> revert this <;> decide

/-- One character as the printer escapes it reads back as the character's own bytes. -/
theorem bodyValue_escapeChar (c : Char) (start : Nat) (rest : Bytes) (pos : Nat)
    (acc : Bytes) :
    bodyValue (byte '\'') start ((Literal.escapeChar c).flatMap String.utf8EncodeChar ++ rest)
        pos acc =
      bodyValue (byte '\'') start rest
        (pos + ((Literal.escapeChar c).flatMap String.utf8EncodeChar).length)
        ((String.utf8EncodeChar c).reverse ++ acc) := by
  unfold Literal.escapeChar
  split
  · exact bodyValue_escape (by decide) (by decide) _ _ _ _
  · exact bodyValue_escape (by decide) (by decide) _ _ _ _
  · exact bodyValue_escape (by decide) (by decide) _ _ _ _
  · exact bodyValue_escape (by decide) (by decide) _ _ _ _
  · exact bodyValue_escape (by decide) (by decide) _ _ _ _
  · rename_i h1 h2 h3 h4 h5
    split_ifs with h0
    · -- NUL is written as a backslash and a zero
      have hc : c = Char.ofNat 0 := Char.toNat_inj.1 (by simp [h0])
      subst hc
      exact bodyValue_escape (by decide) (by decide) _ _ _ _
    · simp only [List.flatMap_cons, List.flatMap_nil, List.append_nil]
      exact bodyValue_plains (utf8EncodeChar_plain h2 h1) _ _ _ _

/-- An escaped text up to the closing quote reads back as the text's bytes. -/
theorem bodyValue_escaped (cs : List Char) (start : Nat) (tail : Bytes) (pos : Nat)
    (acc : Bytes) :
    bodyValue (byte '\'') start
        ((cs.flatMap Literal.escapeChar).flatMap String.utf8EncodeChar ++ byte '\'' :: tail)
        pos acc =
      some (((cs.flatMap String.utf8EncodeChar).reverse ++ acc).reverse, tail) := by
  induction cs generalizing pos acc with
  | nil => simp [bodyValue_quote]
  | cons c cs ih =>
    rw [List.flatMap_cons, List.flatMap_append, List.append_assoc, bodyValue_escapeChar, ih]
    simp

/-- A string as the printer quotes it reads as one string token holding the string. -/
theorem lexesTo_quote (s : String) :
    LexesTo (Bytes.ofString (Literal.quote s)) [(.str, s)] (fun _ => True) := by
  have henc : Bytes.ofString (Literal.quote s) = byte '\'' ::
      ((s.toList.flatMap Literal.escapeChar).flatMap String.utf8EncodeChar ++ [byte '\'']) := by
    rw [Literal.quote, Bytes.ofString_ofList]
    simp only [List.flatMap_cons, List.flatMap_append, List.flatMap_nil, List.append_nil]
    rfl
  rw [henc]
  refine lexesTo_token (by decide) fun tail pos _ => ?_
  have hbody := bodyValue_escaped s.toList pos tail (pos + 1) []
  rw [List.append_nil, List.append_assoc, List.singleton_append] at *
  unfold bodyValue at hbody
  split at hbody
  · rename_i v r hs
    simp only [Option.some.injEq, Prod.mk.injEq] at hbody
    obtain ⟨rfl, hr⟩ := hbody
    obtain ⟨r, hr'⟩ := r
    simp only at hr
    subst hr
    refine ⟨hr', ?_⟩
    rw [token_of_opStart (by decide)]
    have hone : oneByteKind (byte '\'') = none := by decide
    simp [tokenOne, hone, hs, ← Bytes.ofString_eq]
  · simp at hbody

end Lexer

end Query

end EdgeQuery
