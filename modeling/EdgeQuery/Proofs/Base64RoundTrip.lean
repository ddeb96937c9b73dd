import EdgeQuery.Codec.Base64
import EdgeQuery.Proofs.MsgpackRead
/-! # URL-alphabet text read back

Reading the URL-alphabet text of bytes gives back the bytes (`decode_encode_url`). The text
is ASCII, one byte per character; decoding reads it a group at a time, four characters for
three bytes (`quantum_full`), and the last group, two or three characters for one or two
bytes, ends the text without padding (`quantum_last`). The decoding loop follows the
encoder's recursion on three-byte groups (`decode_go_encode`). -/

namespace EdgeQuery.Base64

/-! ## The alphabet -/

@[simp] theorem url_padded : url.padded = false := rfl

theorem url_value?_char {x : Nat} (hx : x < 64) : url.value? (Bytes.ofChar (url.char x)) = some x := by
  have hall : ∀ x : Fin 64, url.value? (Bytes.ofChar (url.char x)) = some x := by decide
  exact hall ⟨x, hx⟩

theorem url_char_ascii (x : Nat) : (url.char x).toNat < 128 := by
  by_cases hx : x < 64
  · have hall : ∀ x : Fin 64, (url.char x).toNat < 128 := by decide
    exact hall ⟨x, hx⟩
  · -- past the alphabet the last character stands
    have hlast : url.char x = '_' := by
      unfold Encoding.char
      rw [if_neg (by omega), if_neg (by omega), if_neg (by omega), if_neg (by omega)]
      rfl
    rw [hlast]
    decide

/-- Text of ASCII characters is one byte per character. -/
theorem ofString_ofList_ascii {cs : List Char} (h : ∀ c ∈ cs, c.toNat < 128) :
    Bytes.ofString (String.ofList cs) = cs.map Bytes.ofChar := by
  have hchars : cs.flatMap String.utf8EncodeChar = cs.map Bytes.ofChar := by
    induction cs with
    | nil => rfl
    | cons c cs ih =>
      have hc := h c List.mem_cons_self
      rw [List.flatMap_cons, List.map_cons, ih fun d hd => h d (List.mem_cons_of_mem c hd)]
      have henc : String.utf8EncodeChar c = [Bytes.ofChar c] := by
        unfold String.utf8EncodeChar Bytes.ofChar
        rw [if_pos (by rw [← Char.toNat_val] at hc; omega)]
        rfl
      rw [henc]
      rfl
  rw [← hchars]
  simp [Bytes.ofString, Bytes.byteArray_toList, List.utf8Encode]

/-! ## Groups -/

/-- The element at `si` of an array whose list from `si` on starts with `x`. -/
theorem getElem_of_drop_eq_cons {src : Array UInt8} {si : Nat} {x : UInt8} {rest : Bytes}
    (h : src.toList.drop si = x :: rest) : ∃ hi : si < src.size, src[si] = x ∧ src.toList.drop (si + 1) = rest := by
  have hi : si < src.size := by
    have := congrArg List.length h
    simp at this
    omega
  refine ⟨hi, ?_, ?_⟩
  · have := congrArg List.head? h
    rw [List.head?_drop] at this
    simp only [Array.getElem?_toList, List.head?_cons] at this
    rw [Array.getElem?_eq_getElem hi] at this
    exact Option.some.inj this
  · rw [← List.drop_drop, h]
    rfl

/-- Reading a full group of four characters. -/
theorem quantum_full {e : Encoding} {src : Array UInt8} :
    ∀ (g : Bytes) (ws vals : List Nat) (si : Nat) (post : Bytes),
      src.toList.drop si = g ++ post → g.map e.value? = ws.map some → vals.length + ws.length = 4 →
      quantum e src si vals = .ok (si + g.length, bytesOf (vals ++ ws), false)
  | [], ws, vals, si, post, _, hws, hlen => by
    have hws' : ws = [] := by simpa using hws.symm
    subst hws'
    rw [quantum, if_pos (by simpa using hlen)]
    simp
  | x :: g, ws, vals, si, post, hsrc, hws, hlen => by
    obtain ⟨w, ws', rfl, hx, hg⟩ : ∃ w ws', ws = w :: ws' ∧ e.value? x = some w ∧ g.map e.value? = ws'.map some := by
      cases ws with
      | nil => simp at hws
      | cons w ws' => simp at hws; exact ⟨w, ws', rfl, hws.1, hws.2⟩
    obtain ⟨hi, hget, hrest⟩ := getElem_of_drop_eq_cons (by simpa using hsrc)
    have ih := quantum_full g ws' (vals ++ [w]) (si + 1) post hrest hg (by simp at hlen ⊢; omega)
    rw [quantum, if_neg (by simp at hlen; omega), dif_pos hi]
    simp only [hget, hx]
    rw [ih]
    simp
    omega

/-- Reading the last group, of two or three characters, of an unpadded text. -/
theorem quantum_last {e : Encoding} {src : Array UInt8} (hpad : e.padded = false) :
    ∀ (g : Bytes) (ws vals : List Nat) (si : Nat),
      src.toList.drop si = g → g.map e.value? = ws.map some →
      2 ≤ vals.length + ws.length → vals.length + ws.length < 4 →
      quantum e src si vals = .ok (si + g.length, bytesOf (vals ++ ws), true)
  | [], ws, vals, si, hsrc, hws, hlo, hhi => by
    have hws' : ws = [] := by simpa using hws.symm
    subst hws'
    have hend : ¬ si < src.size := by
      have := congrArg List.length hsrc
      simp at this
      omega
    simp only [List.length_nil, Nat.add_zero] at hlo hhi
    rw [quantum, if_neg (by omega), dif_neg hend]
    simp only [hpad]
    rw [if_neg (by omega), if_neg (by simp; omega)]
    simp
  | x :: g, ws, vals, si, hsrc, hws, hlo, hhi => by
    obtain ⟨w, ws', rfl, hx, hg⟩ : ∃ w ws', ws = w :: ws' ∧ e.value? x = some w ∧ g.map e.value? = ws'.map some := by
      cases ws with
      | nil => simp at hws
      | cons w ws' => simp at hws; exact ⟨w, ws', rfl, hws.1, hws.2⟩
    obtain ⟨hi, hget, hrest⟩ := getElem_of_drop_eq_cons hsrc
    have ih := quantum_last hpad g ws' (vals ++ [w]) (si + 1) hrest hg (by simp at hlo ⊢; omega)
      (by simp at hhi ⊢; omega)
    rw [quantum, if_neg (by simp at hhi; omega), dif_pos hi]
    simp only [hget, hx]
    rw [ih]
    simp
    omega

/-- Three bytes are the bytes of their four six-bit values. -/
theorem bytesOf_three (a b c : UInt8) (v : Nat) (hv : v = a.toNat * 65536 + b.toNat * 256 + c.toNat) :
    bytesOf [v / 262144, v / 4096 % 64, v / 64 % 64, v % 64] = [a, b, c] := by
  have ha := a.toNat_lt
  have hb := b.toNat_lt
  have hc := c.toNat_lt
  have hsum : ((v / 262144 * 64 + v / 4096 % 64) * 64 + v / 64 % 64) * 64 + v % 64 = v := by omega
  have h1 : v / 65536 % 256 = a.toNat := by omega
  have h2 : v / 256 % 256 = b.toNat := by omega
  have h3 : v % 256 = c.toNat := by omega
  unfold bytesOf
  simp [hsum, h1, h2, h3]

/-- Two bytes are the bytes of the three six-bit values of their group. -/
theorem bytesOf_two (a b : UInt8) (v : Nat) (hv : v = a.toNat * 65536 + b.toNat * 256) :
    bytesOf [v / 262144, v / 4096 % 64, v / 64 % 64] = [a, b] := by
  have ha := a.toNat_lt
  have hb := b.toNat_lt
  have hsum : ((v / 262144 * 64 + v / 4096 % 64) * 64 + v / 64 % 64) * 64 + 0 = v := by omega
  have h1 : v / 65536 % 256 = a.toNat := by omega
  have h2 : v / 256 % 256 = b.toNat := by omega
  unfold bytesOf
  simp [hsum, h1, h2]

/-- One byte is the byte of the two six-bit values of its group. -/
theorem bytesOf_one (a : UInt8) (v : Nat) (hv : v = a.toNat * 65536) :
    bytesOf [v / 262144, v / 4096 % 64] = [a] := by
  have ha := a.toNat_lt
  have h1 : (v / 262144 * 64 + v / 4096 % 64) * 64 * 64 / 65536 % 256 = a.toNat := by omega
  unfold bytesOf
  simp [h1]

/-! ## Texts -/

/-- Decoding reads, group by group, the bytes whose text follows position `si`. -/
theorem decode_go_encode (src : Array UInt8) (data : Bytes) :
    ∀ (si fuel : Nat) (acc : Bytes), src.toList.drop si = (encode.go url data).map Bytes.ofChar →
      (encode.go url data).length < fuel → decode.go url src si fuel acc = .ok (acc ++ data) := by
  fun_induction encode.go url data with
  | case1 a b c rest v ih =>
    intro si fuel acc hsrc hfuel
    obtain ⟨fuel, rfl⟩ : ∃ f, fuel = f + 1 := ⟨fuel - 1, by simp at hfuel; omega⟩
    have hv : v < 16777216 := by
      have := a.toNat_lt; have := b.toNat_lt; have := c.toNat_lt
      omega
    have hq := quantum_full (e := url)
      [Bytes.ofChar (url.char (v / 262144)), Bytes.ofChar (url.char (v / 4096 % 64)),
        Bytes.ofChar (url.char (v / 64 % 64)), Bytes.ofChar (url.char (v % 64))]
      [v / 262144, v / 4096 % 64, v / 64 % 64, v % 64] [] si _
      (by simpa using hsrc)
      (by simp [url_value?_char (show v / 262144 < 64 by omega), url_value?_char (show v / 4096 % 64 < 64 by omega),
        url_value?_char (show v / 64 % 64 < 64 by omega), url_value?_char (show v % 64 < 64 by omega)]) rfl
    have hnext : src.toList.drop (si + 4) = (encode.go url rest).map Bytes.ofChar := by
      rw [← List.drop_drop, hsrc]
      rfl
    have hlt : si < src.size := by
      have := congrArg List.length hsrc
      simp at this
      omega
    rw [decode.go, if_neg (by omega)]
    simp only [List.nil_append, List.length_cons, List.length_nil, Nat.reduceAdd] at hq
    rw [hq, bytesOf_three a b c v rfl]
    simp only [Bool.false_eq_true, if_false]
    rw [ih (si + 4) fuel (acc ++ [a, b, c]) hnext (by simp at hfuel; omega)]
    simp
  | case2 a b v =>
    intro si fuel acc hsrc hfuel
    obtain ⟨fuel, rfl⟩ : ∃ f, fuel = f + 1 := ⟨fuel - 1, by simp at hfuel; omega⟩
    have hv : v < 16777216 := by
      have := a.toNat_lt; have := b.toNat_lt
      omega
    have hq := quantum_last (e := url) rfl
      [Bytes.ofChar (url.char (v / 262144)), Bytes.ofChar (url.char (v / 4096 % 64)),
        Bytes.ofChar (url.char (v / 64 % 64))]
      [v / 262144, v / 4096 % 64, v / 64 % 64] [] si
      (by simpa using hsrc)
      (by simp [url_value?_char (show v / 262144 < 64 by omega), url_value?_char (show v / 4096 % 64 < 64 by omega),
        url_value?_char (show v / 64 % 64 < 64 by omega)]) (by simp) (by simp)
    have hlt : si < src.size := by
      have := congrArg List.length hsrc
      simp at this
      omega
    rw [decode.go, if_neg (by omega)]
    simp only [List.nil_append] at hq
    rw [hq, bytesOf_two a b v rfl]
    simp
  | case3 a v =>
    intro si fuel acc hsrc hfuel
    obtain ⟨fuel, rfl⟩ : ∃ f, fuel = f + 1 := ⟨fuel - 1, by simp at hfuel; omega⟩
    have hv : v < 16777216 := by
      have := a.toNat_lt
      omega
    have hq := quantum_last (e := url) rfl
      [Bytes.ofChar (url.char (v / 262144)), Bytes.ofChar (url.char (v / 4096 % 64))]
      [v / 262144, v / 4096 % 64] [] si
      (by simpa using hsrc)
      (by simp [url_value?_char (show v / 262144 < 64 by omega),
        url_value?_char (show v / 4096 % 64 < 64 by omega)]) (by simp) (by simp)
    have hlt : si < src.size := by
      have := congrArg List.length hsrc
      simp at this
      omega
    rw [decode.go, if_neg (by omega)]
    simp only [List.nil_append] at hq
    rw [hq, bytesOf_one a v rfl]
    simp
  | case4 =>
    intro si fuel acc hsrc hfuel
    obtain ⟨fuel, rfl⟩ : ∃ f, fuel = f + 1 := ⟨fuel - 1, by simp at hfuel; omega⟩
    have hend : si ≥ src.size := by
      have := congrArg List.length hsrc
      simp at this
      omega
    rw [decode.go, if_pos hend]
    simp

theorem encode_go_ascii (data : Bytes) : ∀ c ∈ encode.go url data, c.toNat < 128 := by
  fun_induction encode.go url data with
  | case1 a b c rest v ih => simpa [url_char_ascii] using ih
  | case2 a b v => simp [url_char_ascii, url_padded]
  | case3 a v => simp [url_char_ascii, url_padded]
  | case4 => simp

/-- Reading the URL-alphabet text of bytes gives back the bytes. -/
theorem decode_encode_url (data : Bytes) : decode url (Bytes.ofString (encode url data)) = .ok data := by
  have htext : Bytes.ofString (encode url data) = (encode.go url data).map Bytes.ofChar :=
    ofString_ofList_ascii (encode_go_ascii data)
  unfold decode
  rw [htext, decode_go_encode _ data 0 _ [] (by simp) (by simp)]
  rfl
end EdgeQuery.Base64
