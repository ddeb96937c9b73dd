import EdgeQuery.Terms.Frequencies
import EdgeQuery.Text.Utf8
import EdgeQuery.Text.Unicode.Category
import EdgeQuery.Text.Unicode.Case
/-! # Terms of a text

A term is a maximal run of letters, digits and underscores, lower-cased; its offset is
its index among the terms of the text, so consecutive offsets are adjacent words. Bytes
that are not UTF-8 separate terms. A term keeps at most `maxLen` bytes (64 by default):
characters that would go past that are left out, but the word still counts as one term. -/

namespace EdgeQuery

namespace Tokenizer

/-- The default number of bytes kept of a term. -/
def defaultMaxLen : Nat := 64

/-- Whether a character belongs to a term. The replacement character stands for bytes
that are not UTF-8, which separate terms. -/
def isTermChar (c : Char) : Bool :=
  c != Utf8.replacement && (c == '_' || Unicode.isLetter c || Unicode.isDigit c)

/-- The terms of the decoded characters `cs`, given the term being built (its bytes, or
none between words) and the offset of the next term. -/
def collect (maxLen : Nat) : List Char → Option Bytes → Nat → List (String × Nat)
  | [], current, offset =>
    match current with
    | some t => [(Bytes.toUtf8 t, offset)]
    | none => []
  | c :: rest, current, offset =>
    if isTermChar c then
      let t := current.getD []
      let enc := Utf8.encode (Unicode.toLower c)
      collect maxLen rest (some (if t.length + enc.length ≤ maxLen then t ++ enc else t)) offset
    else
      match current with
      | some t => (Bytes.toUtf8 t, offset) :: collect maxLen rest none (offset + 1)
      | none => collect maxLen rest none offset

/-- The terms of a text with their offsets; a `maxLen` of zero means the default. -/
def tokens (text : Bytes) (maxLen : Nat := defaultMaxLen) : List (String × Nat) :=
  collect (if maxLen = 0 then defaultMaxLen else maxLen) (Utf8.chars text) none 0

/-- Reads the decoded characters `cs` of a text, given the bytes of the term being built,
whether a word is being read, and the offset of the next term. Each term is handed to `fn`
with its offset when its word ends; a call that answers `false` ends the reading, and the
call for a word that ends the text is not asked to go on. -/
def iterChars {m : Type → Type} [Monad m] (maxLen : Nat) (fn : Bytes → Nat → m Bool) :
    List Char → Bytes → Bool → Nat → m Unit
  | [], current, inWord, offset =>
    if inWord then fn current offset >>= fun _ => pure () else pure ()
  | c :: rest, current, inWord, offset =>
    if isTermChar c then
      let enc := Utf8.encode (Unicode.toLower c)
      iterChars maxLen fn rest (if current.length + enc.length ≤ maxLen then current ++ enc else current)
        true offset
    else if inWord then
      fn current offset >>= fun go => if go then iterChars maxLen fn rest [] false (offset + 1) else pure ()
    else iterChars maxLen fn rest current false offset

/-- Calls `fn` on each term of a text with its offset, in order, until a call answers
`false`; a `maxLen` of zero or less means the default. The term is built in the room of
`buf`, whose bytes are dropped first. -/
def iterTokens {m : Type → Type} [Monad m] (data buf : Bytes) (maxLen : Int)
    (fn : Bytes → Nat → m Bool) : m Unit :=
  if data.isEmpty then pure ()
  else
    iterChars (if maxLen ≤ 0 then defaultMaxLen else maxLen.toNat) fn (Utf8.chars data) (buf.take 0)
      false 0

/-- Adds the terms of a text under a record to a term-frequency list, all at once: adding
merges offsets into sorted lists without repeats, so this is adding the tokens one at a
time. -/
def addFrequencies (f : Frequencies) (record : Bytes) (text : Bytes) : Frequencies :=
  f.addAll record ((tokens text).map fun (term, offset) => (term, [(offset : Int)]))

end Tokenizer

end EdgeQuery
