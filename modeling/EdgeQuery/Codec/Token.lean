import EdgeQuery.Report
import EdgeQuery.Codec.Base64
import EdgeQuery.Codec.Serial
/-! # Tokens

A token is a small value carried as text: its serial form, compressed, written in base64.
Stage options carry prefilters as tokens in the standard alphabet with padding; checkpoints
travel as tokens in the URL alphabet without padding. The serial form and the compression
are a `TokenCodec`; the program's are MessagePack and Zstandard, and the decompressor
refuses content over `Token.maxDecoded` bytes.

Reading a token undoes the three layers in turn, and a failure names the layer that refused
the token: the offset of the first byte that is not base64, the content that does not
decompress, or the bytes that do not read as the expected value. A value comes back from
its token when its serial form reads back and fits that limit (`TokenCodec.Carries`). -/

namespace EdgeQuery

/-- Why a token does not read: the layer that refused it. -/
inductive TokenError where
  /-- The text is not base64; the offset of the first bad byte. -/
  | base64 (offset : Nat)
  /-- The bytes do not decompress. -/
  | zstd (text : String)
  /-- The content does not read as the expected value. -/
  | msgpack (text : String)
  deriving DecidableEq, Repr

namespace TokenError

/-- The text of the failure. -/
def text : TokenError → String
  | .base64 n => "corrupt token: base64: " ++ Base64.errorText n
  | .zstd t => "corrupt token: zstd: " ++ t
  | .msgpack t => "corrupt token: msgpack: " ++ t

/-- The failure reported with context in front. -/
def report (context : String) (e : TokenError) : Report :=
  { message := context ++ e.text, causes := [.corrupt] }

end TokenError

/-- How the values of a type travel in tokens: their serial form, and the compression of
its bytes. -/
structure TokenCodec (α : Type) where
  serial : Serial α
  compression : Compression

namespace Token

/-- The most bytes a token's content may decompress to: 16 MiB. -/
def maxDecoded : Nat := 16 * 1024 * 1024

variable {α : Type}

/-- The token of a value. -/
def encode (c : TokenCodec α) (alphabet : Base64.Encoding) (a : α) : String :=
  Base64.encode alphabet (c.compression.compress (c.serial.write a))

/-- The content of a token, decompressed. -/
def unpack (z : Compression) (alphabet : Base64.Encoding) (token : String) :
    Except TokenError Bytes := do
  let compressed ← (Base64.decode alphabet (Bytes.ofString token)).mapError .base64
  (z.decompress compressed).mapError .zstd

/-- Reads a token as a value. -/
def decode (c : TokenCodec α) (alphabet : Base64.Encoding) (token : String) :
    Except TokenError α := do
  let raw ← unpack c.compression alphabet token
  (c.serial.read raw).mapError .msgpack

end Token

/-- A value travels in a token unchanged: its serial form reads back, and is no longer than
a token's content may be. -/
structure TokenCodec.Carries {α : Type} (c : TokenCodec α) (a : α) : Prop where
  readsBack : c.serial.ReadsBack a
  size : (c.serial.write a).length ≤ Token.maxDecoded

end EdgeQuery
