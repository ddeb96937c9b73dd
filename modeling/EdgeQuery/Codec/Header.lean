import EdgeQuery.Report
import EdgeQuery.Text.Quote
/-! # Stamped values

A stored value starts with a four-byte header: the signature `s`, a type byte saying what
kind of value follows (`c` for a checkpoint), a version byte and a flags byte. A reader
checks the header against the one it expects before it reads the rest: too few bytes, a
wrong signature, another type or another version are each refused with their own cause. -/

namespace EdgeQuery

/-- The header of a stored value. -/
structure Header where
  kind : UInt8 := 99
  version : UInt8 := 1
  flags : UInt8 := 0
  deriving DecidableEq, Inhabited, Repr

/-- Why a header does not fit. -/
inductive HeaderError where
  | tooSmall
  | signatureMismatch
  | typeMismatch (got want : UInt8)
  | versionMismatch (got want : UInt8)
  deriving DecidableEq, Repr

namespace HeaderError

/-- The failure report. -/
def report : HeaderError → Report
  | .tooSmall => { message := "header too small", causes := [.headerTooSmall] }
  | .signatureMismatch => { message := "signature mismatch", causes := [.signatureMismatch] }
  | .typeMismatch g w =>
    { message := "type mismatch: got " ++ Quote.char (Char.ofNat g.toNat) ++ ", want " ++
        Quote.char (Char.ofNat w.toNat)
      causes := [.typeMismatch] }
  | .versionMismatch g w =>
    { message := "version mismatch: got " ++ toString g.toNat ++ ", want " ++ toString w.toNat
      causes := [.versionMismatch] }

end HeaderError

namespace Header

/-- The signature byte, `s`. -/
def signature : UInt8 := 0x73

/-- The header of stored checkpoints. -/
def checkpoint : Header := {}

/-- The four header bytes. -/
def encode (h : Header) : Bytes := [signature, h.kind, h.version, h.flags]

/-- A payload with the header in front. -/
def wrap (h : Header) (payload : Bytes) : Bytes := h.encode ++ payload

/-- Reads a header. -/
def decode (b : Bytes) : Except HeaderError Header :=
  match b with
  | s :: k :: v :: f :: _ => if s == signature then .ok ⟨k, v, f⟩ else .error .signatureMismatch
  | _ => .error .tooSmall

/-- The payload after a header that must have the expected type and version. -/
def unwrap (want : Header) (b : Bytes) : Except HeaderError Bytes := do
  let h ← decode b
  if h.kind != want.kind then throw (.typeMismatch h.kind want.kind)
  if h.version != want.version then throw (.versionMismatch h.version want.version)
  return b.drop 4

theorem unwrap_wrap (h : Header) (p : Bytes) : h.unwrap (h.wrap p) = .ok p := by
  simp [unwrap, wrap, encode, decode, bind, Except.bind, pure, Except.pure]

end Header

end EdgeQuery
