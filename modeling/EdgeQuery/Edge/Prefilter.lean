import EdgeQuery.Codec.Token
import EdgeQuery.Eval.Context
/-! # Prefilters

A prefilter lists, for some fields, the values an edge may have there. An edge passes when
for every listed field one of its values is among the listed ones. It is checked before
the expression, which it can only narrow: a plan derives it from equalities that every
branch of the expression requires.

In a stage option a prefilter travels as a token (standard base64 alphabet, padded); the
program's serial form of a prefilter is a MessagePack map from field names to arrays of
values. -/

namespace EdgeQuery.Edge

/-- The values allowed per field, fields in byte order, each once. -/
structure Prefilter where
  fields : List (Bytes × List Bytes) := []
  deriving DecidableEq, Inhabited, Repr

namespace Prefilter

/-- Sets the values of a field, keeping the fields in order. -/
def insert (p : Prefilter) (field : Bytes) (values : List Bytes) : Prefilter :=
  ⟨go p.fields⟩
where
  go : List (Bytes × List Bytes) → List (Bytes × List Bytes)
    | [] => [(field, values)]
    | (f, vs) :: rest =>
      match compare field f with
      | .lt => (field, values) :: (f, vs) :: rest
      | .eq => (field, values) :: rest
      | .gt => (f, vs) :: go rest

/-- Whether the prefilter lists no field. -/
def isEmpty (p : Prefilter) : Bool := p.fields.isEmpty

/-- Whether a context passes: every listed field has a value among the listed ones. -/
def allows (p : Prefilter) (ctx : Eval.Context) : Bool :=
  p.fields.all fun (field, allowed) =>
    (ctx.values field).any fun v => allowed.contains v.normalized

/-- The token of a prefilter. -/
def encode (c : TokenCodec Prefilter) (p : Prefilter) : String := Token.encode c Base64.standard p

/-- Reads the token of a prefilter. -/
def decode (c : TokenCodec Prefilter) (token : String) : Except Report Prefilter :=
  (Token.decode c Base64.standard token).mapError (TokenError.report "prefilter: ")

end Prefilter

end EdgeQuery.Edge
