import EdgeQuery.Plan.Checkpoint
/-! # Reading identifiers

An identifier is read from 36 characters in groups of 8-4-4-4-12 hexadecimal digits, from
the same inside braces (38 characters, the closing brace not checked) or after `urn:uuid:`
in any letter case (45 characters), or from 32 hexadecimal digits without dashes. Any other
length is refused as such, a wrong prefix by naming it, and anything else as a bad
format. -/

namespace EdgeQuery.Plan.Uuid

/-- The value of a hexadecimal digit. -/
def hexValue? (b : UInt8) : Option Nat :=
  let n := b.toNat
  if 48 ≤ n ∧ n ≤ 57 then some (n - 48)
  else if 97 ≤ n ∧ n ≤ 102 then some (n - 87)
  else if 65 ≤ n ∧ n ≤ 70 then some (n - 55)
  else none

/-- The bytes of pairs of hexadecimal digits. -/
def pairs : Bytes → Option Bytes
  | a :: b :: rest => do
    let hi ← hexValue? a
    let lo ← hexValue? b
    return (UInt8.ofNat (hi * 16 + lo)) :: (← pairs rest)
  | [] => some []
  | [_] => none

/-- The bad format failure. -/
def badFormat : String := "invalid UUID format"

/-- Reads the 36-character form. -/
def ofDashed (b : Bytes) : Except String Uuid :=
  if b.getD 8 0 != 45 || b.getD 13 0 != 45 || b.getD 18 0 != 45 || b.getD 23 0 != 45 then .error badFormat
  else
    let digits := (b.take 8) ++ ((b.drop 9).take 4) ++ ((b.drop 14).take 4) ++ ((b.drop 19).take 4) ++
      ((b.drop 24).take 12)
    match pairs digits with
    | some bytes => .ok ⟨bytes⟩
    | none => .error badFormat

/-- Reads an identifier. -/
def parse (s : String) : Except String Uuid :=
  let b := Bytes.ofString s
  match b.length with
  | 36 => ofDashed b
  | 45 =>
    let pre := b.take 9
    if (pre.map fun c => if 65 ≤ c.toNat ∧ c.toNat ≤ 90 then c + 32 else c) == Bytes.ofString "urn:uuid:" then
      ofDashed (b.drop 9)
    else .error ("invalid urn prefix: " ++ Quote.bytes pre)
  | 38 => ofDashed (b.drop 1)
  | 32 =>
    match pairs b with
    | some bytes => .ok ⟨bytes⟩
    | none => .error badFormat
  | n => .error ("invalid UUID length: " ++ toString n)

end EdgeQuery.Plan.Uuid
