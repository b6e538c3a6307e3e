/-
ScriptRegistry/Artifact/Digest.lean

Content digests: what a stored text is recognised by.

A digest has 32 bytes and is written as 64 lower-case hexadecimal digits.
Reading takes two characters for every byte; upper-case digits are understood,
and a plus sign may stand in place of the first of the two.
-/
import ScriptRegistry.Artifact.Sha256
import ScriptRegistry.Text.Utf8

namespace ScriptRegistry.Artifact

/-- A digest of 32 bytes. -/
structure Digest where
  bytes : List UInt8
  length_bytes : bytes.length = 32
  deriving DecidableEq, Repr

/-- The digest of a text. -/
def Digest.ofText (text : String) : Digest :=
  ⟨(Sha256.digest (Text.encode text.toList)).bytes, rfl⟩

/-- The two hexadecimal digits of a byte. -/
def hexByte (b : UInt8) : List Char :=
  [Nat.digitChar (b.toNat / 16), Nat.digitChar (b.toNat % 16)]

/-- The digits of a digest. -/
def Digest.render (d : Digest) : String :=
  String.ofList (d.bytes.flatMap hexByte)

/-- Why a text is no digest: its length in bytes, or a character in it. -/
inductive DigestFault
  | length (bytes : Nat)
  | digit
  deriving DecidableEq, Repr

/-- The message of a refusal. -/
def DigestFault.message : DigestFault → String
  | .length bytes => s!"expected 64 hex characters, got {bytes}"
  | .digit => "invalid digit found in string"

/-- The value of a hexadecimal digit. -/
def hexValue? (c : Char) : Option Nat :=
  if '0' ≤ c && c ≤ '9' then some (c.toNat - 48)
  else if 'a' ≤ c && c ≤ 'f' then some (c.toNat - 87)
  else if 'A' ≤ c && c ≤ 'F' then some (c.toNat - 55)
  else none

/-- The byte that two characters spell. -/
def byteOfHex? (a b : Char) : Option UInt8 := do
  let high ← if a = '+' then some 0 else hexValue? a
  let low ← hexValue? b
  return (high * 16 + low).toUInt8

/-- The bytes that pairs of characters spell. -/
def bytesOfHex? : List Char → Option (List UInt8)
  | [] => some []
  | a :: b :: rest => do return (← byteOfHex? a b) :: (← bytesOfHex? rest)
  | [_] => none

/-- The digest that a text spells. -/
def Digest.ofString (text : String) : Except DigestFault Digest :=
  let cs := text.toList
  if Text.byteLength cs ≠ 64 || cs.any (fun c => 128 ≤ c.toNat) then
    .error (.length (Text.byteLength cs))
  else match bytesOfHex? cs with
    | none => .error .digit
    | some bytes => if h : bytes.length = 32 then .ok ⟨bytes, h⟩ else .error .digit

end ScriptRegistry.Artifact
