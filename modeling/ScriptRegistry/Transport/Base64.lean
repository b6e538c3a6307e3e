/-
ScriptRegistry/Transport/Base64.lean

Base64 with the standard alphabet and canonical padding.

Three bytes make four symbols.  The last group of an encoding may stand for one
or two bytes: then its unused bits are zero and `=` fills it up to four
characters.  `decode` accepts nothing else, so every list of bytes has exactly
one encoding.  A refusal names the first thing that is wrong with the groups
taken from left to right; a single left-over character that is no symbol at all
is reported before everything else.
-/

namespace ScriptRegistry.Transport.Base64

/-- Why a text is no encoding: a byte that may not stand at its place, a last symbol whose unused
bits are not zero, a group of a single symbol, or a group that is not filled up. -/
inductive Fault
  | symbol (byte : UInt8) (offset : Nat)
  | lastSymbol (byte : UInt8) (offset : Nat)
  | length (n : Nat)
  | padding
  deriving DecidableEq, Repr

/-- The message of a refusal. -/
def Fault.message : Fault → String
  | .symbol byte offset => s!"Invalid symbol {byte.toNat}, offset {offset}."
  | .lastSymbol byte offset => s!"Invalid last symbol {byte.toNat}, offset {offset}."
  | .length n => s!"Invalid input length: {n}"
  | .padding => "Invalid padding"

/-- The symbol of a number below 64. -/
def symbol (n : Nat) : UInt8 :=
  if n < 26 then (65 + n).toUInt8
  else if n < 52 then (97 + (n - 26)).toUInt8
  else if n < 62 then (48 + (n - 52)).toUInt8
  else if n = 62 then 43
  else 47

/-- The number of a symbol. -/
def value? (b : UInt8) : Option Nat :=
  if 65 ≤ b && b ≤ 90 then some (b.toNat - 65)
  else if 97 ≤ b && b ≤ 122 then some (b.toNat - 97 + 26)
  else if 48 ≤ b && b ≤ 57 then some (b.toNat - 48 + 52)
  else if b = 43 then some 62
  else if b = 47 then some 63
  else none

/-- The character that fills up the last group. -/
def pad : UInt8 := 61

/-- The encoding of bytes. -/
def encode : List UInt8 → List UInt8
  | [] => []
  | [a] =>
    let n := a.toNat * 16
    [symbol (n / 64), symbol (n % 64), pad, pad]
  | [a, b] =>
    let n := (a.toNat * 256 + b.toNat) * 4
    [symbol (n / 4096), symbol (n / 64 % 64), symbol (n % 64), pad]
  | a :: b :: c :: rest =>
    let n := (a.toNat * 256 + b.toNat) * 256 + c.toNat
    symbol (n / 262144) :: symbol (n / 4096 % 64) :: symbol (n / 64 % 64) :: symbol (n % 64) ::
      encode rest

/-- The number of the symbol at the given offset, or its refusal. -/
def valueAt (b : UInt8) (offset : Nat) : Except Fault Nat :=
  match value? b with
  | some n => .ok n
  | none => .error (.symbol b offset)

/-- The symbols of the last group, of which the ones in `found` and `pads` fillers have been read;
the group starts at `start`. -/
def lastSymbols (start : Nat) (found : List (UInt8 × Nat)) (pads : Nat) :
    List UInt8 → Except Fault (List (UInt8 × Nat) × Nat)
  | [] => .ok (found, pads)
  | b :: rest =>
    let place := start + found.length + pads
    if b = pad then
      if found.length + pads < 2 then .error (.symbol b place)
      else lastSymbols start found (pads + 1) rest
    else if 0 < pads then .error (.symbol pad (start + found.length))
    else do
      let n ← valueAt b place
      lastSymbols start (found ++ [(b, n)]) pads rest

/-- The bytes of the last group, of at most four characters from `start` on. -/
def decodeLast (start : Nat) (group : List UInt8) : Except Fault (List UInt8) := do
  let (found, pads) ← lastSymbols start [] 0 group
  if group.isEmpty then return []
  if found.length < 2 then throw (.length (start + found.length))
  if (found.length + pads) % 4 ≠ 0 then throw .padding
  match found with
  | [(_, n₀), (b, n₁)] =>
    if n₁ % 16 ≠ 0 then throw (.lastSymbol b (start + 1))
    return [(n₀ * 4 + n₁ / 16).toUInt8]
  | [(_, n₀), (_, n₁), (b, n₂)] =>
    if n₂ % 4 ≠ 0 then throw (.lastSymbol b (start + 2))
    let n := (n₀ * 64 + n₁) * 16 + n₂ / 4
    return [(n / 256).toUInt8, (n % 256).toUInt8]
  | [(_, n₀), (_, n₁), (_, n₂), (_, n₃)] =>
    let n := ((n₀ * 64 + n₁) * 64 + n₂) * 64 + n₃
    return [(n / 65536).toUInt8, (n / 256 % 256).toUInt8, (n % 256).toUInt8]
  | _ => return []

/-- The bytes of the groups from `start` on. -/
def decodeFrom (start : Nat) : List UInt8 → Except Fault (List UInt8)
  | a :: b :: c :: d :: e :: rest => do
    let n₀ ← valueAt a start
    let n₁ ← valueAt b (start + 1)
    let n₂ ← valueAt c (start + 2)
    let n₃ ← valueAt d (start + 3)
    let n := ((n₀ * 64 + n₁) * 64 + n₂) * 64 + n₃
    let bytes ← decodeFrom (start + 4) (e :: rest)
    return (n / 65536).toUInt8 :: (n / 256 % 256).toUInt8 :: (n % 256).toUInt8 :: bytes
  | group => decodeLast start group

/-- The left-over character of an encoding with one too many, if it is no symbol. -/
def strayEnd? (symbols : List UInt8) : Option UInt8 :=
  if symbols.length % 4 = 1 then
    symbols.getLast?.filter fun b => b != pad && (value? b).isNone
  else none

/-- The bytes that an encoding stands for. -/
def decode (symbols : List UInt8) : Except Fault (List UInt8) :=
  match strayEnd? symbols with
  | some b => .error (.symbol b (symbols.length - 1))
  | none => decodeFrom 0 symbols

end ScriptRegistry.Transport.Base64
