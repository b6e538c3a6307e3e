/-
ScriptRegistry/Text/Utf8.lean

Texts as bytes.

`encode` writes each character by its one to four bytes.  `decode` reads bytes
back and refuses at the first sequence that no text has; the refusal says after
how many bytes of good text it happened and how many bytes are beyond repair,
or that the bytes ended inside a character.

The second byte of a sequence is held to a narrower range after some lead
bytes (`secondRange`): this excludes the overlong forms, the surrogates and
everything above the last code point, so that the bytes of a text are unique.
-/

namespace ScriptRegistry.Text

/-- Why bytes are not a text: after `valid` good bytes stand `length` bytes that begin no character,
or the bytes end inside one. -/
inductive Utf8Fault
  | invalid (valid length : Nat)
  | incomplete (valid : Nat)
  deriving DecidableEq, Repr

/-- The number of good bytes before the refusal. -/
def Utf8Fault.valid : Utf8Fault → Nat
  | .invalid valid _ => valid
  | .incomplete valid => valid

/-- The message of a refusal. -/
def Utf8Fault.message : Utf8Fault → String
  | .invalid valid length => s!"invalid utf-8 sequence of {length} bytes from index {valid}"
  | .incomplete valid => s!"incomplete utf-8 byte sequence from index {valid}"

/-- The bytes of one character. -/
def encodeChar (c : Char) : List UInt8 :=
  let n := c.toNat
  if n < 0x80 then [n.toUInt8]
  else if n < 0x800 then [(0xc0 + n / 64).toUInt8, (0x80 + n % 64).toUInt8]
  else if n < 0x10000 then
    [(0xe0 + n / 4096).toUInt8, (0x80 + n / 64 % 64).toUInt8, (0x80 + n % 64).toUInt8]
  else
    [(0xf0 + n / 262144).toUInt8, (0x80 + n / 4096 % 64).toUInt8,
      (0x80 + n / 64 % 64).toUInt8, (0x80 + n % 64).toUInt8]

/-- The bytes of a text. -/
def encode (s : List Char) : List UInt8 :=
  s.flatMap encodeChar

/-- The number of bytes of a text. -/
def byteLength (s : List Char) : Nat :=
  (encode s).length

/-- Whether a byte continues a character. -/
def isContinuation (b : UInt8) : Bool :=
  0x80 ≤ b && b < 0xc0

/-- How many bytes a character takes that starts with the given byte, if one can. -/
def sequenceLength (lead : UInt8) : Option Nat :=
  if lead < 0x80 then some 1
  else if 0xc2 ≤ lead && lead < 0xe0 then some 2
  else if 0xe0 ≤ lead && lead < 0xf0 then some 3
  else if 0xf0 ≤ lead && lead < 0xf5 then some 4
  else none

/-- Whether a byte may stand second after a lead byte of a longer sequence. -/
def isSecond (lead b : UInt8) : Bool :=
  if lead = 0xe0 then 0xa0 ≤ b && b < 0xc0
  else if lead = 0xed then 0x80 ≤ b && b < 0xa0
  else if lead = 0xf0 then 0x90 ≤ b && b < 0xc0
  else if lead = 0xf4 then 0x80 ≤ b && b < 0x90
  else isContinuation b

/-- The payload of a continuation byte. -/
def payload (b : UInt8) : Nat :=
  b.toNat % 64

/-- Reads one character off a nonempty list of bytes, given as its head and the rest.  A failure
tells how many bytes are beyond repair, or `none` if more bytes could complete the character. -/
def decodeChar (lead : UInt8) (rest : List UInt8) : Except (Option Nat) (Char × List UInt8) :=
  match sequenceLength lead, rest with
  | some 1, _ => .ok (Char.ofNat lead.toNat, rest)
  | some 2, b₁ :: r =>
    if isContinuation b₁ then .ok (Char.ofNat ((lead.toNat % 32) * 64 + payload b₁), r)
    else .error (some 1)
  | some 3, b₁ :: r₁ =>
    if !isSecond lead b₁ then .error (some 1)
    else match r₁ with
      | [] => .error none
      | b₂ :: r =>
        if isContinuation b₂ then
          .ok (Char.ofNat ((lead.toNat % 16) * 4096 + payload b₁ * 64 + payload b₂), r)
        else .error (some 2)
  | some 4, b₁ :: r₁ =>
    if !isSecond lead b₁ then .error (some 1)
    else match r₁ with
      | [] => .error none
      | b₂ :: r₂ =>
        if !isContinuation b₂ then .error (some 2)
        else match r₂ with
          | [] => .error none
          | b₃ :: r =>
            if isContinuation b₃ then
              .ok (Char.ofNat ((lead.toNat % 8) * 262144 + payload b₁ * 4096 + payload b₂ * 64
                + payload b₃), r)
            else .error (some 3)
  | some _, _ => .error none
  | none, _ => .error (some 1)

theorem length_of_decodeChar {lead : UInt8} {rest r : List UInt8} {c : Char}
    (h : decodeChar lead rest = .ok (c, r)) : r.length ≤ rest.length := by
  unfold decodeChar at h
  repeat' split at h
  all_goals first
    | (simp only [Except.ok.injEq, Prod.mk.injEq] at h; obtain ⟨_, rfl⟩ := h; simp <;> omega)
    | cases h

/-- Reads a text off bytes, of which `valid` good ones went before. -/
def decodeFrom (valid : Nat) : List UInt8 → Except Utf8Fault (List Char)
  | [] => .ok []
  | lead :: rest =>
    match h : decodeChar lead rest with
    | .ok (c, r) =>
      have : r.length ≤ rest.length := length_of_decodeChar h
      (decodeFrom (valid + (sequenceLength lead).getD 1) r).map (c :: ·)
    | .error (some length) => .error (.invalid valid length)
    | .error none => .error (.incomplete valid)
  termination_by bytes => bytes.length
  decreasing_by simp; omega

/-- Reads a text off its bytes. -/
def decode (bytes : List UInt8) : Except Utf8Fault (List Char) :=
  decodeFrom 0 bytes

end ScriptRegistry.Text
