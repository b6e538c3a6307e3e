/-
ScriptRegistry/Json/Reader.lean

Reading JSON text.

Every reader takes the bytes that are left of the text and returns what it read
with the bytes that are left after it, or a fault.  `readValue` reads one value
of any kind; a list or object may stand inside at most 126 others.
`skipValue` passes over a value nobody asked for: it keeps only a stack of the
brackets that are open, so it knows no limit of depth, and it looks neither at
the size of numbers nor at the characters of strings.

Numbers are read digit by digit into a significand below `2 ^ 64`; digits that
no longer fit only move the exponent.  The value of a number that is no integer
is the significand rounded, times or over one power of ten rounded.
-/
import ScriptRegistry.Json.Fault
import ScriptRegistry.Json.Value
import ScriptRegistry.Text.Utf8

namespace ScriptRegistry.Json

/-- Whether a byte may stand between the parts of a JSON text. -/
def isGap (b : UInt8) : Bool :=
  b == 32 || b == 10 || b == 9 || b == 13

/-- The bytes from the next part of the text on. -/
def skipGaps (bytes : List UInt8) : List UInt8 :=
  bytes.dropWhile isGap

/-- Whether a byte is a decimal digit. -/
def isDigit (b : UInt8) : Bool :=
  48 ≤ b && b ≤ 57

/-- The value of a decimal digit. -/
def digitValue (b : UInt8) : Nat :=
  b.toNat - 48

/-! ### Literals -/

/-- Reads the given bytes, the rest of a literal. -/
def readIdent : List UInt8 → List UInt8 → Except Fault (List UInt8)
  | [], bytes => .ok bytes
  | _ :: _, [] => .error (.here .endInValue [])
  | w :: ws, b :: bytes => if b = w then readIdent ws bytes else .error (.here .noIdent bytes)

/-- The rest of `null`. -/
def nullRest : List UInt8 := [117, 108, 108]

/-- The rest of `true`. -/
def trueRest : List UInt8 := [114, 117, 101]

/-- The rest of `false`. -/
def falseRest : List UInt8 := [97, 108, 115, 101]

/-! ### Numbers -/

/-- A significand stays below this bound, `2 ^ 64`. -/
def significandBound : Nat := 18446744073709551616

/-- Adds digits to a significand while it stays below the bound; the digits from the first that does
not fit on are returned. -/
def addDigits (significand : Nat) : List UInt8 → Nat × List UInt8
  | [] => (significand, [])
  | d :: ds =>
    let grown := significand * 10 + digitValue d
    if grown < significandBound then addDigits grown ds else (significand, d :: ds)

/-- The floating-point number `significand · 10 ^ exponent`, made with one rounding for each power
of ten; `none` if it is too large.  Powers up to 308 are available, smaller numbers take two
steps. -/
def scaleDecimal (significand : Nat) (exponent : Int) : Option Float :=
  let x := significand.toUInt64.toFloat
  if 308 < exponent then (if significand = 0 then some x else none)
  else if 0 ≤ exponent then
    let y := x * Float.ofScientific 1 false exponent.toNat
    if y.isInf then none else some y
  else if -308 ≤ exponent then some (x / Float.ofScientific 1 false exponent.natAbs)
  else
    let y := x / Float.ofScientific 1 false 308
    if -616 ≤ exponent then some (y / Float.ofScientific 1 false (exponent.natAbs - 308))
    else some 0

/-- A floating-point number, or the fault that it is too large. -/
def finishFloat (positive : Bool) (significand : Nat) (exponent : Int) (rest : List UInt8) :
    Except Fault (Number × List UInt8) :=
  match scaleDecimal significand exponent with
  | none => .error (.here .numberTooLarge rest)
  | some x => .ok (.floating (if positive then x else -x), rest)

/-- An exponent that reaches this bound, `2 ^ 31`, is not computed. -/
def exponentBound : Nat := 2147483648

/-- Adds digits to an exponent while it stays below the bound; `none` with the bytes after the digit
that did not fit. -/
def addExponent (exponent : Nat) : List UInt8 → Option Nat × List UInt8
  | [] => (some exponent, [])
  | d :: ds =>
    if isDigit d then
      let grown := exponent * 10 + digitValue d
      if grown < exponentBound then addExponent grown ds else (none, ds)
    else (some exponent, d :: ds)

/-- An exponent kept to the range that is computed with. -/
def clampExponent (e : Int) : Int :=
  max (-(exponentBound : Int)) (min (exponentBound - 1) e)

/-- Reads the exponent of a number, after its letter. -/
def readExponent (positive : Bool) (significand : Nat) (start : Int) (bytes : List UInt8) :
    Except Fault (Number × List UInt8) :=
  let (up, bytes) :=
    match bytes with
    | 43 :: r => (true, r)
    | 45 :: r => (false, r)
    | r => (true, r)
  match bytes with
  | [] => .error (.here .endInValue [])
  | d :: r =>
    if !isDigit d then .error (.here .badNumber r)
    else match addExponent (digitValue d) r with
      | (some e, rest) =>
        finishFloat positive significand (clampExponent (if up then start + e else start - e)) rest
      | (none, rest) =>
        if significand != 0 && up then .error (.here .numberTooLarge rest)
        else .ok (.floating (if positive then 0 else -0), rest.dropWhile isDigit)

/-- Reads what may follow the digits of a number whose exponent so far is `exponent`. -/
def readScale (positive : Bool) (significand : Nat) (exponent : Int) (bytes : List UInt8) :
    Except Fault (Number × List UInt8) :=
  match bytes with
  | 101 :: r => readExponent positive significand exponent r
  | 69 :: r => readExponent positive significand exponent r
  | r => finishFloat positive significand exponent r

/-- Reads the digits after the point. -/
def readFraction (positive : Bool) (significand : Nat) (exponent : Int) (bytes : List UInt8) :
    Except Fault (Number × List UInt8) :=
  match bytes.takeWhile isDigit, bytes.dropWhile isDigit with
  | [], [] => .error (.upon .endInValue [])
  | [], r => .error (.upon .badNumber r)
  | ds, r =>
    let (grown, unused) := addDigits significand ds
    readScale positive grown (exponent - (ds.length - unused.length : Nat)) r

/-- The least integer is minus this bound, `2 ^ 63`. -/
def negativeBound : Nat := 9223372036854775808

/-- The number with the given sign and significand, written without point and exponent. -/
def wholeNumber (positive : Bool) (significand : Nat) : Number :=
  if positive then .integer significand
  else if significand = 0 || negativeBound < significand then
    .floating (-significand.toUInt64.toFloat)
  else .integer (-significand)

/-- Reads a number after its sign. -/
def readNumber (positive : Bool) : List UInt8 → Except Fault (Number × List UInt8)
  | [] => .error (.here .endInValue [])
  | d :: r =>
    if !isDigit d then .error (.here .badNumber r)
    else
      let ds := if d = 48 then [] else r.takeWhile isDigit
      let rest := r.drop ds.length
      if d = 48 && rest.head?.any isDigit then .error (.upon .badNumber rest)
      else
        let (significand, unused) := addDigits (digitValue d) ds
        match rest with
        | 46 :: r' => readFraction positive significand unused.length r'
        | 101 :: r' => readExponent positive significand unused.length r'
        | 69 :: r' => readExponent positive significand unused.length r'
        | r' =>
          if unused.isEmpty then .ok (wholeNumber positive significand, r')
          else finishFloat positive significand unused.length r'

/-! ### Strings -/

/-- The value of a hexadecimal digit. -/
def hexValue? (b : UInt8) : Option Nat :=
  if 48 ≤ b && b ≤ 57 then some (b.toNat - 48)
  else if 97 ≤ b && b ≤ 102 then some (b.toNat - 87)
  else if 65 ≤ b && b ≤ 70 then some (b.toNat - 55)
  else none

/-- The code unit that four hexadecimal digits spell. -/
def hexUnit? (ds : List UInt8) : Option Nat :=
  ds.foldl (fun acc d => do return (← acc) * 16 + (← hexValue? d)) (some 0)

/-- The byte that a one-letter escape stands for. -/
def shortEscape? (b : UInt8) : Option UInt8 :=
  match b with
  | 34 => some 34
  | 92 => some 92
  | 47 => some 47
  | 98 => some 8
  | 102 => some 12
  | 110 => some 10
  | 114 => some 13
  | 116 => some 9
  | _ => none

/-- Where the reader of a string stands: between characters, behind a backslash, inside the four
digits of an escape, or behind the escape of a high surrogate, which must be followed by the escape
of a low one.  `high` is the high surrogate read before, if any, and `ds` the digits so far. -/
inductive StringState
  | plain
  | escape
  | hex (high : Option Nat) (ds : List UInt8)
  | surrogate (high : Nat)
  | surrogateEscape (high : Nat)
  deriving Repr

/-- What an escaped code unit does after the high surrogate `high?`: it adds a character, or waits
for its second half, or is no character. -/
def joinUnit (high? : Option Nat) (unit : Nat) : Except SyntaxFault (Char ⊕ Nat) :=
  match high? with
  | none =>
    if 0xd800 ≤ unit && unit < 0xdc00 then .ok (.inr unit)
    else if 0xdc00 ≤ unit && unit < 0xe000 then .error .loneSurrogate
    else .ok (.inl (Char.ofNat unit))
  | some high =>
    if 0xdc00 ≤ unit && unit < 0xe000 then
      .ok (.inl (Char.ofNat (0x10000 + (high - 0xd800) * 1024 + (unit - 0xdc00))))
    else .error .loneSurrogate

/-- Reads the rest of a string; `acc` holds its bytes so far, the last first.  Bytes that are no
text are reported at the first bad one, counted back from the end of the string. -/
def readStringFrom : StringState → List UInt8 → List UInt8 → Except Fault (String × List UInt8)
  | _, _, [] => .error (.here .endInString [])
  | .plain, acc, b :: r =>
    if b = 34 then
      match Text.decode acc.reverse with
      | .ok cs => .ok (String.ofList cs, r)
      | .error f => .error (.settled (.grammar .badCodePoint) (r.length + (acc.length - f.valid)))
    else if b = 92 then readStringFrom .escape acc r
    else if b < 32 then .error (.here .controlCharacter r)
    else readStringFrom .plain (b :: acc) r
  | .escape, acc, b :: r =>
    if b = 117 then readStringFrom (.hex none []) acc r
    else match shortEscape? b with
      | some c => readStringFrom .plain (c :: acc) r
      | none => .error (.here .badEscape r)
  | .hex high ds, acc, b :: r =>
    if ds.length < 3 then readStringFrom (.hex high (ds ++ [b])) acc r
    else match hexUnit? (ds ++ [b]) with
      | none => .error (.here .badEscape r)
      | some unit =>
        match joinUnit high unit with
        | .ok (.inl c) => readStringFrom .plain ((Text.encodeChar c).reverse ++ acc) r
        | .ok (.inr high') => readStringFrom (.surrogate high') acc r
        | .error f => .error (.here f r)
  | .surrogate high, acc, b :: r =>
    if b = 92 then readStringFrom (.surrogateEscape high) acc r
    else .error (.here .unfinishedSurrogate r)
  | .surrogateEscape high, acc, b :: r =>
    if b = 117 then readStringFrom (.hex (some high) []) acc r
    else .error (.here .unfinishedSurrogate r)

/-- Reads a string after its opening quote. -/
def readString (bytes : List UInt8) : Except Fault (String × List UInt8) :=
  readStringFrom .plain [] bytes

/-! ### Values -/

/-- Reads the colon between a name and its value. -/
def readColon (bytes : List UInt8) : Except Fault (List UInt8) :=
  match skipGaps bytes with
  | [] => .error (.upon .endInObject [])
  | 58 :: r => .ok r
  | r => .error (.upon .noColon r)

/-- What follows inside brackets: their end, or one more part. -/
inductive Next
  | stop (rest : List UInt8)
  | more (rest : List UInt8)

/-- Looks for the next item of a list; `first` if none has been read yet.  The closing bracket is
left unread. -/
def nextItem (first : Bool) (bytes : List UInt8) : Except Fault Next :=
  match skipGaps bytes with
  | [] => .error (.upon .endInList [])
  | 93 :: r => .ok (.stop (93 :: r))
  | b :: r =>
    if first then .ok (.more (b :: r))
    else if b = 44 then
      match skipGaps r with
      | [] => .error (.upon .endInValue [])
      | 93 :: r' => .error (.upon .trailingComma (93 :: r'))
      | r' => .ok (.more r')
    else .error (.upon .noListEnd (b :: r))

/-- Looks for the next name of an object; `first` if none has been read yet.  The closing brace is
left unread, the opening quote of a name is read. -/
def nextName (first : Bool) (bytes : List UInt8) : Except Fault Next :=
  match skipGaps bytes with
  | [] => .error (.upon .endInObject [])
  | 125 :: r => .ok (.stop (125 :: r))
  | b :: r =>
    if first then
      if b = 34 then .ok (.more r) else .error (.upon .keyNotString (b :: r))
    else if b = 44 then
      match skipGaps r with
      | [] => .error (.upon .endInValue [])
      | 34 :: r' => .ok (.more r')
      | 125 :: r' => .error (.upon .trailingComma (125 :: r'))
      | r' => .error (.upon .keyNotString r')
    else .error (.upon .noObjectEnd (b :: r))

/-- Lists and objects may be nested this deep, less one. -/
def depthBound : Nat := 128

mutual

/-- Reads a value.  `fuel` bounds the number of calls and `depth` the brackets that may still be
opened. -/
def readValueWith (fuel depth : Nat) (bytes : List UInt8) : Except Fault (Value × List UInt8) :=
  match fuel with
  | 0 => .error (.upon .tooDeep bytes)
  | fuel + 1 =>
    match skipGaps bytes with
    | [] => .error (.upon .endInValue [])
    | 110 :: r => do
      let r ← readIdent nullRest r
      return (.null, r)
    | 116 :: r => do
      let r ← readIdent trueRest r
      return (.bool true, r)
    | 102 :: r => do
      let r ← readIdent falseRest r
      return (.bool false, r)
    | 45 :: r => do
      let (n, r) ← readNumber false r
      return (.number n, r)
    | 34 :: r => do
      let (s, r) ← readString r
      return (.string s, r)
    | 91 :: r =>
      if depth ≤ 1 then .error (.upon .tooDeep (91 :: r))
      else do
        let (vs, r) ← readItemsWith fuel (depth - 1) true r
        return (.array vs, r)
    | 123 :: r =>
      if depth ≤ 1 then .error (.upon .tooDeep (123 :: r))
      else do
        let (ms, r) ← readMembersWith fuel (depth - 1) true r
        return (.ofMembers ms, r)
    | b :: r =>
      if isDigit b then do
        let (n, r) ← readNumber true (b :: r)
        return (.number n, r)
      else .error (.upon .noValue (b :: r))

/-- Reads the items of a list up to and with the closing bracket. -/
def readItemsWith (fuel depth : Nat) (first : Bool) (bytes : List UInt8) :
    Except Fault (List Value × List UInt8) :=
  match fuel with
  | 0 => .error (.upon .tooDeep bytes)
  | fuel + 1 => do
    match ← nextItem first bytes with
    | .stop r => return ([], r.drop 1)
    | .more r =>
      let (v, r) ← readValueWith fuel depth r
      let (vs, r) ← readItemsWith fuel depth false r
      return (v :: vs, r)

/-- Reads the members of an object up to and with the closing brace. -/
def readMembersWith (fuel depth : Nat) (first : Bool) (bytes : List UInt8) :
    Except Fault (List (String × Value) × List UInt8) :=
  match fuel with
  | 0 => .error (.upon .tooDeep bytes)
  | fuel + 1 => do
    match ← nextName first bytes with
    | .stop r => return ([], r.drop 1)
    | .more r =>
      let (name, r) ← readString r
      let r ← readColon r
      let (v, r) ← readValueWith fuel depth r
      let (ms, r) ← readMembersWith fuel depth false r
      return ((name, v) :: ms, r)

end

/-- Reads a value; every call reads a byte or closes a bracket, so twice the bytes are calls
enough. -/
def readValue (bytes : List UInt8) : Except Fault (Value × List UInt8) :=
  readValueWith (2 * bytes.length + 2) depthBound bytes

/-- Refuses whatever follows the value of a text. -/
def expectEnd {α : Type} (a : α) (bytes : List UInt8) : Except Fault α :=
  match skipGaps bytes with
  | [] => .ok a
  | r => .error (.upon .trailingCharacters r)

/-- The value of a whole text. -/
def Value.ofBytes (text : List UInt8) : Except Fault Value := do
  let (v, r) ← readValue text
  expectEnd v r

/-! ### Passing over a value -/

/-- Passes over the rest of a string, after its opening quote. -/
def skipString : List UInt8 → Except Fault (List UInt8)
  | [] => .error (.here .endInString [])
  | 34 :: r => .ok r
  | 92 :: 117 :: r =>
    match r with
    | a :: b :: c :: d :: r' =>
      match hexUnit? [a, b, c, d] with
      | some _ => skipString r'
      | none => .error (.here .badEscape r')
    | _ => .error (.here .endInString [])
  | 92 :: b :: r =>
    match shortEscape? b with
    | some _ => skipString r
    | none => .error (.here .badEscape r)
  | b :: r => if b < 32 then .error (.here .controlCharacter (b :: r)) else skipString r

/-- Passes over an exponent, after its letter. -/
def skipExponent (bytes : List UInt8) : Except Fault (List UInt8) :=
  let bytes :=
    match bytes with
    | 43 :: r => r
    | 45 :: r => r
    | r => r
  match bytes with
  | [] => .error (.here .badNumber [])
  | d :: r => if isDigit d then .ok (r.dropWhile isDigit) else .error (.here .badNumber r)

/-- Passes over what may follow the digits of a number. -/
def skipScale : List UInt8 → Except Fault (List UInt8)
  | 101 :: r => skipExponent r
  | 69 :: r => skipExponent r
  | r => .ok r

/-- Passes over a number, after its sign. -/
def skipNumber : List UInt8 → Except Fault (List UInt8)
  | [] => .error (.here .badNumber [])
  | d :: r =>
    if !isDigit d then .error (.here .badNumber r)
    else
      let rest := if d = 48 then r else r.dropWhile isDigit
      if d = 48 && rest.head?.any isDigit then .error (.upon .badNumber rest)
      else match rest with
        | 46 :: r' =>
          if r'.head?.any isDigit then skipScale (r'.dropWhile isDigit)
          else .error (.upon .badNumber r')
        | r' => skipScale r'

/-- Passes over a value that holds no other. -/
def skipScalar : List UInt8 → Except Fault (List UInt8)
  | 110 :: r => readIdent nullRest r
  | 116 :: r => readIdent trueRest r
  | 102 :: r => readIdent falseRest r
  | 45 :: r => skipNumber r
  | 34 :: r => skipString r
  | b :: r => if isDigit b then skipNumber (b :: r) else .error (.upon .noValue (b :: r))
  | [] => .error (.upon .endInValue [])

/-- Closes brackets after a value, or finds the comma before the next; `stack` holds the brackets
that are open, `true` for those of an object.  `fresh` if the innermost was opened just now. -/
def closeBrackets (stack : List Bool) (fresh : Bool) (bytes : List UInt8) :
    Except Fault (List Bool × List UInt8) :=
  match stack with
  | [] => .ok ([], bytes)
  | isObject :: outer =>
    match skipGaps bytes with
    | [] => .error (.upon (if isObject then .endInObject else .endInList) [])
    | b :: r =>
      if b = (if isObject then 125 else 93) then closeBrackets outer false r
      else if fresh then .ok (isObject :: outer, b :: r)
      else if b = 44 then .ok (isObject :: outer, r)
      else .error (.upon (if isObject then .noObjectEnd else .noListEnd) (b :: r))

/-- Passes over the name of a member and its colon. -/
def skipName (bytes : List UInt8) : Except Fault (List UInt8) :=
  match skipGaps bytes with
  | [] => .error (.upon .endInObject [])
  | 34 :: r => do readColon (← skipString r)
  | r => .error (.upon .keyNotString r)

/-- Passes over values until all brackets on the stack are closed; `fuel` bounds the values. -/
def skipWith (fuel : Nat) (stack : List Bool) (bytes : List UInt8) : Except Fault (List UInt8) :=
  match fuel with
  | 0 => .error (.upon .noValue bytes)
  | fuel + 1 => do
    let (opened, stack, rest) ←
      match skipGaps bytes with
      | 91 :: r => pure (true, false :: stack, r)
      | 123 :: r => pure (true, true :: stack, r)
      | r => do pure (false, stack, ← skipScalar r)
    match ← closeBrackets stack opened rest with
    | ([], r) => return r
    | (true :: outer, r) => skipWith fuel (true :: outer) (← skipName r)
    | (false :: outer, r) => skipWith fuel (false :: outer) r

/-- Passes over one value. -/
def skipValue (bytes : List UInt8) : Except Fault (List UInt8) :=
  skipWith (bytes.length + 1) [] bytes

end ScriptRegistry.Json
