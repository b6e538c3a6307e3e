/-
ScriptRegistry/Time/Reader.lean

Reading a moment from a date, a time of day and an offset from universal time.

The form is that of `Moment.render` with some freedom: numbers may have fewer
digits, blanks may stand before every number and every mark except before the
letter between date and time, that letter may be a space or in lower case, and
the offset may be `Z`, `UTC` or hours and minutes with or without a colon.  A
fraction is cut after nine digits.  The text is read from left to right and the
first thing that is wrong is told.
-/
import ScriptRegistry.Time.Moment
import ScriptRegistry.Text.Blank

namespace ScriptRegistry.Time

/-- Why a text is no moment. -/
inductive TimeFault
  | tooShort
  | invalid
  | outOfRange
  | impossible
  | trailing
  deriving DecidableEq, Repr

/-- The message of a refusal. -/
def TimeFault.message : TimeFault → String
  | .tooShort => "premature end of input"
  | .invalid => "input contains invalid characters"
  | .outOfRange => "input is out of range"
  | .impossible => "no possible date and time matching input"
  | .trailing => "trailing input"

/-- Whether a character is an ASCII digit. -/
def isDigit (c : Char) : Bool :=
  '0' ≤ c && c ≤ '9'

/-- The number that digits spell. -/
def ofDigits (ds : List Char) : Nat :=
  ds.foldl (fun n d => n * 10 + (d.toNat - 48)) 0

/-- The digits at the head of a text, at most `width` of them, and what follows. -/
def splitDigits (width : Nat) (s : List Char) : List Char × List Char :=
  let ds := (s.take width).takeWhile isDigit
  (ds, s.drop ds.length)

/-- Numbers reach up to this bound, exclusively. -/
def numberBound : Nat := 9223372036854775808

/-- Reads a number of one to `width` digits. -/
def readNumber (width : Nat) (s : List Char) : Except TimeFault (Nat × List Char) :=
  match s with
  | [] => .error .tooShort
  | _ :: _ =>
    let (ds, rest) := splitDigits width s
    if ds.isEmpty then .error .invalid
    else if ofDigits ds < numberBound then .ok (ofDigits ds, rest)
    else .error .outOfRange

/-- Reads a number of one or two digits between the two bounds, after blanks. -/
def readBetween (low high : Nat) (s : List Char) : Except TimeFault (Nat × List Char) := do
  let (n, rest) ← readNumber 2 (Text.trimStart s)
  if low ≤ n && n ≤ high then return (n, rest) else throw .outOfRange

/-- Reads a mark, after blanks. -/
def readMark (mark : Char) (s : List Char) : Except TimeFault (List Char) :=
  match Text.trimStart s with
  | [] => .error .tooShort
  | c :: rest => if c = mark then .ok rest else .error .invalid

/-- Reads a year: up to four digits, or any number of digits after a sign. -/
def readYear (s : List Char) : Except TimeFault (Int × List Char) := do
  let (year, rest) ← (match Text.trimStart s with
    | '-' :: r => do
      let (n, rest) ← readNumber r.length r
      return (-(n : Int), rest)
    | '+' :: r => do
      let (n, rest) ← readNumber r.length r
      return ((n : Int), rest)
    | r => do
      let (n, rest) ← readNumber 4 r
      return ((n : Int), rest))
  if -2147483648 ≤ year && year ≤ 2147483647 then return (year, rest) else throw .outOfRange

/-- Reads the letter between date and time. -/
def readSeparator : List Char → Except TimeFault (List Char)
  | [] => .error .tooShort
  | c :: rest => if c = 'T' || c = 't' || c = ' ' then .ok rest else .error .invalid

/-- Reads a fraction, if there is one, as nanoseconds. -/
def readFraction : List Char → Except TimeFault (Nat × List Char)
  | '.' :: s => do
    let (n, rest) ← readNumber 9 s
    return (n * Nat.pow 10 (9 - (s.length - rest.length)), rest.dropWhile isDigit)
  | s => .ok (0, s)

/-- Whether a text is shorter than two bytes. -/
def isShort : List Char → Bool
  | [] => true
  | [c] => c.toNat < 128
  | _ => false

/-- Reads two digits. -/
def readPair (s : List Char) : Except TimeFault (Nat × List Char) :=
  if isShort s then .error .tooShort
  else match s with
    | a :: b :: rest =>
      if isDigit a && isDigit b then .ok (ofDigits [a, b], rest) else .error .invalid
    | _ => .error .invalid

/-- Reads hours and minutes as a number of minutes. -/
def readHoursMinutes (s : List Char) : Except TimeFault (Nat × List Char) := do
  let (hours, rest) ← readPair s
  let (minutes, rest) ← readPair (rest.dropWhile fun c => c == ':' || Text.isBlank c)
  if minutes < 60 then return (hours * 60 + minutes, rest) else throw .outOfRange

/-- Reads an offset from universal time, in minutes; a minus sign may be the typographic one. -/
def readOffset (s : List Char) : Except TimeFault (Int × List Char) :=
  match Text.trimStart s with
  | [] => .error .tooShort
  | c :: rest =>
    if Text.lowerAscii ((c :: rest).take 3) = ['u', 't', 'c'] then .ok (0, rest.drop 2)
    else if c = 'Z' || c = 'z' then .ok (0, rest)
    else if c = '+' then do
      let (n, rest) ← readHoursMinutes rest
      return ((n : Int), rest)
    else if c = '-' || c = '\u2212' then do
      let (n, rest) ← readHoursMinutes rest
      return (-(n : Int), rest)
    else .error .invalid

/-- Reads a moment. -/
def Moment.ofChars (s : List Char) : Except TimeFault Moment := do
  let (year, s) ← readYear s
  let (month, s) ← readBetween 1 12 (← readMark '-' s)
  let (day, s) ← readBetween 1 31 (← readMark '-' s)
  let (hour, s) ← readBetween 0 23 (← readSeparator s)
  let (minute, s) ← readBetween 0 59 (← readMark ':' s)
  let (second, s) ← readBetween 0 60 (← readMark ':' s)
  let (nano, s) ← readFraction s
  let (offset, s) ← readOffset s
  if !(Text.trimStart s).isEmpty then throw .trailing
  match Moment.ofCivil? year month day hour minute second nano with
  | none => throw .outOfRange
  | some here =>
    if 1440 ≤ offset.natAbs then throw .outOfRange
    else match here.shiftMinutes (-offset) with
      | none => throw .impossible
      | some there => return there

/-- Reads a moment from a text. -/
def Moment.ofString (s : String) : Except TimeFault Moment :=
  Moment.ofChars s.toList

end ScriptRegistry.Time
