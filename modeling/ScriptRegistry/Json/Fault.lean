/-
ScriptRegistry/Json/Fault.lean

What can be wrong with a JSON text or with a JSON value that is read as
something else, and how it is told.

A `SyntaxFault` breaks the grammar, a `Mismatch` is a well-formed value of
another shape than the reader wants.  While a text is read, a fault remembers
how many bytes were left unread: that is all a position needs, since
`Position.ofLeft` counts lines and columns from the whole text afterwards.
A mismatch found after a value was read is `raised` with the bytes that follow,
and the construct around it decides where it is reported (`Fault.settle`); one
that nothing surrounds is told without a position.
-/
import ScriptRegistry.Decimal.Shortest
import ScriptRegistry.Text.Quoted

namespace ScriptRegistry.Json

/-- The ways to break the grammar. -/
inductive SyntaxFault
  | endInValue
  | endInString
  | endInList
  | endInObject
  | noColon
  | noListEnd
  | noObjectEnd
  | noIdent
  | noValue
  | badEscape
  | badNumber
  | numberTooLarge
  | badCodePoint
  | controlCharacter
  | keyNotString
  | loneSurrogate
  | unfinishedSurrogate
  | trailingComma
  | trailingCharacters
  | tooDeep
  deriving DecidableEq, Repr

/-- The message of a broken grammar. -/
def SyntaxFault.message : SyntaxFault → String
  | .endInValue => "EOF while parsing a value"
  | .endInString => "EOF while parsing a string"
  | .endInList => "EOF while parsing a list"
  | .endInObject => "EOF while parsing an object"
  | .noColon => "expected `:`"
  | .noListEnd => "expected `,` or `]`"
  | .noObjectEnd => "expected `,` or `\x7d`"
  | .noIdent => "expected ident"
  | .noValue => "expected value"
  | .badEscape => "invalid escape"
  | .badNumber => "invalid number"
  | .numberTooLarge => "number out of range"
  | .badCodePoint => "invalid unicode code point"
  | .controlCharacter =>
    "control character (\\u0000-\\u001F) found while parsing a string"
  | .keyNotString => "key must be a string"
  | .loneSurrogate => "lone leading surrogate in hex escape"
  | .unfinishedSurrogate => "unexpected end of hex escape"
  | .trailingComma => "trailing comma"
  | .trailingCharacters => "trailing characters"
  | .tooDeep => "recursion limit exceeded"

/-- The kind of value that was found, as far as messages show it. -/
inductive Found
  | null
  | bool (b : Bool)
  | integer (i : Int)
  | floating (x : Float)
  | string (s : String)
  | sequence
  | map
  deriving Repr

/-- How a found value is named in messages. -/
def Found.describe : Found → String
  | .null => "null"
  | .bool b => s!"boolean `{b}`"
  | .integer i => s!"integer `{i}`"
  | .floating x => "floating point `" ++ Decimal.render x ++ "`"
  | .string s => "string " ++ Text.quote s
  | .sequence => "sequence"
  | .map => "map"

/-- The ways for a well-formed value to be of another shape than wanted. -/
inductive Mismatch
  | wrongType (found : Found) (wanted : String)
  | wrongValue (found : Found) (wanted : String)
  | wrongLength (length : Nat) (wanted : String)
  | missing (field : String)
  | repeated (field : String)
  | unknownVariant (variant wanted : String)
  | refused (message : String)
  deriving Repr

/-- The message of a mismatch. -/
def Mismatch.message : Mismatch → String
  | .wrongType found wanted => s!"invalid type: {found.describe}, expected {wanted}"
  | .wrongValue found wanted => s!"invalid value: {found.describe}, expected {wanted}"
  | .wrongLength length wanted => s!"invalid length {length}, expected {wanted}"
  | .missing field => s!"missing field `{field}`"
  | .repeated field => s!"duplicate field `{field}`"
  | .unknownVariant variant wanted => s!"unknown variant `{variant}`, expected {wanted}"
  | .refused message => message

/-- What is wrong with a text: its grammar or the shape of its value. -/
inductive Problem
  | grammar (f : SyntaxFault)
  | shape (m : Mismatch)
  deriving Repr

/-- The message of a problem, without its position. -/
def Problem.message : Problem → String
  | .grammar f => f.message
  | .shape m => m.message

/-- A problem met while a text is read: either its place is settled, by the number of bytes left
unread there, or the value before `rest` was refused and its place is still open. -/
inductive Fault
  | settled (problem : Problem) (left : Nat)
  | raised (mismatch : Mismatch) (rest : List UInt8)
  deriving Repr

/-- A broken grammar, reported where `rest` is still unread. -/
def Fault.here (f : SyntaxFault) (rest : List UInt8) : Fault :=
  .settled (.grammar f) rest.length

/-- A broken grammar, reported upon the byte that `rest` begins with. -/
def Fault.upon (f : SyntaxFault) (rest : List UInt8) : Fault :=
  .settled (.grammar f) (rest.length - 1)

/-- Settles an open place behind whatever `close` reads off the bytes after the refused value. -/
def Fault.settle (close : List UInt8 → List UInt8) : Fault → Fault
  | .settled problem left => .settled problem left
  | .raised mismatch rest => .settled (.shape mismatch) (close rest).length

/-- A place in a text: lines count from one, columns count the bytes before the place. -/
structure Position where
  line : Nat
  column : Nat
  deriving DecidableEq, Repr

/-- The place in a text at which the given number of bytes is left. -/
def Position.ofLeft (text : List UInt8) (left : Nat) : Position :=
  let before := text.take (text.length - left)
  { line := before.count 10 + 1
    column := (before.reverse.takeWhile (· != 10)).length }

/-- The message of a fault in the given text, with its place if it has one. -/
def Fault.message (text : List UInt8) : Fault → String
  | .settled problem left =>
    let p := Position.ofLeft text left
    s!"{problem.message} at line {p.line} column {p.column}"
  | .raised mismatch _ => mismatch.message

end ScriptRegistry.Json
