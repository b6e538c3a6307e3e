/-
ScriptRegistry/Json/Writer.lean

JSON text, written without blanks and with the members in their order.

Inside a string a quote and a backslash take a backslash, five controls have
short names, the other controls below 32 are written by four hexadecimal
digits, and every other character stands for itself.
-/
import ScriptRegistry.Json.Value
import ScriptRegistry.Decimal.Shortest
import ScriptRegistry.Text.Utf8

namespace ScriptRegistry.Json

/-- How one character is written inside a JSON string. -/
def escapeChar (c : Char) : List Char :=
  if c = '"' then ['\\', '"']
  else if c = '\\' then ['\\', '\\']
  else if c = '\x08' then ['\\', 'b']
  else if c = '\x0c' then ['\\', 'f']
  else if c = '\n' then ['\\', 'n']
  else if c = '\r' then ['\\', 'r']
  else if c = '\t' then ['\\', 't']
  else if c.toNat < 32 then
    ['\\', 'u', '0', '0', Nat.digitChar (c.toNat / 16), Nat.digitChar (c.toNat % 16)]
  else [c]

/-- A JSON string. -/
def writeString (s : String) : List Char :=
  ['"'] ++ s.toList.flatMap escapeChar ++ ['"']

/-- An integer. -/
def writeInt : Int → List Char
  | .ofNat n => Decimal.digits n
  | .negSucc n => '-' :: Decimal.digits (n + 1)

/-- A number. -/
def writeNumber : Number → List Char
  | .integer i => writeInt i
  | .floating x => (Decimal.render x).toList

mutual

/-- A value. -/
def writeValue : Value → List Char
  | .null => ['n', 'u', 'l', 'l']
  | .bool true => ['t', 'r', 'u', 'e']
  | .bool false => ['f', 'a', 'l', 's', 'e']
  | .number n => writeNumber n
  | .string s => writeString s
  | .array [] => ['[', ']']
  | .array (v :: vs) => '[' :: (writeValue v ++ writeItems vs)
  | .object [] => ['\x7b', '\x7d']
  | .object ((name, v) :: ms) =>
    '\x7b' :: (writeString name ++ ':' :: (writeValue v ++ writeMembers ms))

/-- The items of an array after the first, with the closing bracket. -/
def writeItems : List Value → List Char
  | [] => [']']
  | v :: vs => ',' :: (writeValue v ++ writeItems vs)

/-- The members of an object after the first, with the closing brace. -/
def writeMembers : List (String × Value) → List Char
  | [] => ['\x7d']
  | (name, v) :: ms => ',' :: (writeString name ++ ':' :: (writeValue v ++ writeMembers ms))

end

/-- The JSON text of a value. -/
def Value.render (v : Value) : String :=
  String.ofList (writeValue v)

/-- The bytes of the JSON text of a value. -/
def Value.bytes (v : Value) : List UInt8 :=
  Text.encode (writeValue v)

end ScriptRegistry.Json
