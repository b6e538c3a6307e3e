/-
ScriptRegistry/Text/Blank.lean

Blanks: the characters that separate words, and trimming by them.

`isBlank` is the property White_Space: tab, line feed, vertical tab, form feed,
carriage return, space, next line, no-break space and the typographic spaces
and separators.  `trim` drops the blanks at both ends of a text and nothing
else.
-/

namespace ScriptRegistry.Text

/-- Whether a character is a blank. -/
def isBlank (c : Char) : Bool :=
  let n := c.toNat
  (9 ≤ n && n ≤ 13) || n == 32 || n == 0x85 || n == 0xa0 || n == 0x1680 ||
    (0x2000 ≤ n && n ≤ 0x200a) || n == 0x2028 || n == 0x2029 || n == 0x202f ||
    n == 0x205f || n == 0x3000

/-- The blanks below 128, without the vertical tab. -/
def isAsciiBlank (c : Char) : Bool :=
  c == ' ' || c == '\t' || c == '\n' || c == '\x0c' || c == '\r'

/-- A text without its leading blanks. -/
def trimStart (s : List Char) : List Char :=
  s.dropWhile isBlank

/-- A text without its trailing blanks. -/
def trimEnd (s : List Char) : List Char :=
  (s.reverse.dropWhile isBlank).reverse

/-- A text without the blanks at its two ends. -/
def trim (s : List Char) : List Char :=
  trimEnd (trimStart s)

/-- Lower case for the letters A to Z; every other character is left as it is. -/
def lowerAscii (s : List Char) : List Char :=
  s.map Char.toLower

end ScriptRegistry.Text
