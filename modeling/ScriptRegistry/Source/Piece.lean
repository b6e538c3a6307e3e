/-
ScriptRegistry/Source/Piece.lean

Source text cut into pieces, and the text without its comments.

Reading from left to right, a piece is a comment from `#` to the end of its
line, a block between two runs of three equal quotes, a literal on one line
between two equal quotes, or else a single character of code.  A block ends at
the first run of three quotes.  In a literal a backslash takes the next character
with it, whatever that is, and a line feed not so taken is not allowed.  A quote
that opens neither a block nor a literal is code.

`withoutComments` drops the comments, leaves one space for each block and keeps
everything else.
-/

namespace ScriptRegistry.Source

/-- A piece of source text. -/
inductive Piece
  | code (c : Char)
  | literal (text : List Char)
  | comment (text : List Char)
  | block (text : List Char)
  deriving DecidableEq, Repr

/-- The text of a piece. -/
def Piece.text : Piece → List Char
  | .code c => [c]
  | .literal text => text
  | .comment text => text
  | .block text => text

/-- What is kept of a piece when comments are stripped. -/
def Piece.kept : Piece → List Char
  | .code c => [c]
  | .literal text => text
  | .comment _ => []
  | .block _ => [' ']

/-- Whether a character opens literals and blocks. -/
def isQuote (c : Char) : Bool :=
  c == '\'' || c == '"'

/-- Whether a character ends a line comment. -/
def isLineEnd (c : Char) : Bool :=
  c == '\n' || c == '\r'

/-- The rest of a literal opened by `q`, with its closing quote, and the text behind it; none if the
literal is not closed. -/
def readLiteral (q : Char) : List Char → Option (List Char × List Char)
  | [] => none
  | [c] => if c = q then some ([c], []) else none
  | c :: d :: rest =>
    if c = '\\' then (readLiteral q rest).map fun (body, after) => (c :: d :: body, after)
    else if c = q then some ([c], d :: rest)
    else if c = '\n' then none
    else (readLiteral q (d :: rest)).map fun (body, after) => (c :: body, after)

/-- The rest of a block opened by three `q`, with its closing quotes, and the text behind it; none
if the block is not closed. -/
def readBlock (q : Char) : List Char → Option (List Char × List Char)
  | a :: b :: c :: rest =>
    if a = q ∧ b = q ∧ c = q then some ([a, b, c], rest)
    else (readBlock q (b :: c :: rest)).map fun (body, after) => (a :: body, after)
  | _ => none

/-- The rest of a block whose first quote has been read. -/
def openBlock (q : Char) : List Char → Option (List Char × List Char)
  | a :: b :: rest =>
    if a = q ∧ b = q then (readBlock q rest).map fun (body, after) => (a :: b :: body, after)
    else none
  | _ => none

/-- The first piece of a text that begins with `c`, and the text behind it. -/
def nextPiece (c : Char) (cs : List Char) : Piece × List Char :=
  if c = '#' then
    (.comment (c :: cs.takeWhile fun d => !isLineEnd d), cs.dropWhile fun d => !isLineEnd d)
  else if isQuote c then
    match openBlock c cs with
    | some (body, rest) => (.block (c :: body), rest)
    | none =>
      match readLiteral c cs with
      | some (body, rest) => (.literal (c :: body), rest)
      | none => (.code c, cs)
  else (.code c, cs)

/-! ### A piece and the text behind it make up the text -/

theorem append_of_readLiteral {q : Char} {s body rest : List Char}
    (h : readLiteral q s = some (body, rest)) : body ++ rest = s := by
  fun_induction readLiteral q s generalizing body rest <;> grind [Option.map_eq_some_iff]

theorem append_of_readBlock {q : Char} {s body rest : List Char}
    (h : readBlock q s = some (body, rest)) : body ++ rest = s := by
  fun_induction readBlock q s generalizing body rest <;> grind [Option.map_eq_some_iff]

theorem append_of_openBlock {q : Char} {s body rest : List Char}
    (h : openBlock q s = some (body, rest)) : body ++ rest = s := by
  unfold openBlock at h
  split at h
  · grind [Option.map_eq_some_iff, append_of_readBlock]
  · cases h

/-- Nothing of a text is lost when its first piece is taken. -/
theorem text_append_nextPiece (c : Char) (cs : List Char) :
    (nextPiece c cs).1.text ++ (nextPiece c cs).2 = c :: cs := by
  unfold nextPiece
  split
  · simp [Piece.text, List.takeWhile_append_dropWhile]
  · split
    · split
      · next h => simp [Piece.text, append_of_openBlock h]
      · split
        · next h => simp [Piece.text, append_of_readLiteral h]
        · rfl
    · rfl

/-- A piece is never empty. -/
theorem text_nextPiece_ne_nil (c : Char) (cs : List Char) : (nextPiece c cs).1.text ≠ [] := by
  unfold nextPiece
  split
  · simp [Piece.text]
  · split
    · split
      · simp [Piece.text]
      · split <;> simp [Piece.text]
    · simp [Piece.text]

/-- What is behind the first piece is shorter than the text. -/
theorem length_nextPiece (c : Char) (cs : List Char) :
    (nextPiece c cs).2.length < (c :: cs).length := by
  have h := congrArg List.length (text_append_nextPiece c cs)
  have := List.length_pos_iff.2 (text_nextPiece_ne_nil c cs)
  rw [List.length_append] at h
  omega

/-! ### The whole text -/

/-- The pieces of a text. -/
def pieces : List Char → List Piece
  | [] => []
  | c :: cs => (nextPiece c cs).1 :: pieces (nextPiece c cs).2
  termination_by s => s.length
  decreasing_by exact length_nextPiece c cs

/-- A text without its comments. -/
def withoutComments (text : List Char) : List Char :=
  (pieces text).flatMap Piece.kept

end ScriptRegistry.Source
