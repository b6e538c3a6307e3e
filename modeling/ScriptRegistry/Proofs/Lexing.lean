/-
ScriptRegistry/Proofs/Lexing.lean

How the language of the scripts cuts a text, and where stripping parts from it.

`lexemes` reads a text from left to right as the language does.  A number sign
starts a comment up to the end of its line; three equal quotes start a block, any
other quote a literal on one line.  In both of them a backslash takes the next
character with it, and the first closing delimiter that is not so taken is the
end.

Stripping follows this in literals on one line.  A block it ends at the first
three quotes there are, taken or not.  So the two go together as long as no block
holds three of its quotes before its end, and at the first block that does
stripping goes on in the midst of it: from there on code and blocks may change
places.

Main result: `withoutComments_lexemes`.
-/
import ScriptRegistry.Proofs.Stripping

namespace ScriptRegistry.Source

/-! ### Lexemes -/

/-- A lexeme; comments, literals and blocks come without their delimiters. -/
inductive Lexeme
  | code (c : Char)
  | comment (text : List Char)
  | literal (q : Char) (body : List Char)
  | block (q : Char) (body : List Char)
  deriving DecidableEq, Repr

namespace Lexeme

/-- A lexeme as it is written. -/
def text : Lexeme → List Char
  | code c => [c]
  | comment text => '#' :: text
  | literal q body => q :: (body ++ [q])
  | block q body => q :: q :: q :: (body ++ [q, q, q])

/-- What is to be left of a lexeme: nothing of a comment, a space of a block. -/
def kept : Lexeme → List Char
  | code c => [c]
  | comment _ => []
  | literal q body => q :: (body ++ [q])
  | block _ _ => [' ']

/-- A block ends at the first three of its quotes. -/
def EndsFirst : Lexeme → Prop
  | block q body => BlockBody q body
  | _ => True

theorem text_ne_nil (l : Lexeme) : l.text ≠ [] := by
  cases l <;> exact List.cons_ne_nil _ _

end Lexeme

/-- What stands before the closing delimiter, and the text behind it; none if there is no such
delimiter, or none on the line if it must be there. -/
def readBody (close : List Char) (oneLine : Bool) : List Char → Option (List Char × List Char)
  | [] => none
  | c :: cs =>
    if close <+: c :: cs then some ([], (c :: cs).drop close.length)
    else if c = '\\' then
      match cs with
      | [] => none
      | d :: rest => (readBody close oneLine rest).map fun (body, after) => (c :: d :: body, after)
    else if oneLine = true ∧ c = '\n' then none
    else (readBody close oneLine cs).map fun (body, after) => (c :: body, after)

/-- The first lexeme of a text that begins with `c`, and the text behind it; none if a literal or a
block is not closed. -/
def nextLexeme (c : Char) (cs : List Char) : Option (Lexeme × List Char) :=
  if c = '#' then
    some (.comment (cs.takeWhile fun d => !isLineEnd d), cs.dropWhile fun d => !isLineEnd d)
  else if isQuote c then
    if [c, c] <+: cs then
      (readBody [c, c, c] false (cs.drop 2)).map fun (body, rest) => (.block c body, rest)
    else (readBody [c] true cs).map fun (body, rest) => (.literal c body, rest)
  else some (.code c, cs)

variable {q c : Char} {s cs body rest text : List Char} {l : Lexeme}

theorem append_of_readBody {close : List Char} {oneLine : Bool}
    (h : readBody close oneLine s = some (body, rest)) : s = body ++ (close ++ rest) := by
  fun_induction readBody close oneLine s generalizing body rest with
  | case1 => cases h
  | case2 c cs hclose =>
    obtain ⟨after, hafter⟩ := hclose
    rw [← hafter, List.drop_left] at h
    cases h
    exact hafter.symm
  | case3 => cases h
  | case4 d after hclose ih =>
    obtain ⟨⟨inner, behind⟩, hread, heq⟩ := Option.map_eq_some_iff.mp h
    cases heq
    rw [ih hread]
    rfl
  | case5 => cases h
  | case6 c cs hclose hslash hline ih =>
    obtain ⟨⟨inner, behind⟩, hread, heq⟩ := Option.map_eq_some_iff.mp h
    cases heq
    rw [ih hread]
    rfl

/-- The body of a literal on one line needs no more than its escapes. -/
theorem literalBody_of_readBody (h : readBody [q] true s = some (body, rest)) :
    LiteralBody q body := by
  fun_induction readBody [q] true s generalizing body rest with
  | case1 => cases h
  | case2 c cs hclose =>
    cases h
    exact LiteralBody.nil
  | case3 => cases h
  | case4 d after hclose ih =>
    obtain ⟨⟨inner, behind⟩, hread, heq⟩ := Option.map_eq_some_iff.mp h
    cases heq
    exact LiteralBody.escaped d (ih hread)
  | case5 => cases h
  | case6 c cs hclose hslash hline ih =>
    obtain ⟨⟨inner, behind⟩, hread, heq⟩ := Option.map_eq_some_iff.mp h
    cases heq
    refine LiteralBody.plain ?_ hslash (fun hfeed => hline ⟨rfl, hfeed⟩) (ih hread)
    rintro rfl
    exact hclose ⟨cs, rfl⟩

/-- Nothing of a text is lost when its first lexeme is taken. -/
theorem text_append_nextLexeme (h : nextLexeme c cs = some (l, rest)) :
    l.text ++ rest = c :: cs := by
  rw [nextLexeme] at h
  split at h
  · next hhash =>
    cases h
    rw [hhash, Lexeme.text, List.cons_append, List.takeWhile_append_dropWhile]
  · split at h
    · split at h
      · next hopen =>
        obtain ⟨after, rfl⟩ := hopen
        obtain ⟨⟨body, behind⟩, hread, heq⟩ := Option.map_eq_some_iff.mp h
        cases heq
        have hsplit : after = body ++ ([c, c, c] ++ rest) := append_of_readBody hread
        rw [hsplit]
        simp [Lexeme.text]
      · obtain ⟨⟨body, behind⟩, hread, heq⟩ := Option.map_eq_some_iff.mp h
        cases heq
        rw [append_of_readBody hread]
        simp [Lexeme.text]
    · cases h
      rfl

theorem length_nextLexeme (h : nextLexeme c cs = some (l, rest)) :
    rest.length < (c :: cs).length := by
  have hlength := List.length_pos_iff.mpr l.text_ne_nil
  rw [← text_append_nextLexeme h, List.length_append]
  omega

/-- The lexemes of a text; none if a literal or a block is not closed. -/
def lexemes : List Char → Option (List Lexeme)
  | [] => some []
  | c :: cs =>
    match _h : nextLexeme c cs with
    | none => none
    | some (l, rest) => (lexemes rest).map (l :: ·)
  termination_by s => s.length
  decreasing_by exact length_nextLexeme ‹_›

@[simp]
theorem lexemes_nil : lexemes [] = some [] := by
  rw [lexemes]

theorem lexemes_cons (c : Char) (cs : List Char) : lexemes (c :: cs)
    = (nextLexeme c cs).bind fun (l, rest) => (lexemes rest).map (l :: ·) := by
  rw [lexemes]
  rcases h : nextLexeme c cs with - | ⟨l, rest⟩ <;> simp

/-! ### Where the two go together -/

/-- Two quotes open no literal on one line. -/
theorem head?_ne_of_unopened (h : ¬ [q, q] <+: body ++ q :: rest) :
    body = [] → rest.head? ≠ some q := by
  rintro rfl hhead
  obtain ⟨after, rfl⟩ := List.head?_eq_some_iff.mp hhead
  exact h ⟨after, rfl⟩

/-- The first piece of a text is its first lexeme, if this is no block that ends too early. -/
theorem withoutComments_of_nextLexeme (h : nextLexeme c cs = some (l, rest)) (hl : l.EndsFirst) :
    withoutComments (c :: cs) = l.kept ++ withoutComments rest := by
  rw [withoutComments_cons]
  rw [nextLexeme] at h
  split at h
  · next hhash =>
    cases h
    rw [nextPiece, if_pos hhash]
    rfl
  · next hhash =>
    split at h
    · next hquote =>
      split at h
      · next hopen =>
        obtain ⟨after, rfl⟩ := hopen
        obtain ⟨⟨body, behind⟩, hread, heq⟩ := Option.map_eq_some_iff.mp h
        cases heq
        obtain rfl : after = body ++ ([c, c, c] ++ rest) := append_of_readBody hread
        have hpiece : nextPiece c (c :: c :: (body ++ c :: c :: c :: rest))
            = (.block (c :: c :: c :: (body ++ [c, c, c])), rest) := nextPiece_block hquote hl
        rw [List.cons_append, List.cons_append, List.nil_append]
        exact congrArg (fun piece => piece.1.kept ++ withoutComments piece.2) hpiece
      · next hopen =>
        obtain ⟨⟨body, behind⟩, hread, heq⟩ := Option.map_eq_some_iff.mp h
        cases heq
        obtain rfl : cs = body ++ ([c] ++ rest) := append_of_readBody hread
        rw [List.singleton_append] at hopen ⊢
        rw [nextPiece_literal hquote (literalBody_of_readBody hread) (head?_ne_of_unopened hopen)]
        rfl
    · next hquote =>
      cases h
      rw [nextPiece, if_neg hhash, if_neg hquote]
      rfl

/-- **As long as blocks end at their first three quotes, stripping takes lexeme by lexeme.** -/
theorem lexemes_append {front back : List Lexeme} (h : lexemes text = some (front ++ back)) :
    ∃ rest, text = front.flatMap Lexeme.text ++ rest ∧ lexemes rest = some back ∧
      ((∀ l ∈ front, l.EndsFirst) →
        withoutComments text = front.flatMap Lexeme.kept ++ withoutComments rest) := by
  induction front generalizing text with
  | nil => exact ⟨text, rfl, h, fun _ => rfl⟩
  | cons l front ih =>
    cases text with
    | nil =>
      rw [lexemes_nil] at h
      cases h
    | cons c cs =>
      rw [lexemes_cons] at h
      obtain ⟨⟨l', left⟩, hnext, hmap⟩ := Option.bind_eq_some_iff.mp h
      obtain ⟨ls, hls, hcons⟩ := Option.map_eq_some_iff.mp hmap
      obtain ⟨rfl, rfl⟩ := List.cons.inj hcons
      obtain ⟨rest, hleft, hrest, hstrip⟩ := ih hls
      refine ⟨rest, ?_, hrest, fun hends => ?_⟩
      · rw [← text_append_nextLexeme hnext, hleft, List.flatMap_cons, List.append_assoc]
      · rw [withoutComments_of_nextLexeme hnext (hends l' List.mem_cons_self),
          hstrip fun l hl => hends l (List.mem_cons_of_mem _ hl), List.flatMap_cons,
          List.append_assoc]

/-! ### Where they part -/

/-- The first three quotes of a text. -/
theorem exists_blockBody (h : [q, q, q] <:+: s) :
    ∃ inner left, s = inner ++ q :: q :: q :: left ∧ BlockBody q inner := by
  induction s with
  | nil => exact absurd h.length_le (by simp)
  | cons c s ih =>
    by_cases hfirst : [q, q, q] <+: c :: s
    · obtain ⟨left, hleft⟩ := hfirst
      exact ⟨[], left, hleft.symm, fun hthree => absurd hthree.length_le (by simp)⟩
    · have hlater := (List.infix_cons_iff.mp h).resolve_left hfirst
      obtain ⟨inner, left, rfl, hinner⟩ := ih hlater
      refine ⟨c :: inner, left, rfl, fun hthree => ?_⟩
      rcases List.infix_cons_iff.mp hthree with hhere | hthere
      · -- three quotes at this place would be the first ones
        apply hfirst
        refine hhere.trans ⟨q :: left, ?_⟩
        simp
      · exact hinner hthere

/-- The lexemes are cut from the whole text. -/
theorem eq_flatMap_of_lexemes {ls : List Lexeme} (h : lexemes text = some ls) :
    text = ls.flatMap Lexeme.text := by
  rw [← List.append_nil ls] at h
  obtain ⟨rest, htext, hrest, -⟩ := lexemes_append h
  cases rest with
  | nil => rw [htext, List.append_nil]
  | cons c cs =>
    rw [lexemes_cons] at hrest
    obtain ⟨⟨l, left⟩, -, hmap⟩ := Option.bind_eq_some_iff.mp hrest
    obtain ⟨ls, -, hcons⟩ := Option.map_eq_some_iff.mp hmap
    cases hcons

/-- Only quotes open blocks. -/
theorem isQuote_of_nextLexeme (h : nextLexeme c cs = some (.block q body, rest)) :
    isQuote q = true := by
  rw [nextLexeme] at h
  split at h
  · cases h
  · split at h
    · next hquote =>
      split at h
      · obtain ⟨⟨body, behind⟩, -, heq⟩ := Option.map_eq_some_iff.mp h
        cases heq
        exact hquote
      · obtain ⟨⟨body, behind⟩, -, heq⟩ := Option.map_eq_some_iff.mp h
        cases heq
    · cases h

/-- A block that holds three of its quotes before its end is left there. -/
theorem withoutComments_cut {back : List Lexeme} (hbody : ¬ BlockBody q body)
    (h : lexemes text = some (.block q body :: back)) :
    ∃ inner left, body ++ [q, q, q] = inner ++ q :: q :: q :: left ∧ BlockBody q inner ∧
      withoutComments text = ' ' :: withoutComments (left ++ back.flatMap Lexeme.text) := by
  have hquote : isQuote q = true := by
    cases text with
    | nil => cases lexemes_nil.symm.trans h
    | cons c cs =>
      rw [lexemes_cons] at h
      obtain ⟨⟨l, left⟩, hnext, hmap⟩ := Option.bind_eq_some_iff.mp h
      obtain ⟨ls, -, hcons⟩ := Option.map_eq_some_iff.mp hmap
      cases hcons
      exact isQuote_of_nextLexeme hnext
  have hthree : [q, q, q] <:+: body ++ [q, q, q] := by
    refine (Classical.not_not.mp hbody).trans ⟨[], [q], ?_⟩
    simp
  obtain ⟨inner, left, hfirst, hinner⟩ := exists_blockBody hthree
  refine ⟨inner, left, hfirst, hinner, ?_⟩
  have htext : text
      = q :: q :: q :: (inner ++ q :: q :: q :: (left ++ back.flatMap Lexeme.text)) := by
    have hwhole := eq_flatMap_of_lexemes h
    rw [List.flatMap_cons, Lexeme.text, hfirst] at hwhole
    simpa using hwhole
  rw [htext, withoutComments_cons, nextPiece_block hquote hinner]
  rfl

/-- **Stripping keeps what the language takes for code and literals, in order, up to the
first block that holds three of its quotes before its end**; there it goes on in the midst of
that block. -/
theorem withoutComments_lexemes {ls : List Lexeme} (h : lexemes text = some ls) :
    text = ls.flatMap Lexeme.text ∧
      ((∀ l ∈ ls, l.EndsFirst) → withoutComments text = ls.flatMap Lexeme.kept) ∧
      ∀ front q body back, ls = front ++ .block q body :: back → (∀ l ∈ front, l.EndsFirst) →
        ¬ BlockBody q body →
        ∃ inner left, body ++ [q, q, q] = inner ++ q :: q :: q :: left ∧ BlockBody q inner ∧
          withoutComments text = front.flatMap Lexeme.kept ++
            ' ' :: withoutComments (left ++ back.flatMap Lexeme.text) := by
  refine ⟨eq_flatMap_of_lexemes h, fun hends => ?_, ?_⟩
  · have hall := h
    rw [← List.append_nil ls] at hall
    obtain ⟨rest, -, hrest, hstrip⟩ := lexemes_append hall
    obtain rfl : rest = [] := eq_flatMap_of_lexemes hrest
    rw [hstrip hends, withoutComments_nil, List.append_nil]
  · rintro front q body back rfl hends hbody
    obtain ⟨rest, -, hrest, hstrip⟩ := lexemes_append h
    obtain ⟨inner, left, hfirst, hinner, hcut⟩ := withoutComments_cut hbody hrest
    exact ⟨inner, left, hfirst, hinner, by rw [hstrip hends, hcut]⟩

/-- A literal with a taken quote, a comment with a quote, and a block with quotes of the other
kind. -/
def mixedQuotes : List Char :=
  "'\\'' #\"\n\"\"\"a'''b\"\"\"".toList

/-- In such a text every lexeme is taken for what it is. -/
theorem withoutComments_mixedQuotes :
    lexemes mixedQuotes = some [.literal '\'' ['\\', '\''], .code ' ', .comment ['"'],
        .code '\n', .block '"' ['a', '\'', '\'', '\'', 'b']] ∧
      withoutComments mixedQuotes = "'\\'' \n ".toList := by
  have hlexemes : lexemes mixedQuotes = some [.literal '\'' ['\\', '\''], .code ' ',
      .comment ['"'], .code '\n', .block '"' ['a', '\'', '\'', '\'', 'b']] := by
    decide +kernel
  refine ⟨hlexemes, ((withoutComments_lexemes hlexemes).2.1 fun l hl => ?_).trans rfl⟩
  simp only [List.mem_cons, List.not_mem_nil, or_false] at hl
  rcases hl with rfl | rfl | rfl | rfl | rfl
  · trivial
  · trivial
  · trivial
  · trivial
  · show ¬ _
    decide

/-- A block with a taken quote and another block, between which the language has an import. -/
def importBetweenBlocks : List Char :=
  "\"\"\"\\\"\"\"'''\"\"\"\nimport multiprocessing\n'''a'''".toList

/-- Stripping takes the import for a part of a block. -/
theorem withoutComments_importBetweenBlocks :
    (lexemes importBetweenBlocks).map (List.flatMap Lexeme.kept)
        = some " \nimport multiprocessing\n ".toList ∧
      withoutComments importBetweenBlocks = "  a'''".toList := by
  decide +kernel

end ScriptRegistry.Source
