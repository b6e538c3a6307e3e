/-
ScriptRegistry/Proofs/Stripping.lean

Texts that are read the same whatever follows.

A quote that nothing closes is code, so a text to come can decide what a quote
was.  A text is settled when nothing in it waits for more: it consists of code,
closed literals, comments with the end of their line, and closed blocks.  Then
its pieces are cut at the same places whatever text comes behind
(`withoutComments_append`), and an unbalanced quote in what follows cannot
swallow any of it.

Main result: `withoutComments_append`.
-/
import ScriptRegistry.Source.Piece

namespace ScriptRegistry.Source

/-! ### Settled texts -/

/-- Whether a character is code by itself. -/
def isPlain (c : Char) : Bool :=
  c != '#' && !isQuote c

/-- What stands between the quotes of a literal on one line. -/
inductive LiteralBody (q : Char) : List Char → Prop
  | nil : LiteralBody q []
  | escaped (d : Char) {body : List Char} (h : LiteralBody q body) :
      LiteralBody q ('\\' :: d :: body)
  | plain {c : Char} {body : List Char} (hquote : c ≠ q) (hslash : c ≠ '\\') (hline : c ≠ '\n')
      (h : LiteralBody q body) : LiteralBody q (c :: body)

/-- What stands between the quotes of a block: no three quotes come before the last three. -/
def BlockBody (q : Char) (body : List Char) : Prop :=
  ¬ [q, q, q] <:+: body ++ [q, q]

/-- A text that consists of whole pieces, and what is kept of it. -/
inductive Settled : List Char → List Char → Prop
  | nil : Settled [] []
  | code {c : Char} {text kept : List Char} (hc : isPlain c = true) (h : Settled text kept) :
      Settled (c :: text) (c :: kept)
  | literal {q : Char} {body text kept : List Char} (hq : isQuote q = true)
      (hbody : LiteralBody q body) (hempty : body = [] → text.head? ≠ some q)
      (h : Settled text kept) :
      Settled (q :: (body ++ q :: text)) (q :: (body ++ q :: kept))
  | comment {comment text kept : List Char} {e : Char}
      (hcomment : ∀ c ∈ comment, isLineEnd c = false) (he : isLineEnd e = true)
      (h : Settled text kept) :
      Settled ('#' :: (comment ++ e :: text)) (e :: kept)
  | block {q : Char} {body text kept : List Char} (hq : isQuote q = true) (hbody : BlockBody q body)
      (h : Settled text kept) :
      Settled (q :: q :: q :: (body ++ q :: q :: q :: text)) (' ' :: kept)

/-! ### The first piece -/

variable {q c : Char} {body rest : List Char}

theorem ne_backslash_of_isQuote (hq : isQuote q = true) : q ≠ '\\' := by
  rintro rfl
  exact absurd hq (by decide)

theorem ne_hash_of_isQuote (hq : isQuote q = true) : q ≠ '#' := by
  rintro rfl
  exact absurd hq (by decide)

theorem isLineEnd_of_isQuote (hq : isQuote q = true) : isLineEnd q = false := by
  rw [isQuote, Bool.or_eq_true, beq_iff_eq, beq_iff_eq] at hq
  rcases hq with rfl | rfl
  · decide
  · decide

theorem ne_lineFeed_of_isQuote (hq : isQuote q = true) : q ≠ '\n' := by
  rintro rfl
  exact absurd hq (by decide)

theorem isPlain_iff : isPlain c = true ↔ c ≠ '#' ∧ isQuote c = false := by
  rw [isPlain, Bool.and_eq_true, bne_iff_ne, Bool.not_eq_true']

/-- The end of a line is code by itself. -/
theorem isPlain_of_isLineEnd (hc : isLineEnd c = true) : isPlain c = true := by
  rw [isLineEnd, Bool.or_eq_true, beq_iff_eq, beq_iff_eq] at hc
  rcases hc with rfl | rfl
  · decide
  · decide

/-- A literal ends at the first quote of its own. -/
theorem readLiteral_body (hq : isQuote q = true) (hbody : LiteralBody q body) :
    readLiteral q (body ++ q :: rest) = some (body ++ [q], rest) := by
  induction hbody with
  | nil =>
    show readLiteral q (q :: rest) = some ([q], rest)
    cases rest with
    | nil => exact if_pos rfl
    | cons d rest => exact (if_neg (ne_backslash_of_isQuote hq)).trans (if_pos rfl)
  | escaped d h ih =>
    show readLiteral q ('\\' :: d :: (_ ++ q :: rest)) = _
    rw [readLiteral, if_pos rfl, ih]
    rfl
  | @plain c body hquote hslash hline h ih =>
    -- the closing quote is still ahead, so the character is not the last one
    obtain ⟨d, after, hafter⟩ : ∃ d after, body ++ q :: rest = d :: after :=
      List.exists_cons_of_ne_nil (by simp)
    rw [List.cons_append, hafter, readLiteral, if_neg hslash, if_neg hquote, if_neg hline, ← hafter,
      ih]
    rfl

/-- A literal opens no block, unless it is empty and a third quote follows. -/
theorem openBlock_body (hbody : LiteralBody q body) (hempty : body = [] → rest.head? ≠ some q)
    (hq : isQuote q = true) : openBlock q (body ++ q :: rest) = none := by
  cases hbody with
  | nil =>
    cases rest with
    | nil => rfl
    | cons d rest =>
      refine if_neg fun hd => hempty rfl ?_
      rw [List.head?_cons, hd.2]
  | escaped d h =>
    exact if_neg fun hd => ne_backslash_of_isQuote hq hd.1.symm
  | @plain c body hquote hslash hline h =>
    obtain ⟨d, after, hafter⟩ : ∃ d after, body ++ q :: rest = d :: after :=
      List.exists_cons_of_ne_nil (by simp)
    rw [List.cons_append, hafter]
    exact if_neg fun hd => hquote hd.1

/-- A block is looked for from one character on, or else from the next. -/
theorem readBlock_cons (q c : Char) (rest : List Char) :
    readBlock q (c :: rest) = if [q, q, q] <+: c :: rest then some ([q, q, q], rest.drop 2)
      else (readBlock q rest).map fun (body, after) => (c :: body, after) := by
  rcases rest with - | ⟨a, - | ⟨b, rest⟩⟩
  · simp [readBlock]
  · simp [readBlock]
  · rw [readBlock]
    by_cases h : c = q ∧ a = q ∧ b = q
    · obtain ⟨rfl, rfl, rfl⟩ := h
      simp
    · rw [if_neg h, if_neg]
      rintro ⟨after, hafter⟩
      simp only [List.cons_append, List.cons.injEq] at hafter
      exact h ⟨hafter.1.symm, hafter.2.1.symm, hafter.2.2.1.symm⟩

/-- A block ends at its first three quotes. -/
theorem readBlock_body (hbody : BlockBody q body) :
    readBlock q (body ++ q :: q :: q :: rest) = some (body ++ [q, q, q], rest) := by
  induction body with
  | nil =>
    rw [List.nil_append, readBlock_cons, if_pos ⟨rest, rfl⟩]
    rfl
  | cons c body ih =>
    have hfront : c :: body ++ [q, q] <+: c :: body ++ q :: q :: q :: rest :=
      ⟨q :: rest, by simp⟩
    -- three quotes at this place would have ended the block before
    have hnot : ¬ [q, q, q] <+: c :: (body ++ q :: q :: q :: rest) := by
      intro hthree
      apply hbody
      have hshort := List.prefix_of_prefix_length_le hthree hfront (by simp)
      exact hshort.isInfix
    have hlater : BlockBody q body := by
      intro hthree
      exact hbody (hthree.trans (List.suffix_cons c _).isInfix)
    rw [List.cons_append, readBlock_cons, if_neg hnot, ih hlater]
    rfl

theorem nextPiece_plain (hc : isPlain c = true) : nextPiece c rest = (.code c, rest) := by
  obtain ⟨hhash, hquote⟩ := isPlain_iff.mp hc
  rw [nextPiece, if_neg hhash, if_neg (by simp [hquote])]

theorem nextPiece_literal (hq : isQuote q = true) (hbody : LiteralBody q body)
    (hempty : body = [] → rest.head? ≠ some q) :
    nextPiece q (body ++ q :: rest) = (.literal (q :: (body ++ [q])), rest) := by
  rw [nextPiece, if_neg (ne_hash_of_isQuote hq), if_pos hq, openBlock_body hbody hempty hq,
    readLiteral_body hq hbody]

theorem nextPiece_comment {comment : List Char} {e : Char}
    (hcomment : ∀ c ∈ comment, isLineEnd c = false) (he : isLineEnd e = true) :
    nextPiece '#' (comment ++ e :: rest) = (.comment ('#' :: comment), e :: rest) := by
  have hall : ∀ c ∈ comment, (!isLineEnd c) = true := fun c hc => by rw [hcomment c hc]; rfl
  rw [nextPiece, if_pos rfl, List.takeWhile_append_of_pos hall, List.dropWhile_append_of_pos hall]
  simp [he]

theorem nextPiece_block (hq : isQuote q = true) (hbody : BlockBody q body) :
    nextPiece q (q :: q :: (body ++ q :: q :: q :: rest))
      = (.block (q :: q :: q :: (body ++ [q, q, q])), rest) := by
  have hopen : openBlock q (q :: q :: (body ++ q :: q :: q :: rest))
      = some (q :: q :: (body ++ [q, q, q]), rest) := by
    rw [openBlock, if_pos ⟨rfl, rfl⟩, readBlock_body hbody]
    rfl
  rw [nextPiece, if_neg (ne_hash_of_isQuote hq), if_pos hq, hopen]

/-! ### The whole text -/

@[simp]
theorem withoutComments_nil : withoutComments [] = [] := by
  rw [withoutComments, pieces]
  rfl

theorem withoutComments_cons (c : Char) (rest : List Char) : withoutComments (c :: rest)
    = (nextPiece c rest).1.kept ++ withoutComments (nextPiece c rest).2 := by
  rw [withoutComments, pieces, List.flatMap_cons, withoutComments]

theorem withoutComments_plain (hc : isPlain c = true) :
    withoutComments (c :: rest) = c :: withoutComments rest := by
  rw [withoutComments_cons, nextPiece_plain hc]
  rfl

/-- The last character of a text is that of its last part. -/
theorem getLast?_of_append (front : List Char) {text : List Char} {d : Char}
    (h : text.getLast? = some d) :
    (front ++ text).getLast? = some d := by
  rw [List.getLast?_append, h]
  rfl

/-- **What is kept of a settled text does not depend on the text behind it.** -/
theorem withoutComments_append {text kept : List Char} (h : Settled text kept)
    (hrest : ∀ q, isQuote q = true → text.getLast? = some q → rest.head? ≠ some q) :
    withoutComments (text ++ rest) = kept ++ withoutComments rest := by
  induction h with
  | nil => rfl
  | @code c text kept hc h ih =>
    have hrest := ih fun q hq hlast => hrest q hq (getLast?_of_append [c] hlast)
    rw [List.cons_append, withoutComments_plain hc, hrest]
    rfl
  | @literal q body text kept hq hbody hempty h ih =>
    have hnext : body = [] → (text ++ rest).head? ≠ some q := by
      -- where the settled text ends with the literal, the text behind must not go on with it
      intro hnil
      cases text with
      | nil => exact hrest q hq (getLast?_of_append (q :: body) rfl)
      | cons d text => exact hempty hnil
    have hrest := ih fun q' hq' hlast => hrest q' hq'
      (getLast?_of_append (q :: body) (getLast?_of_append [q] hlast))
    have hsplit : q :: (body ++ q :: text) ++ rest = q :: (body ++ q :: (text ++ rest)) := by simp
    rw [hsplit, withoutComments_cons, nextPiece_literal hq hbody hnext]
    simp only [Piece.kept]
    rw [hrest]
    simp
  | @comment comment text kept e hcomment he h ih =>
    have hrest := ih fun q hq hlast => hrest q hq
      (getLast?_of_append ('#' :: comment) (getLast?_of_append [e] hlast))
    have hsplit : '#' :: (comment ++ e :: text) ++ rest
        = '#' :: (comment ++ e :: (text ++ rest)) := by simp
    rw [hsplit, withoutComments_cons, nextPiece_comment hcomment he]
    simp only [Piece.kept, List.nil_append]
    -- the end of the line is no part of the comment
    rw [withoutComments_plain (isPlain_of_isLineEnd he), hrest]
    rfl
  | @block q body text kept hq hbody h ih =>
    have hrest := ih fun q' hq' hlast => hrest q' hq'
      (getLast?_of_append (q :: q :: q :: body)
        (getLast?_of_append [q, q, q] hlast))
    have hsplit : q :: q :: q :: (body ++ q :: q :: q :: text) ++ rest
        = q :: q :: q :: (body ++ q :: q :: q :: (text ++ rest)) := by simp
    rw [hsplit, withoutComments_cons, nextPiece_block hq hbody]
    simp only [Piece.kept]
    rw [hrest]
    rfl

theorem Settled.of_plain {w text kept : List Char} (hw : ∀ c ∈ w, isPlain c = true)
    (h : Settled text kept) : Settled (w ++ text) (w ++ kept) := by
  induction w with
  | nil => exact h
  | cons c w ih =>
    apply Settled.code (hw c List.mem_cons_self)
    exact ih fun d hd => hw d (List.mem_cons_of_mem _ hd)

theorem getLast?_append_cons (front : List Char) (c : Char) (text : List Char) :
    (front ++ c :: text).getLast? = some (text.getLast?.getD c) := by
  rw [List.getLast?_append, List.getLast?_cons, Option.some_or]

/-- Whether the last character of a text is kept, or the text ends with a block. -/
def SameEnd (text kept : List Char) : Prop :=
  kept.getLast? = text.getLast? ∨
    kept.getLast? = some ' ' ∧ ∃ q, isQuote q = true ∧ text.getLast? = some q

theorem SameEnd.append {text kept : List Char} (h : SameEnd text kept) (front front' : List Char)
    (c : Char) : SameEnd (front ++ c :: text) (front' ++ c :: kept) := by
  rw [SameEnd, getLast?_append_cons, getLast?_append_cons]
  rcases h with hkept | ⟨hkept, q, hq, htext⟩
  · left
    rw [hkept]
  · right
    rw [hkept, htext]
    exact ⟨rfl, q, hq, rfl⟩

/-- A settled text ends as it is kept, unless it ends with a block. -/
theorem Settled.sameEnd {text kept : List Char} (h : Settled text kept) : SameEnd text kept := by
  induction h with
  | nil => exact Or.inl rfl
  | @code c text kept hc h ih => exact ih.append [] [] c
  | @literal q body text kept hq hbody hempty h ih => exact ih.append (q :: body) (q :: body) q
  | @comment comment text kept e hcomment he h ih => exact ih.append ('#' :: comment) [] e
  | @block q body text kept hq hbody h ih =>
    have hsplit : q :: q :: q :: (body ++ q :: q :: q :: text)
        = (q :: q :: q :: (body ++ [q, q])) ++ q :: text := by simp
    rw [SameEnd, hsplit, getLast?_append_cons, List.getLast?_cons]
    rcases ih with hkept | ⟨hkept, q', hq', htext⟩
    · rw [hkept]
      cases text.getLast? with
      | none => exact Or.inr ⟨rfl, q, hq, rfl⟩
      | some d => exact Or.inl rfl
    · rw [hkept, htext]
      exact Or.inr ⟨rfl, q', hq', rfl⟩

/-- A line feed at the end of a settled text is kept, since it ends neither a literal nor
a block. -/
theorem Settled.lineFeed {text kept : List Char} (h : Settled text kept) :
    (text = [] → kept = []) ∧ (text.getLast? = some '\n' → kept.getLast? = some '\n') := by
  refine ⟨fun hnil => ?_, fun hend => ?_⟩
  · subst hnil
    cases h
    rfl
  · rcases h.sameEnd with hkept | ⟨-, q, hq, htext⟩
    · rw [hkept, hend]
    · rw [hend] at htext
      exact absurd (Option.some.inj htext).symm (ne_lineFeed_of_isQuote hq)

end ScriptRegistry.Source
