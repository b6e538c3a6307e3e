/-
ScriptRegistry/Proofs/Lexemewise.lean

Stripping takes a text lexeme by lexeme, and what it drops decides nothing.

A text may be put together from lexemes instead of being read.  It has to be cut
well (`WellCut`): no lexeme may run on into the text behind it.  A comment must be
followed by the end of its line, and an empty literal must not be followed by its
own quote, which would make a block of it; code, other literals and blocks stand
before anything.

One lexeme that stands before a text is stripped by itself
(`withoutComments_lexeme`), and so are all of them one after the other.  What is
left is again well cut into lexemes, so that nothing more is stripped from it; and
it does not show what a comment or a block held.

Main result: `withoutComments_lexemewise`.
-/
import ScriptRegistry.Proofs.Lexing
import ScriptRegistry.Source.Analysis

namespace ScriptRegistry.Source

/-! ### Texts of lexemes -/

namespace Lexeme

/-- The lexeme is one, and it ends where the given text begins. -/
def StandsBefore (rest : List Char) : Lexeme → Prop
  | code c => isPlain c = true
  | comment text => (∀ c ∈ text, isLineEnd c = false) ∧
      ∀ c, rest.head? = some c → isLineEnd c = true
  | literal q body => isQuote q = true ∧ LiteralBody q body ∧ (body = [] → rest.head? ≠ some q)
  | block q body => isQuote q = true ∧ BlockBody q body

/-- The lexeme without what a comment or a block holds. -/
def outline : Lexeme → Lexeme
  | code c => code c
  | comment _ => comment []
  | literal q body => literal q body
  | block q _ => block q []

/-- The lexemes that stripping leaves of one. -/
def stripped : Lexeme → List Lexeme
  | code c => [code c]
  | comment _ => []
  | literal q body => [literal q body]
  | block _ _ => [code ' ']

theorem kept_outline (l : Lexeme) : l.outline.kept = l.kept := by
  cases l <;> rfl

theorem text_stripped (l : Lexeme) : l.stripped.flatMap text = l.kept := by
  cases l <;> simp [stripped, text, kept]

theorem kept_stripped (l : Lexeme) : l.stripped.flatMap kept = l.kept := by
  cases l <;> simp [stripped, kept]

end Lexeme

/-- Every lexeme ends where the next one begins, and the last one where the given text begins. -/
def WellCut : List Lexeme → List Char → Prop
  | [], _ => True
  | l :: ls, rest => l.StandsBefore (ls.flatMap Lexeme.text ++ rest) ∧ WellCut ls rest

variable {l : Lexeme} {ls ls' : List Lexeme} {rest : List Char}

/-! ### One after the other -/

/-- A lexeme that stands before a text is stripped by itself. -/
theorem withoutComments_lexeme (h : l.StandsBefore rest) :
    withoutComments (l.text ++ rest) = l.kept ++ withoutComments rest := by
  cases l with
  | code c => exact withoutComments_plain h
  | comment text =>
    obtain ⟨htext, hend⟩ := h
    have hall : ∀ c ∈ text, (!isLineEnd c) = true := by
      intro c hc
      rw [htext c hc]
      rfl
    have htake : (text ++ rest).takeWhile (fun c => !isLineEnd c) = text := by
      rw [List.takeWhile_append_of_pos hall]
      cases rest with
      | nil => simp
      | cons c rest => simp [hend c rfl]
    have hdrop : (text ++ rest).dropWhile (fun c => !isLineEnd c) = rest := by
      rw [List.dropWhile_append_of_pos hall]
      cases rest with
      | nil => simp
      | cons c rest => simp [hend c rfl]
    show withoutComments ('#' :: (text ++ rest)) = _
    rw [withoutComments_cons, nextPiece, if_pos rfl, htake, hdrop]
    rfl
  | literal q body =>
    obtain ⟨hquote, hbody, hempty⟩ := h
    have hsplit : (Lexeme.literal q body).text ++ rest = q :: (body ++ q :: rest) := by
      simp [Lexeme.text]
    rw [hsplit, withoutComments_cons, nextPiece_literal hquote hbody hempty]
    rfl
  | block q body =>
    obtain ⟨hquote, hbody⟩ := h
    have hsplit : (Lexeme.block q body).text ++ rest
        = q :: q :: q :: (body ++ q :: q :: q :: rest) := by
      simp [Lexeme.text]
    rw [hsplit, withoutComments_cons, nextPiece_block hquote hbody]
    rfl

/-- **A text that is cut well is stripped lexeme by lexeme.** -/
theorem withoutComments_wellCut (h : WellCut ls rest) :
    withoutComments (ls.flatMap Lexeme.text ++ rest)
      = ls.flatMap Lexeme.kept ++ withoutComments rest := by
  induction ls with
  | nil => rfl
  | cons l ls ih =>
    rw [List.flatMap_cons, List.append_assoc, withoutComments_lexeme h.1, ih h.2, List.flatMap_cons,
      List.append_assoc]

theorem withoutComments_lexemes_eq (h : WellCut ls []) :
    withoutComments (ls.flatMap Lexeme.text) = ls.flatMap Lexeme.kept := by
  have hstrip := withoutComments_wellCut h
  simpa using hstrip

/-! ### Before any text -/

/-- Only code ends with a line feed. -/
theorem eq_code_of_getLast? (h : l.text.getLast? = some '\n') (hl : l.StandsBefore rest) :
    l = .code '\n' := by
  cases l with
  | code c =>
    obtain rfl : c = '\n' := by simpa [Lexeme.text] using h
    rfl
  | comment text =>
    -- the line feed would be a part of the comment
    have hmem : '\n' ∈ '#' :: text := List.mem_of_getLast? h
    rcases List.mem_cons.mp hmem with hhash | hmem
    · exact absurd hhash (by decide)
    · exact absurd (hl.1 _ hmem) (by decide)
  | literal q body =>
    obtain rfl : q = '\n' := by simpa [Lexeme.text, List.getLast?_cons] using h
    exact absurd hl.1 (by decide)
  | block q body =>
    obtain rfl : q = '\n' := by simpa [Lexeme.text, List.getLast?_cons] using h
    exact absurd hl.1 (by decide)

/-- Behind a text that is there, another one changes nothing. -/
theorem Lexeme.StandsBefore.append {c : Char} {text : List Char} (h : l.StandsBefore (c :: text))
    (rest : List Char) : l.StandsBefore (c :: text ++ rest) := by
  cases l <;> exact h

/-- Lexemes that end with a line feed stand before any text. -/
theorem WellCut.before (h : WellCut ls [])
    (hend : ls = [] ∨ (ls.flatMap Lexeme.text).getLast? = some '\n') (rest : List Char) :
    WellCut ls rest := by
  induction ls with
  | nil => trivial
  | cons l ls ih =>
    obtain ⟨hl, hls⟩ := h
    have hend := hend.resolve_left (List.cons_ne_nil _ _)
    rw [List.flatMap_cons] at hend
    cases ls with
    | nil =>
      rw [List.flatMap_nil, List.append_nil] at hend
      obtain rfl := eq_code_of_getLast? hend hl
      exact ⟨hl, trivial⟩
    | cons next ls =>
      obtain ⟨c, text, htext⟩ : ∃ c text, (next :: ls).flatMap Lexeme.text = c :: text :=
        List.exists_cons_of_ne_nil (by simp [Lexeme.text_ne_nil])
      rw [htext] at hend hl
      refine ⟨?_, ih hls (Or.inr ?_)⟩
      · rw [htext]
        rw [List.append_nil] at hl
        exact hl.append rest
      · rw [htext, ← hend, List.getLast?_append, List.getLast?_cons, Option.some_or]

/-! ### Twice -/

/-- Only code begins with the end of a line. -/
theorem eq_code_of_head? {e : Char} (he : isLineEnd e = true) (h : l.text.head? = some e)
    (hl : l.StandsBefore rest) : l = .code e := by
  cases l with
  | code c =>
    obtain rfl : c = e := Option.some.inj h
    rfl
  | comment text =>
    obtain rfl : '#' = e := Option.some.inj h
    exact absurd he (by decide)
  | literal q body =>
    obtain rfl : q = e := Option.some.inj h
    exact absurd he (by simp [isLineEnd_of_isQuote hl.1])
  | block q body =>
    obtain rfl : q = e := Option.some.inj h
    exact absurd he (by simp [isLineEnd_of_isQuote hl.1])

/-- A quote at the head of what is left is one at the head of the text. -/
theorem head?_of_kept (h : WellCut ls []) {q : Char} (hq : isQuote q = true)
    (hhead : (ls.flatMap Lexeme.kept).head? = some q) :
    (ls.flatMap Lexeme.text).head? = some q := by
  cases ls with
  | nil => cases hhead
  | cons l ls =>
    cases l with
    | code c => exact hhead
    | literal q' body => exact hhead
    | block q' body =>
      obtain rfl : ' ' = q := Option.some.inj hhead
      exact absurd hq (by decide)
    | comment text =>
      -- behind a comment stands the end of its line, which is kept, or nothing
      obtain ⟨⟨-, hend⟩, hls⟩ := h
      cases ls with
      | nil => cases hhead
      | cons next ls =>
        obtain ⟨e, text', htext⟩ := List.exists_cons_of_ne_nil next.text_ne_nil
        have he : isLineEnd e = true := hend e (by simp [htext])
        obtain rfl := eq_code_of_head? he (by rw [htext]; rfl) hls.1
        obtain rfl : e = q := Option.some.inj hhead
        rw [isLineEnd_of_isQuote hq] at he
        cases he

theorem flatMap_text_stripped (ls : List Lexeme) :
    (ls.flatMap Lexeme.stripped).flatMap Lexeme.text = ls.flatMap Lexeme.kept := by
  simp only [List.flatMap_assoc, Lexeme.text_stripped]

theorem flatMap_kept_stripped (ls : List Lexeme) :
    (ls.flatMap Lexeme.stripped).flatMap Lexeme.kept = ls.flatMap Lexeme.kept := by
  simp only [List.flatMap_assoc, Lexeme.kept_stripped]

/-- What is left of lexemes that are cut well is cut well. -/
theorem WellCut.stripped (h : WellCut ls []) : WellCut (ls.flatMap Lexeme.stripped) [] := by
  induction ls with
  | nil => trivial
  | cons l ls ih =>
    obtain ⟨hl, hls⟩ := h
    rw [List.flatMap_cons]
    cases l with
    | code c => exact ⟨hl, ih hls⟩
    | comment text => exact ih hls
    | block q body => exact ⟨(rfl : isPlain ' ' = true), ih hls⟩
    | literal q body =>
      obtain ⟨hquote, hbody, hempty⟩ := hl
      refine ⟨⟨hquote, hbody, fun hnil hhead => hempty hnil ?_⟩, ih hls⟩
      -- an empty literal does not come to stand before its quote
      have hkept : (ls.flatMap Lexeme.kept).head? = some q := by
        rw [← flatMap_text_stripped, ← hhead, List.append_nil]
        rfl
      rw [List.append_nil]
      exact head?_of_kept hls hquote hkept

/-! ### What is dropped -/

/-- What is left does not show what comments and blocks held. -/
theorem flatMap_kept_of_outline (h : ls'.map Lexeme.outline = ls.map Lexeme.outline) :
    ls'.flatMap Lexeme.kept = ls.flatMap Lexeme.kept := by
  have hkept : ∀ ls : List Lexeme,
      ls.flatMap Lexeme.kept = (ls.map Lexeme.outline).flatMap Lexeme.kept := by
    intro ls
    simp only [List.flatMap_map, Lexeme.kept_outline]
  rw [hkept ls', h, ← hkept ls]

/-- **A text that is cut well is stripped lexeme by lexeme**: code and literals stay, a comment
goes, and a block leaves a space.  If the text is empty or ends with a line feed, whatever comes
behind it is stripped by itself.  Nothing is stripped a second time; and texts that differ
only in what their comments and blocks hold have the same violations of every policy. -/
theorem withoutComments_lexemewise (h : WellCut ls []) :
    withoutComments (ls.flatMap Lexeme.text) = ls.flatMap Lexeme.kept ∧
      ((ls = [] ∨ (ls.flatMap Lexeme.text).getLast? = some '\n') → ∀ rest,
        withoutComments (ls.flatMap Lexeme.text ++ rest)
          = withoutComments (ls.flatMap Lexeme.text) ++ withoutComments rest) ∧
      withoutComments (withoutComments (ls.flatMap Lexeme.text))
        = withoutComments (ls.flatMap Lexeme.text) ∧
      ∀ ls', WellCut ls' [] → ls'.map Lexeme.outline = ls.map Lexeme.outline →
        ∀ policy className, violations (ls'.flatMap Lexeme.text) policy className
          = violations (ls.flatMap Lexeme.text) policy className := by
  have hkept := withoutComments_lexemes_eq h
  refine ⟨hkept, ?_, ?_, ?_⟩
  · intro hend rest
    rw [withoutComments_wellCut (h.before hend rest), hkept]
  · have hagain := withoutComments_lexemes_eq h.stripped
    rw [flatMap_text_stripped, flatMap_kept_stripped] at hagain
    rw [hkept, hagain]
  · intro ls' h' houtline policy className
    have hkept' := withoutComments_lexemes_eq h'
    rw [violations, violations, hkept, hkept', flatMap_kept_of_outline houtline]

/-- An empty literal before a block, a comment, and a literal with a taken quote; the block and
the comment hold what is given. -/
def literalsAround (block comment : List Char) : List Lexeme :=
  [.literal '\'' [], .block '"' block, .comment comment, .code '\r', .literal '"' ['\\', '"'],
    .code '\n']

theorem wellCut_literalsAround {block comment : List Char} (hblock : BlockBody '"' block)
    (hcomment : ∀ c ∈ comment, isLineEnd c = false) :
    WellCut (literalsAround block comment) [] := by
  refine ⟨⟨rfl, .nil, fun _ hhead => ?_⟩, ⟨rfl, hblock⟩, ⟨hcomment, fun c hc => ?_⟩, rfl,
    ⟨rfl, .escaped '"' .nil, fun hnil => ?_⟩, rfl, trivial⟩
  · exact absurd (Option.some.inj hhead) (by decide)
  · obtain rfl := Option.some.inj hc
    rfl
  · cases hnil

/-- Quotes of the other kind and a number sign in the block, and quotes in the comment, change
neither what is left nor the violations. -/
theorem withoutComments_lexemewise_literalsAround :
    let plain := literalsAround [] []
    let tricky := literalsAround ['\'', '\'', '\'', '#'] ['\'', '"']
    WellCut plain [] ∧ WellCut tricky [] ∧
      withoutComments (tricky.flatMap Lexeme.text)
        = ['\'', '\'', ' ', '\r', '"', '\\', '"', '"', '\n'] ∧
      violations (tricky.flatMap Lexeme.text) .main "A"
        = violations (plain.flatMap Lexeme.text) .main "A" := by
  have hplain : WellCut (literalsAround [] []) [] :=
    wellCut_literalsAround (show ¬ _ by decide) (by simp [isLineEnd])
  have htricky : WellCut (literalsAround ['\'', '\'', '\'', '#'] ['\'', '"']) [] :=
    wellCut_literalsAround (show ¬ _ by decide) (by simp [isLineEnd])
  obtain ⟨hleft, -⟩ := withoutComments_lexemewise htricky
  obtain ⟨-, -, -, hsame⟩ := withoutComments_lexemewise hplain
  exact ⟨hplain, htricky, hleft, hsame _ htricky rfl .main "A"⟩

end ScriptRegistry.Source
