/-
ScriptRegistry/Proofs/Evasion.lean

Two ways of writing an import that the patterns do not know.

In the language of the scripts a statement goes on behind a backslash at the end
of a line, where a blank might stand as well.  No pattern has a place for a
backslash, so a line that is joined to the next is read as two texts: an import is
still found if its keyword and its library are on the same side, and lost if it
runs across (`forbiddenLibrary_joined_iff`).

A library that is imported by a call may be quoted in four ways.  In a literal on
one line it is found.  A block is stripped before anything is looked for, so a
call with a block is read as a call with a blank (`forbiddenLibrary_quoted`).

Main results: `forbiddenLibrary_joined_iff` and `forbiddenLibrary_quoted`.
-/
import ScriptRegistry.Proofs.ImportLine

namespace ScriptRegistry.Source

open Text

/-! ### Violations -/

/-- A library that is forbidden and used is a violation, whatever the class is. -/
theorem forbiddenLibrary_mem_violations_iff {library className : String} {text : List Char}
    {policy : Policy} : .forbiddenLibrary library ∈ violations text policy className ↔
      library ∈ policy.forbidden ∧ usesLibrary (withoutComments text) library = true := by
  have hclass : Violation.forbiddenLibrary library ∉
      (classViolation? (withoutComments text) className policy.baseClass).toList := by
    rw [classViolation?]
    split
    · simp
    · split <;> simp
  rw [violations, List.mem_append, or_iff_left hclass, forbiddenLibrary_mem_iff]

/-- Code behind a settled text is kept. -/
theorem withoutComments_code {front kept : List Char} (h : Settled front kept) {c : Char}
    (hc : isPlain c = true) (rest : List Char) :
    withoutComments (front ++ c :: rest) = kept ++ c :: withoutComments rest := by
  rw [withoutComments_append h, withoutComments_plain hc]
  intro q hq _ hhead
  obtain rfl : c = q := Option.some.inj hhead
  cases hq.symm.trans (isPlain_iff.mp hc).2

/-- Blanks are code by themselves. -/
theorem isPlain_of_isBlank {c : Char} (h : isBlank c = true) : isPlain c = true := by
  rw [isPlain_iff, isQuote, Bool.or_eq_false_iff, beq_eq_false_iff_ne, beq_eq_false_iff_ne]
  refine ⟨?_, ?_, ?_⟩ <;> rintro rfl <;> exact absurd h (by decide)

/-- Blanks belong to no word. -/
theorem isWord_of_isBlank {c : Char} (h : isBlank c = true) : isWord c = false := by
  have hpoint : c.toNat ∈ [9, 10, 11, 12, 13, 32, 0x85, 0xa0, 0x1680, 0x2000, 0x2001, 0x2002,
      0x2003, 0x2004, 0x2005, 0x2006, 0x2007, 0x2008, 0x2009, 0x200a, 0x2028, 0x2029, 0x202f,
      0x205f, 0x3000] := by
    simp only [isBlank, Bool.or_eq_true, Bool.and_eq_true, decide_eq_true_eq, beq_iff_eq] at h
    simp only [List.mem_cons, List.not_mem_nil, or_false]
    omega
  rw [← Char.ofNat_toNat c]
  revert hpoint
  generalize c.toNat = n
  revert n
  decide +kernel

/-! ### Cut texts -/

/-- A stretch of text around the character imports the library. -/
def UsedAcross (library : String) (u : List Char) (c : Char) (v : List Char) : Prop :=
  (staticImport library).OccursAcross u c v ∨ (dynamicImport library).OccursAcross u c v

variable {library : String} {c : Char} {u v w rest : List Char} {before : Option Char}

/-- A character that belongs to no word cuts a text into two. -/
theorem usesLibrary_cons_iff (hc : isWord c = false) (u v : List Char) :
    usesLibrary (u ++ c :: v) library = true ↔
      usesLibrary u library = true ∨ usesLibrary v library = true ∨ UsedAcross library u c v := by
  simp only [usesLibrary, importsStatically, importsDynamically, Bool.or_eq_true,
    Pattern.occursIn_cons_iff hc, UsedAcross]
  constructor
  · rintro ((h | h | h) | h | h | h) <;> simp [h]
  · rintro ((h | h) | (h | h) | h | h) <;> simp [h]

/-- An import begins with a word. -/
theorem isWord_of_fits (h : (staticImport library).Fits before w rest ∨
    (dynamicImport library).Fits before w rest) : w.head?.any isWord = true := by
  rcases h with (h | h) | h
  · obtain ⟨u, v, rfl, ⟨a, b, rfl, ⟨rfl, -⟩, rfl⟩, -⟩ := h
    rfl
  · obtain ⟨u, v, rfl, ⟨a, b, rfl, ⟨rfl, -⟩, rfl⟩, -⟩ := h
    rfl
  · obtain ⟨a, v, rfl, ⟨rfl, -⟩, callee, v', rfl, hcallee, -⟩ := h
    rcases hcallee with rfl | rfl <;> rfl

/-- What belongs to no word is no part of an import behind it. -/
theorem usesLibrary_cons (hc : isWord c = false) :
    usesLibrary (c :: v) library = true ↔ usesLibrary v library = true := by
  have hempty : usesLibrary [] library ≠ true := by
    rw [ne_eq, usesLibrary, Bool.or_eq_true, importsStatically, importsDynamically,
      Pattern.occursIn_iff, Pattern.occursIn_iff]
    have hnone : ∀ {front w rest : List Char}, [] = front ++ w ++ rest → w = [] := by
      intro front w rest h
      simp only [List.nil_eq, List.append_eq_nil_iff] at h
      exact h.1.2
    rintro (⟨front, w, rest, heq, h⟩ | ⟨front, w, rest, heq, h⟩)
    · obtain rfl := hnone heq
      cases isWord_of_fits (Or.inl h)
    · obtain rfl := hnone heq
      cases isWord_of_fits (Or.inr h)
  have hacross : ¬ UsedAcross library [] c v := by
    have hfirst : ∀ {w}, (c :: w : List Char).head?.any isWord ≠ true := by
      intro w h
      rw [List.head?_cons, Option.any_some, hc] at h
      cases h
    rintro (⟨front, w₁, w₂, rest, heq, rfl, h⟩ | ⟨front, w₁, w₂, rest, heq, rfl, h⟩)
    · obtain ⟨rfl, rfl⟩ := List.append_eq_nil_iff.mp heq.symm
      exact hfirst (isWord_of_fits (Or.inl h))
    · obtain ⟨rfl, rfl⟩ := List.append_eq_nil_iff.mp heq.symm
      exact hfirst (isWord_of_fits (Or.inr h))
  rw [← List.nil_append (c :: v), usesLibrary_cons_iff hc, or_iff_right hempty,
    or_iff_left hacross]

/-! ### Joined lines -/

/-- No import has a place for a backslash, unless the name of the library has one. -/
theorem not_usedAcross_backslash (h : '\\' ∉ library.toList) (u v : List Char) :
    ¬ UsedAcross library u '\\' v := by
  have hblank : isBlank '\\' = false := by decide
  have hword : isWord '\\' = false := by decide
  have hstatic : (staticImport library).Avoids '\\' := by
    simp [staticImport, listedModule, keyword, libraryName, blanks, anyBlanks, Pattern.all,
      Pattern.some, Pattern.optional, Pattern.Avoids, hblank, hword, h]
  have hdynamic : (dynamicImport library).Avoids '\\' := by
    simp [dynamicImport, libraryName, anyBlanks, Pattern.all, Pattern.Avoids, hblank, h]
  rintro (hacross | hacross)
  · exact hstatic.not_occursAcross u v hacross
  · exact hdynamic.not_occursAcross u v hacross

/-- Two joined lines import what one of them imports. -/
theorem usesLibrary_joined_iff (h : '\\' ∉ library.toList) (u v : List Char) :
    usesLibrary (u ++ '\\' :: '\n' :: v) library = true ↔
      usesLibrary u library = true ∨ usesLibrary v library = true := by
  have hslash : isWord '\\' = false := by decide
  have hfeed : isWord '\n' = false := by decide
  rw [usesLibrary_cons_iff hslash, or_iff_left (not_usedAcross_backslash h _ _),
    usesLibrary_cons hfeed]

/-- **Where a blank in the code is replaced by a joining of lines, the imports that are
found are those in front of it and those behind it; of the imports that were found before
those are lost that run across the blank.** -/
theorem forbiddenLibrary_joined_iff (hlibrary : '\\' ∉ library.toList) {front kept : List Char}
    (hfront : Settled front kept) {blank : Char} (hblank : isBlank blank = true)
    (rest : List Char) (policy : Policy) (className : String) :
    (.forbiddenLibrary library ∈ violations (front ++ '\\' :: '\n' :: rest) policy className ↔
      library ∈ policy.forbidden ∧ (usesLibrary kept library = true ∨
        usesLibrary (withoutComments rest) library = true)) ∧
    (.forbiddenLibrary library ∈ violations (front ++ blank :: rest) policy className ↔
      .forbiddenLibrary library ∈ violations (front ++ '\\' :: '\n' :: rest) policy className ∨
        library ∈ policy.forbidden ∧
          UsedAcross library kept blank (withoutComments rest)) := by
  have hword := isWord_of_isBlank hblank
  have hjoined : .forbiddenLibrary library ∈ violations (front ++ '\\' :: '\n' :: rest) policy
      className ↔ library ∈ policy.forbidden ∧ (usesLibrary kept library = true ∨
        usesLibrary (withoutComments rest) library = true) := by
    rw [forbiddenLibrary_mem_violations_iff, withoutComments_code hfront (by decide),
      withoutComments_plain (by decide), usesLibrary_joined_iff hlibrary]
  refine ⟨hjoined, ?_⟩
  rw [hjoined, forbiddenLibrary_mem_violations_iff,
    withoutComments_code hfront (isPlain_of_isBlank hblank), usesLibrary_cons_iff hword,
    ← and_or_left, or_assoc]

/-- Behind the name of the library a line may be joined. -/
theorem forbiddenLibrary_joined_alias :
    '\\' ∉ "multiprocessing".toList ∧ isBlank ' ' = true ∧
      .forbiddenLibrary "multiprocessing" ∈
        violations "import multiprocessing\\\nas m\n".toList .main "A" := by
  have hlibrary : '\\' ∉ "multiprocessing".toList := by decide
  have hfront : Settled "import multiprocessing".toList "import multiprocessing".toList :=
    settled_of_isPlain (List.all_eq_true.mp rfl)
  have hblank : isBlank ' ' = true := by decide
  have hused : usesLibrary "import multiprocessing".toList "multiprocessing" = true := by
    decide +kernel
  refine ⟨hlibrary, hblank, ?_⟩
  exact (forbiddenLibrary_joined_iff hlibrary hfront hblank "as m\n".toList .main "A").1.mpr
    ⟨List.mem_singleton_self _, Or.inl hused⟩

/-- A script that keeps the default policy, behind lines of its own. -/
def scriptWith (lines : String) : List Char :=
  lines.toList ++ "\nimport opalalgorithms\nclass A(OPALAlgorithm):\n    pass\n".toList

/-- A script that imports a forbidden library on one line. -/
def importOnOneLine : List Char :=
  scriptWith "import multiprocessing"

/-- The same script, with the line of the import joined from two. -/
def importOnJoinedLines : List Char :=
  scriptWith "import \\\nmultiprocessing"

/-- In front of the name a joined line hides it. -/
theorem violations_importOnJoinedLines :
    violations importOnOneLine .main "A" = [.forbiddenLibrary "multiprocessing"] ∧
      violations importOnJoinedLines .main "A" = [] := by
  decide +kernel

/-! ### Quoted names -/

/-- A call behind a settled text is kept up to its argument, whatever that is. -/
theorem withoutComments_call {front kept callee g₁ g₂ : List Char} (hfront : Settled front kept)
    (hcallee : callee = "__import__".toList ∨ callee = "import_module".toList)
    (h₁ : ∀ c ∈ g₁, isBlank c = true) (h₂ : ∀ c ∈ g₂, isBlank c = true) (rest : List Char) :
    withoutComments (front ++ (callee ++ (g₁ ++ '(' :: (g₂ ++ rest))))
      = kept ++ (callee ++ (g₁ ++ '(' :: (g₂ ++ withoutComments rest))) := by
  have hplain : ∀ c ∈ callee ++ (g₁ ++ '(' :: g₂), isPlain c = true := by
    apply isPlain_append
    · rcases hcallee with rfl | rfl <;> exact List.all_eq_true.mp rfl
    · apply isPlain_append fun c hc => isPlain_of_isBlank (h₁ c hc)
      exact isPlain_cons (by decide) fun c hc => isPlain_of_isBlank (h₂ c hc)
  have hsplit : ∀ rest : List Char, callee ++ (g₁ ++ '(' :: (g₂ ++ rest))
      = callee ++ (g₁ ++ '(' :: g₂) ++ rest := fun rest => by simp
  have hcall : ∃ c w, callee ++ (g₁ ++ '(' :: g₂) = c :: w := by
    rcases hcallee with rfl | rfl <;> exact ⟨_, _, rfl⟩
  rw [hsplit, hsplit]
  generalize callee ++ (g₁ ++ '(' :: g₂) = opening at hplain hcall
  obtain ⟨c, w, rfl⟩ := hcall
  have hlater : ∀ d ∈ w, isPlain d = true := fun d hd => hplain d (List.mem_cons_of_mem c hd)
  rw [List.cons_append, withoutComments_code hfront (hplain c List.mem_cons_self),
    withoutComments_append (settled_of_isPlain hlater)]
  · rfl
  · intro q hq hend
    cases hq.symm.trans (isPlain_iff.mp (hlater q (List.mem_of_getLast? hend))).2

/-- **A library that a call names in a literal on one line is found; a call that names it in
a block is read as a call with a blank in its place.** -/
theorem forbiddenLibrary_quoted (hlibrary : IsName library.toList) {policy : Policy}
    (hforbidden : library ∈ policy.forbidden) {front kept : List Char}
    (hfront : Settled front kept) (hword : EndsWord front.getLast?) {callee g₁ g₂ : List Char}
    (hcallee : callee = "__import__".toList ∨ callee = "import_module".toList)
    (h₁ : ∀ c ∈ g₁, isBlank c = true) (h₂ : ∀ c ∈ g₂, isBlank c = true) {q : Char}
    (hq : isQuote q = true) (rest : List Char) (className : String) :
    (∀ name, NameIn library.toList name → .forbiddenLibrary library ∈ violations
      (front ++ (callee ++ (g₁ ++ '(' :: (g₂ ++ q :: (name ++ q :: rest))))) policy className) ∧
    ∀ body, BlockBody q body → violations
        (front ++ (callee ++ (g₁ ++ '(' :: (g₂ ++ q :: q :: q :: (body ++ q :: q :: q :: rest)))))
        policy className
      = violations (front ++ (callee ++ (g₁ ++ '(' :: (g₂ ++ ' ' :: rest)))) policy className := by
  refine ⟨fun name hname => ?_, fun body hbody => ?_⟩
  · -- the call starts a word in what is kept of the text as well
    have hbefore : EndsWord (behind none kept) := by
      rw [behind, Option.or_none]
      rcases hfront.sameEnd with hkept | ⟨hkept, -⟩
      · rw [hkept]
        exact hword
      · rw [hkept]
        exact endsWord_some (by decide)
    have hpath := hname.isPath hlibrary
    have hliteral : withoutComments (q :: (name ++ q :: rest))
        = q :: (name ++ q :: withoutComments rest) := by
      rw [withoutComments_cons, nextPiece_literal hq (hpath.literalBody hq)
        fun hnil => absurd hnil hpath.1]
      simp [Piece.kept]
    rw [forbiddenLibrary_mem_violations_iff, withoutComments_call hfront hcallee h₁ h₂, hliteral]
    refine ⟨hforbidden, ?_⟩
    rw [usesLibrary, Bool.or_eq_true]
    exact Or.inr (importsDynamically_of_call hlibrary hbefore hcallee h₁ h₂ hq hname)
  · have hblock : withoutComments (q :: q :: q :: (body ++ q :: q :: q :: rest))
        = withoutComments (' ' :: rest) := by
      rw [withoutComments_cons, nextPiece_block hq hbody, withoutComments_plain (by decide)]
      rfl
    rw [violations, violations, withoutComments_call hfront hcallee h₁ h₂,
      withoutComments_call hfront hcallee h₁ h₂, hblock]

/-- The text in front of a call, a block among it. -/
def blockThenTarget : List Char :=
  "\"\"\"p\"\"\"m = ".toList

/-- A module of a forbidden library. -/
def poolName : List Char :=
  "multiprocessing".toList ++ '.' :: "pool".toList

/-- The module is found in a literal, and in a block it is read as a blank. -/
theorem forbiddenLibrary_quoted_pool :
    IsName "multiprocessing".toList ∧ "multiprocessing" ∈ Policy.main.forbidden ∧
      .forbiddenLibrary "multiprocessing" ∈ violations (blockThenTarget ++ ("__import__".toList ++
        ([' '] ++ '(' :: ([' '] ++ '"' :: (poolName ++ '"' :: [')']))))) .main "A" ∧
      violations (blockThenTarget ++ ("__import__".toList ++
          ([' '] ++ '(' :: ([' '] ++ '"' :: '"' :: '"' :: (poolName ++ '"' :: '"' :: '"' :: [')'])))))
          .main "A"
        = violations (blockThenTarget ++ ("__import__".toList ++
            ([' '] ++ '(' :: ([' '] ++ ' ' :: [')'])))) .main "A" := by
  have hlibrary : IsName "multiprocessing".toList := ⟨by decide, List.all_eq_true.mp rfl⟩
  have hforbidden : "multiprocessing" ∈ Policy.main.forbidden := List.mem_singleton_self _
  have hfront : Settled blockThenTarget " m = ".toList := by
    have htarget : ∀ c ∈ "m = ".toList, isPlain c = true := List.all_eq_true.mp rfl
    have hdocs : BlockBody '"' ['p'] := by
      show ¬ _
      decide
    exact Settled.block rfl hdocs (settled_of_isPlain htarget)
  have hword : EndsWord blockThenTarget.getLast? := by
    show EndsWord (some ' ')
    exact endsWord_some (by decide)
  have hblank : ∀ c ∈ [' '], isBlank c = true := List.forall_mem_singleton.mpr rfl
  have hquote : isQuote '"' = true := rfl
  obtain ⟨hliteral, hblock⟩ := forbiddenLibrary_quoted hlibrary hforbidden hfront hword
    (Or.inl rfl) hblank hblank hquote [')'] "A"
  have hpool : IsPath "pool".toList := IsName.isPath ⟨by decide, List.all_eq_true.mp rfl⟩
  have hbody : BlockBody '"' poolName := by
    show ¬ _
    decide +kernel
  exact ⟨hlibrary, hforbidden, hliteral poolName (NameIn.inside hpool), hblock poolName hbody⟩

/-- A script that names a forbidden library in a literal. -/
def importOfLiteral : List Char :=
  scriptWith "__import__(\"multiprocessing\")"

/-- The same script with the name in a block. -/
def importOfBlock : List Char :=
  scriptWith "__import__(\"\"\"multiprocessing\"\"\")"

/-- In a block the name is not found. -/
theorem violations_importOfBlock :
    violations importOfLiteral .main "A" = [.forbiddenLibrary "multiprocessing"] ∧
      violations importOfBlock .main "A" = [] := by
  decide +kernel

end ScriptRegistry.Source
