/-
ScriptRegistry/Proofs/BaseList.lean

The entries of a base list, and what counts of them.

The splitter reads a base list once and counts the brackets that are open.  Here an
entry is told by its place (`EntryAt`): it reaches from the start of the list or a
separating comma to the end or the next one, and has no such comma inside.  Which
commas separate is said by what has been read before them, so that lists split at
other commas are entries in the same sense.

Of an entry the part behind the last dot counts, without the blanks around it
(`EndsIn`).

Main results: `mem_baseEntries_iff` and `namesBase_iff`.
-/
import Mathlib.Data.List.Induction
import Mathlib.Data.List.TakeWhile
import ScriptRegistry.Proofs.Evasion
import ScriptRegistry.Proofs.ImportGrammar
import ScriptRegistry.Source.ClassDecl

namespace ScriptRegistry.Source

open Text

/-! ### Open brackets -/

/-- How many brackets are open behind one more character; a bracket that closes nothing counts for
nothing. -/
def countBracket (opening closing : Char) (open' : Nat) (c : Char) : Nat :=
  if c = opening then open' + 1 else if c = closing then open' - 1 else open'

/-- How many brackets of a kind are open behind a text. -/
def openBehind (opening closing : Char) (w : List Char) : Nat :=
  w.foldl (countBracket opening closing) 0

/-- No round bracket is open behind the text. -/
def OutsideRound (w : List Char) : Prop :=
  openBehind '(' ')' w = 0

section Brackets

variable {opening closing : Char}

@[simp]
theorem openBehind_concat (w : List Char) (c : Char) :
    openBehind opening closing (w ++ [c])
      = countBracket opening closing (openBehind opening closing w) c := by
  rw [openBehind, List.foldl_append]
  rfl

/-- A text without brackets opens and closes none. -/
theorem openBehind_append_of_not_mem (u : List Char) {w : List Char} (ho : opening ∉ w)
    (hc : closing ∉ w) : openBehind opening closing (u ++ w) = openBehind opening closing u := by
  induction w using List.reverseRecOn with
  | nil => rw [List.append_nil]
  | append_singleton w c ih =>
    have hne : c ≠ opening ∧ c ≠ closing := by
      constructor
      · rintro rfl
        exact ho (by simp)
      · rintro rfl
        exact hc (by simp)
    rw [← List.append_assoc, openBehind_concat, countBracket, if_neg hne.1, if_neg hne.2,
      ih (fun hmem => ho (List.mem_append_left _ hmem))
        fun hmem => hc (List.mem_append_left _ hmem)]

end Brackets

/-! ### Entries -/

/-- An entry begins behind `u`: at the start of the list, or behind a separating comma.  A comma
separates if what was read before it is outside. -/
def Begins (outside : List Char → Prop) (u : List Char) : Prop :=
  u = [] ∨ ∃ u', u = u' ++ [','] ∧ outside u'

/-- In the list `u ++ (entry ++ v)`, the entry reaches from one separating comma, or the start, to
the next one, or the end. -/
structure EntryAt (outside : List Char → Prop) (u entry v : List Char) : Prop where
  start : Begins outside u
  stop : v = [] ∨ ∃ v', v = ',' :: v' ∧ outside (u ++ entry)
  whole : ∀ e₁ e₂, entry = e₁ ++ ',' :: e₂ → ¬ outside (u ++ e₁)

/-- The list has the entry. -/
def HasEntry (outside : List Char → Prop) (bases entry : List Char) : Prop :=
  ∃ u v, bases = u ++ (entry ++ v) ∧ EntryAt outside u entry v

/-! ### Splitting -/

/-- The list `u ++ (r ++ cs)` has the entry right behind `u`, or behind `u ++ r` and a comma. -/
def EntryFrom (u r cs entry : List Char) : Prop :=
  ∃ u' v, u ++ (r ++ cs) = u' ++ (entry ++ v) ∧ EntryAt OutsideRound u' entry v ∧
    (u' = u ∨ (u ++ r).length < u'.length)

/-- No comma inside `r` separates, in a list that begins with `u ++ r`. -/
def Unbroken (u r : List Char) : Prop :=
  ∀ e₁ e₂, r = e₁ ++ ',' :: e₂ → ¬ OutsideRound (u ++ e₁)

section Splitting

variable {u r cs entry : List Char} {c : Char}

theorem unbroken_nil : Unbroken u [] := by
  intro e₁ e₂ h
  simp at h

theorem Unbroken.concat (hr : Unbroken u r) (h : ¬ (c = ',' ∧ OutsideRound (u ++ r))) :
    Unbroken u (r ++ [c]) := by
  intro e₁ e₂ heq hout
  rcases e₂.eq_nil_or_concat with rfl | ⟨e₂, d, rfl⟩
  · obtain ⟨rfl, hc⟩ := List.append_inj' heq rfl
    exact h ⟨List.singleton_inj.mp hc, hout⟩
  · have heq' : r ++ [c] = (e₁ ++ ',' :: e₂) ++ [d] := by simpa using heq
    exact hr _ _ (List.append_inj' heq' rfl).1 hout

/-- At the end of the list the current entry is the only one. -/
theorem entryFrom_nil_iff (hu : Begins OutsideRound u) (hr : Unbroken u r) :
    EntryFrom u r [] entry ↔ entry = r := by
  constructor
  · rintro ⟨u', v, heq, hentry, rfl | hlater⟩
    · have hrest := List.append_cancel_left heq
      rw [List.append_nil] at hrest
      rcases hentry.stop with rfl | ⟨v', rfl, hout⟩
      · rw [hrest, List.append_nil]
      · exact absurd hout (hr _ _ hrest)
    · have hlength := congrArg List.length heq
      simp only [List.length_append, List.length_nil] at hlength hlater
      omega
  · rintro rfl
    exact ⟨u, [], rfl, ⟨hu, Or.inl rfl, hr⟩, Or.inl rfl⟩

/-- A separating comma completes the current entry, and the next one begins behind it. -/
theorem entryFrom_comma_iff (hu : Begins OutsideRound u) (hr : Unbroken u r)
    (hout : OutsideRound (u ++ r)) :
    EntryFrom u r (',' :: cs) entry ↔ entry = r ∨ EntryFrom (u ++ r ++ [',']) [] cs entry := by
  have hassoc : u ++ (r ++ ',' :: cs) = u ++ r ++ [','] ++ cs := by simp
  constructor
  · rintro ⟨u', v, heq, hentry, rfl | hlater⟩
    · left
      have hrest := List.append_cancel_left heq
      rcases List.append_eq_append_iff.mp hrest with ⟨x, rfl, hx⟩ | ⟨x, rfl, hx⟩
      · rcases x with - | ⟨d, x⟩
        · rw [List.append_nil]
        · -- the comma would be inside the entry
          obtain ⟨rfl, -⟩ := List.cons.inj hx
          exact absurd hout (hentry.whole r x rfl)
      · rcases hentry.stop with rfl | ⟨v', rfl, hout'⟩
        · simp at hx
        · rcases x with - | ⟨d, x⟩
          · rw [List.append_nil]
          · -- the entry would end at a comma inside the current one
            obtain ⟨rfl, -⟩ := List.cons.inj hx
            exact absurd hout' (hr _ _ rfl)
    · refine Or.inr ⟨u', v, hassoc.symm.trans heq, hentry, ?_⟩
      by_cases hfirst : u'.length = (u ++ r ++ [',']).length
      · exact Or.inl (List.append_inj_left (hassoc.symm.trans heq) hfirst.symm).symm
      · right
        simp only [List.append_nil, List.length_append, List.length_singleton] at hlater hfirst ⊢
        omega
  · rintro (rfl | ⟨u', v, heq, hentry, hplace⟩)
    · exact ⟨u, ',' :: cs, rfl, ⟨hu, Or.inr ⟨cs, rfl, hout⟩, hr⟩, Or.inl rfl⟩
    · refine ⟨u', v, hassoc.trans heq, hentry, Or.inr ?_⟩
      rcases hplace with rfl | hlater
      · simp
      · simp only [List.append_nil, List.length_append, List.length_singleton] at hlater ⊢
        omega

/-- Every other character belongs to the current entry. -/
theorem entryFrom_cons_iff (h : ¬ (c = ',' ∧ OutsideRound (u ++ r))) :
    EntryFrom u r (c :: cs) entry ↔ EntryFrom u (r ++ [c]) cs entry := by
  have hassoc : u ++ (r ++ c :: cs) = u ++ (r ++ [c] ++ cs) := by simp
  constructor
  · rintro ⟨u', v, heq, hentry, hplace⟩
    refine ⟨u', v, hassoc.symm.trans heq, hentry, hplace.imp_right fun hlater => ?_⟩
    have hsame : u ++ r ++ [c] ++ cs = u' ++ (entry ++ v) := by
      rw [← heq]
      simp
    by_contra hshort
    -- the entry would begin right behind the character, which would be a comma
    have hu' : u ++ r ++ [c] = u' := by
      apply List.append_inj_left hsame
      simp only [List.length_append, List.length_singleton] at hlater hshort ⊢
      omega
    rcases hentry.start with rfl | ⟨u'', rfl, hout⟩
    · simp at hlater
    · obtain ⟨rfl, hc⟩ := List.append_inj' hu' rfl
      exact h ⟨List.singleton_inj.mp hc, hout⟩
  · rintro ⟨u', v, heq, hentry, hplace⟩
    refine ⟨u', v, hassoc.trans heq, hentry, hplace.imp_right fun hlater => ?_⟩
    simp only [List.length_append, List.length_singleton] at hlater ⊢
    omega

theorem splitBases_cons {depth : Nat} (h : ¬ (c = ',' ∧ depth = 0)) :
    splitBases depth entry (c :: cs)
      = splitBases (countBracket '(' ')' depth c) (c :: entry) cs := by
  rw [splitBases, if_neg h, countBracket]
  split
  · rfl
  · split <;> rfl

/-- **The splitter lists the entries between the commas outside of round brackets.** -/
theorem mem_splitBases_iff (hu : Begins OutsideRound u) (hr : Unbroken u r) :
    entry ∈ splitBases (openBehind '(' ')' (u ++ r)) r.reverse cs ↔ EntryFrom u r cs entry := by
  induction cs generalizing u r with
  | nil =>
    rw [splitBases, List.mem_singleton, List.reverse_reverse, entryFrom_nil_iff hu hr]
  | cons c cs ih =>
    by_cases hcomma : c = ',' ∧ OutsideRound (u ++ r)
    · obtain ⟨rfl, hout⟩ := hcomma
      have hnext := ih (u := u ++ r ++ [',']) (Or.inr ⟨u ++ r, rfl, hout⟩) unbroken_nil
      rw [List.append_nil, openBehind_concat, hout] at hnext
      rw [splitBases, if_pos ⟨rfl, hout⟩, List.mem_cons, List.reverse_reverse,
        entryFrom_comma_iff hu hr hout, ← hnext]
      exact Iff.rfl
    · have hnext := ih (r := r ++ [c]) hu (hr.concat hcomma)
      rw [← List.append_assoc, openBehind_concat, List.reverse_concat] at hnext
      rw [splitBases_cons hcomma, hnext, entryFrom_cons_iff hcomma]

end Splitting

theorem mem_baseEntries_iff {bases entry : List Char} :
    entry ∈ baseEntries bases ↔ HasEntry OutsideRound bases entry := by
  have hsplit : entry ∈ splitBases 0 [] bases ↔ EntryFrom [] [] bases entry :=
    mem_splitBases_iff (u := []) (r := []) (Or.inl rfl) unbroken_nil
  rw [baseEntries]
  refine hsplit.trans ⟨?_, ?_⟩
  · rintro ⟨u, v, heq, hentry, -⟩
    exact ⟨u, v, heq, hentry⟩
  · rintro ⟨u, v, heq, hentry⟩
    refine ⟨u, v, heq, hentry, ?_⟩
    rcases u with - | ⟨c, u⟩
    · exact Or.inl rfl
    · exact Or.inr (by simp)

/-! ### Trimming -/

section Trimming

variable {g w : List Char}

theorem trimStart_blanks_append (hg : IsBlanks g) (w : List Char) :
    trimStart (g ++ w) = trimStart w :=
  List.dropWhile_append_of_pos hg

theorem trim_blanks_append (hg : IsBlanks g) (w : List Char) : trim (g ++ w) = trim w := by
  rw [trim, trimStart_blanks_append hg, trim]

theorem trimEnd_append_blanks (hg : IsBlanks g) (w : List Char) :
    trimEnd (w ++ g) = trimEnd w := by
  have hg' : ∀ c ∈ g.reverse, isBlank c = true := fun c hc => hg c (List.mem_reverse.mp hc)
  rw [trimEnd, List.reverse_append, List.dropWhile_append_of_pos hg', trimEnd]

theorem trim_append_blanks (hg : IsBlanks g) (w : List Char) : trim (w ++ g) = trim w := by
  rw [trim, trim, trimStart, List.dropWhile_append]
  split
  · next hnone =>
    -- nothing but blanks
    rw [List.isEmpty_iff] at hnone
    rw [trimStart, hnone, List.dropWhile_eq_nil_iff.mpr hg]
  · rw [trimEnd_append_blanks hg]
    rfl

theorem exists_trimStart (w : List Char) : ∃ g, IsBlanks g ∧ w = g ++ trimStart w :=
  ⟨w.takeWhile isBlank, fun _ hc => List.mem_takeWhile_imp hc,
    List.takeWhile_append_dropWhile.symm⟩

theorem exists_trimEnd (w : List Char) : ∃ g, IsBlanks g ∧ w = trimEnd w ++ g := by
  obtain ⟨g, hg, hw⟩ := exists_trimStart w.reverse
  refine ⟨g.reverse, fun c hc => hg c (List.mem_reverse.mp hc), ?_⟩
  rw [trimEnd, ← List.reverse_append, ← trimStart, ← hw, List.reverse_reverse]

/-- A text is its trimmed part with blanks around it. -/
theorem exists_trim (w : List Char) :
    ∃ g₁ g₂, IsBlanks g₁ ∧ IsBlanks g₂ ∧ w = g₁ ++ (trim w ++ g₂) := by
  obtain ⟨g₁, hg₁, hw₁⟩ := exists_trimStart w
  obtain ⟨g₂, hg₂, hw₂⟩ := exists_trimEnd (trimStart w)
  refine ⟨g₁, g₂, hg₁, hg₂, ?_⟩
  rw [trim, ← hw₂]
  exact hw₁

theorem trim_trimEnd (w : List Char) : trim (trimEnd w) = trim w := by
  obtain ⟨g, hg, hw⟩ := exists_trimEnd w
  rw [← trim_append_blanks hg, ← hw]

theorem trim_trimStart (w : List Char) : trim (trimStart w) = trim w := by
  obtain ⟨g, hg, hw⟩ := exists_trimStart w
  rw [← trim_blanks_append hg, ← hw]

theorem trim_trim (w : List Char) : trim (trim w) = trim w :=
  (trim_trimEnd (trimStart w)).trans (trim_trimStart w)

theorem IsName.isBlank_eq_false {name : List Char} (h : IsName name) {c : Char} (hc : c ∈ name) :
    isBlank c = false := by
  have hword := h.2 c hc
  by_contra hblank
  rw [isWord_of_isBlank (Bool.of_not_eq_false hblank)] at hword
  cases hword

/-- Nothing is trimmed off a name at the end of a text. -/
theorem trimEnd_append_name {name : List Char} (h : IsName name) (u : List Char) :
    trimEnd (u ++ name) = u ++ name := by
  obtain ⟨n, c, rfl⟩ := (List.eq_nil_or_concat name).resolve_left h.1
  rw [List.concat_eq_append] at h ⊢
  have hc : isBlank c = false := h.isBlank_eq_false (by simp)
  rw [trimEnd, ← List.append_assoc, List.reverse_concat,
    List.dropWhile_cons_of_neg (ne_true_of_eq_false hc), List.reverse_cons, List.reverse_reverse]

theorem trim_eq_of_isName {name : List Char} (h : IsName name) : trim name = name := by
  have hstart : trimStart name = name := by
    obtain ⟨c, n, rfl⟩ := List.exists_cons_of_ne_nil h.1
    have hc : isBlank c = false := h.isBlank_eq_false List.mem_cons_self
    rw [trimStart, List.dropWhile_cons_of_neg (ne_true_of_eq_false hc)]
  rw [trim, hstart]
  exact trimEnd_append_name h []

/-- The texts that are trimmed to one which is trimmed itself are that one between blanks. -/
theorem trim_eq_iff {t : List Char} (h : trim t = t) :
    trim w = t ↔ ∃ g₁ g₂, IsBlanks g₁ ∧ IsBlanks g₂ ∧ w = g₁ ++ (t ++ g₂) := by
  constructor
  · rintro rfl
    exact exists_trim w
  · rintro ⟨g₁, g₂, hg₁, hg₂, rfl⟩
    rw [trim_blanks_append hg₁, trim_append_blanks hg₂, h]

/-- A text that is trimmed to a name is that name between blanks. -/
theorem trim_eq_name_iff {name : List Char} (h : IsName name) :
    trim w = name ↔ ∃ g₁ g₂, IsBlanks g₁ ∧ IsBlanks g₂ ∧ w = g₁ ++ (name ++ g₂) :=
  trim_eq_iff (trim_eq_of_isName h)

end Trimming

/-! ### What counts of an entry -/

/-- The part of the entry behind its last dot, or all of it if there is none, is the name with
blanks around it. -/
def EndsIn (entry name : List Char) : Prop :=
  ∃ front last, entry = front ++ last ∧ (front = [] ∨ ∃ f, front = f ++ ['.']) ∧ '.' ∉ last ∧
    trim last = name

/-- Reading from the end up to a dot gives what stands behind the last one. -/
theorem takeWhile_reverse_append {front last : List Char}
    (hfront : front = [] ∨ ∃ f, front = f ++ ['.']) (hlast : '.' ∉ last) :
    ((front ++ last).reverse.takeWhile (· ≠ '.')).reverse = last := by
  have hall : ∀ c ∈ last.reverse, decide (c ≠ '.') = true := by
    intro c hc
    rw [decide_eq_true_iff]
    rintro rfl
    exact hlast (List.mem_reverse.mp hc)
  rw [List.reverse_append, List.takeWhile_append_of_pos hall]
  rcases hfront with rfl | ⟨f, rfl⟩
  · simp
  · simp

/-- Trimming leaves the last dot where it is. -/
theorem exists_trim_append {front last : List Char}
    (hfront : front = [] ∨ ∃ f, front = f ++ ['.']) (hlast : '.' ∉ last) :
    ∃ front' last', trim (front ++ last) = front' ++ last' ∧
      (front' = [] ∨ ∃ f, front' = f ++ ['.']) ∧ '.' ∉ last' ∧ trim last' = trim last := by
  have hdot : isBlank '.' = false := rfl
  rcases hfront with rfl | ⟨f, rfl⟩
  · refine ⟨[], trim last, rfl, Or.inl rfl, ?_, trim_trim last⟩
    obtain ⟨g₁, g₂, -, -, hw⟩ := exists_trim last
    intro hmem
    rw [hw] at hlast
    exact hlast (List.mem_append_right _ (List.mem_append_left _ hmem))
  · -- the blanks in front are before the dot, those at the end behind it
    refine ⟨trimStart f ++ ['.'], trimEnd last, ?_, Or.inr ⟨_, rfl⟩, ?_, trim_trimEnd last⟩
    · have hstart : trimStart (f ++ ['.'] ++ last) = trimStart f ++ ['.'] ++ last := by
        rw [trimStart, List.append_assoc, List.dropWhile_append]
        split
        · next hnone =>
          rw [List.isEmpty_iff] at hnone
          rw [trimStart, hnone]
          simp [hdot]
        · simp [trimStart]
      rw [trim, hstart, trimEnd, List.reverse_append, List.dropWhile_append]
      split
      · next hnone =>
        rw [List.isEmpty_iff] at hnone
        rw [trimEnd, hnone]
        simp [hdot]
      · simp [trimEnd]
    · obtain ⟨g, -, hw⟩ := exists_trimEnd last
      intro hmem
      rw [hw] at hlast
      exact hlast (List.mem_append_left _ hmem)

/-- Every text has a part behind its last dot. -/
theorem exists_last (entry : List Char) : ∃ front last, entry = front ++ last ∧
    (front = [] ∨ ∃ f, front = f ++ ['.']) ∧ '.' ∉ last := by
  induction entry using List.reverseRecOn with
  | nil => exact ⟨[], [], rfl, Or.inl rfl, List.not_mem_nil⟩
  | append_singleton entry c ih =>
    by_cases hc : c = '.'
    · exact ⟨entry ++ [c], [], by simp, Or.inr ⟨entry, by rw [hc]⟩, List.not_mem_nil⟩
    · obtain ⟨front, last, rfl, hfront, hlast⟩ := ih
      refine ⟨front, last ++ [c], List.append_assoc _ _ _, hfront, ?_⟩
      rw [List.mem_append, List.mem_singleton, not_or]
      exact ⟨hlast, fun h => hc h.symm⟩

theorem lastComponent_append {front last : List Char}
    (hfront : front = [] ∨ ∃ f, front = f ++ ['.']) (hlast : '.' ∉ last) :
    lastComponent (front ++ last) = trim last := by
  obtain ⟨front', last', heq, hfront', hlast', htrim⟩ := exists_trim_append hfront hlast
  rw [lastComponent, heq, takeWhile_reverse_append hfront' hlast', htrim]

/-- **Of an entry counts what stands behind its last dot.** -/
theorem lastComponent_eq_iff {entry name : List Char} :
    lastComponent entry = name ↔ EndsIn entry name := by
  constructor
  · rintro rfl
    obtain ⟨front, last, rfl, hfront, hlast⟩ := exists_last entry
    exact ⟨front, last, rfl, hfront, hlast, (lastComponent_append hfront hlast).symm⟩
  · rintro ⟨front, last, rfl, hfront, hlast, rfl⟩
    exact lastComponent_append hfront hlast

/-- **A base list names the class if one of its entries ends in it.** -/
theorem namesBase_iff {bases : List Char} {baseClass : String} :
    namesBase bases baseClass = true ↔
      ∃ entry, HasEntry OutsideRound bases entry ∧ EndsIn entry baseClass.toList := by
  rw [namesBase, List.any_eq_true]
  refine exists_congr fun entry => ?_
  rw [beq_iff_eq, mem_baseEntries_iff, lastComponent_eq_iff]

end ScriptRegistry.Source
