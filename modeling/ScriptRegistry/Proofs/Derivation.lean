/-
ScriptRegistry/Proofs/Derivation.lean

What an accepted class derives from.

In the language a base is an entry between two commas outside of all brackets, it
is no keyword argument, and it names a class by a dotted name (`Derives`).  The
class rule minds round brackets only, and of an entry only what stands behind its
last dot.  So each class that derives from the base class passes if its
declaration is looked at; what passes besides has an entry that is no base and
is read as one (`Misread`).

Main results: `namesBase_iff_derives_or_misread` and
`classViolation?_eq_none_iff_derives_or_misread`.
-/
import Mathlib.Data.List.Basic
import ScriptRegistry.Proofs.Declaration

namespace ScriptRegistry.Source

open Text

/-! ### Bases of a class -/

/-- The brackets of the language, each opening one with its closing one. -/
def brackets : List (Char × Char) :=
  [('(', ')'), ('[', ']'), ('\x7b', '\x7d')]

/-- No bracket of any kind is open behind the text. -/
def OutsideBrackets (w : List Char) : Prop :=
  ∀ b ∈ brackets, openBehind b.1 b.2 w = 0

/-- What may stand before the last component of a dotted name: other components, each with a dot
behind it and blanks where they may be. -/
inductive Qualifier : List Char → Prop
  | nil : Qualifier []
  | component {g₁ name g₂ rest : List Char} (h₁ : IsBlanks g₁) (hname : IsName name)
      (h₂ : IsBlanks g₂) (h : Qualifier rest) : Qualifier (g₁ ++ (name ++ (g₂ ++ '.' :: rest)))

/-- The entry is a dotted name, and its last component is the given one. -/
inductive Dotted (name : List Char) : List Char → Prop
  | dotted {qualifier g₁ g₂ : List Char} (h : Qualifier qualifier) (h₁ : IsBlanks g₁)
      (h₂ : IsBlanks g₂) : Dotted name (qualifier ++ (g₁ ++ (name ++ g₂)))

/-- The entry is a keyword argument. -/
def IsKeyword (entry : List Char) : Prop :=
  ∃ g₁ name g₂ value, IsBlanks g₁ ∧ IsName name ∧ IsBlanks g₂ ∧
    entry = g₁ ++ (name ++ (g₂ ++ '=' :: value))

/-- One of the bases is a dotted name that ends in the given name. -/
def Derives (bases name : List Char) : Prop :=
  ∃ entry, HasEntry OutsideBrackets bases entry ∧ ¬ IsKeyword entry ∧ Dotted name entry

/-- An entry between two commas outside of round brackets ends in the name, but it is not a dotted
name, or it begins where another bracket is open. -/
def Misread (bases name : List Char) : Prop :=
  ∃ u entry v, bases = u ++ (entry ++ v) ∧ EntryAt OutsideRound u entry v ∧ EndsIn entry name ∧
    (¬ Dotted name entry ∨ ¬ OutsideBrackets u)

/-! ### Dotted names -/

section Dotted

variable {name entry qualifier u v : List Char}

/-- A dotted name has no other characters than words, dots and blanks. -/
def IsDottedChar (c : Char) : Prop :=
  isWord c = true ∨ isBlank c = true ∨ c = '.'

theorem Qualifier.isDottedChar (h : Qualifier qualifier) : ∀ c ∈ qualifier, IsDottedChar c := by
  induction h with
  | nil => exact fun c hc => absurd hc List.not_mem_nil
  | component h₁ hname h₂ h ih =>
    intro c hc
    simp only [List.mem_append, List.mem_cons] at hc
    rcases hc with hc | hc | hc | hc | hc
    · exact Or.inr (Or.inl (h₁ c hc))
    · exact Or.inl (hname.2 c hc)
    · exact Or.inr (Or.inl (h₂ c hc))
    · exact Or.inr (Or.inr hc)
    · exact ih c hc

theorem Dotted.isDottedChar (hname : IsName name) (h : Dotted name entry) :
    ∀ c ∈ entry, IsDottedChar c := by
  obtain ⟨hqualifier, h₁, h₂⟩ := h
  intro c hc
  simp only [List.mem_append] at hc
  rcases hc with hc | hc | hc | hc
  · exact hqualifier.isDottedChar c hc
  · exact Or.inr (Or.inl (h₁ c hc))
  · exact Or.inl (hname.2 c hc)
  · exact Or.inr (Or.inl (h₂ c hc))

/-- No punctuation but the dot. -/
theorem Dotted.not_mem (hname : IsName name) (h : Dotted name entry) {c : Char}
    (hword : isWord c = false) (hblank : isBlank c = false) (hdot : c ≠ '.') : c ∉ entry := by
  intro hmem
  rcases h.isDottedChar hname c hmem with hc | hc | hc
  · rw [hword] at hc
    cases hc
  · rw [hblank] at hc
    cases hc
  · exact hdot hc

theorem Dotted.not_isKeyword (hname : IsName name) (h : Dotted name entry) : ¬ IsKeyword entry := by
  rintro ⟨g₁, other, g₂, value, -, -, -, rfl⟩
  have hmem : '=' ∈ g₁ ++ (other ++ (g₂ ++ '=' :: value)) := by simp
  exact h.not_mem hname (by decide) (by decide) (by decide) hmem

theorem Qualifier.eq_nil_or_concat (h : Qualifier qualifier) :
    qualifier = [] ∨ ∃ f, qualifier = f ++ ['.'] := by
  induction h with
  | nil => exact Or.inl rfl
  | @component g₁ name g₂ rest h₁ hname h₂ h ih =>
    right
    rcases ih with rfl | ⟨f, rfl⟩
    · exact ⟨g₁ ++ (name ++ g₂), by simp⟩
    · exact ⟨g₁ ++ (name ++ (g₂ ++ '.' :: f)), by simp⟩

theorem Dotted.endsIn (hname : IsName name) (h : Dotted name entry) : EndsIn entry name := by
  obtain @⟨qualifier, g₁, g₂, hqualifier, h₁, h₂⟩ := h
  refine ⟨qualifier, g₁ ++ (name ++ g₂), rfl, hqualifier.eq_nil_or_concat, ?_,
    (trim_eq_name_iff hname).mpr ⟨g₁, g₂, h₁, h₂, rfl⟩⟩
  simp only [List.mem_append, not_or]
  refine ⟨not_mem_of_isBlanks h₁ rfl, fun hmem => ?_, not_mem_of_isBlanks h₂ rfl⟩
  exact absurd (hname.2 _ hmem) (by decide)

end Dotted

/-! ### The two ways to split -/

section Splits

variable {bases name entry u v w : List Char}

theorem OutsideBrackets.outsideRound (h : OutsideBrackets w) : OutsideRound w :=
  h ('(', ')') List.mem_cons_self

/-- What holds no brackets does not change which of them are open. -/
theorem outsideBrackets_append_iff (hv : ∀ b ∈ brackets, b.1 ∉ v ∧ b.2 ∉ v) :
    OutsideBrackets (u ++ v) ↔ OutsideBrackets u := by
  refine forall_congr' fun b => forall_congr' fun hb => ?_
  rw [openBehind_append_of_not_mem u (hv b hb).1 (hv b hb).2]

theorem outsideBrackets_comma_iff : OutsideBrackets (u ++ [',']) ↔ OutsideBrackets u :=
  outsideBrackets_append_iff (by decide)

theorem Dotted.no_brackets (hname : IsName name) (h : Dotted name entry) :
    ∀ b ∈ brackets, b.1 ∉ entry ∧ b.2 ∉ entry := by
  have hpunctuation : ∀ b ∈ brackets, ∀ c, c = b.1 ∨ c = b.2 →
      isWord c = false ∧ isBlank c = false ∧ c ≠ '.' := by
    simp only [brackets, List.mem_cons, List.not_mem_nil, or_false]
    rintro b (rfl | rfl | rfl) c (rfl | rfl) <;> decide
  intro b hb
  obtain ⟨hword, hblank, hdot⟩ := hpunctuation b hb b.1 (Or.inl rfl)
  obtain ⟨hword', hblank', hdot'⟩ := hpunctuation b hb b.2 (Or.inr rfl)
  exact ⟨h.not_mem hname hword hblank hdot, h.not_mem hname hword' hblank' hdot'⟩

/-- **A dotted name is an entry of both splits or of none, unless a bracket is open before it.** -/
theorem Dotted.entryAt_iff (hname : IsName name) (h : Dotted name entry) :
    EntryAt OutsideBrackets u entry v ↔ EntryAt OutsideRound u entry v ∧ OutsideBrackets u := by
  have hcomma : ',' ∉ entry := h.not_mem hname (by decide) (by decide) (by decide)
  have hwhole : ∀ outside : List Char → Prop, ∀ e₁ e₂, entry = e₁ ++ ',' :: e₂ →
      ¬ outside (u ++ e₁) := by
    intro outside e₁ e₂ heq
    rw [heq] at hcomma
    exact absurd (List.mem_append_right _ List.mem_cons_self) hcomma
  constructor
  · intro hentry
    refine ⟨⟨?_, ?_, hwhole _⟩, ?_⟩
    · exact hentry.start.imp_right fun ⟨u', hu', hout⟩ => ⟨u', hu', hout.outsideRound⟩
    · exact hentry.stop.imp_right fun ⟨v', hv', hout⟩ => ⟨v', hv', hout.outsideRound⟩
    · rcases hentry.start with rfl | ⟨u', rfl, hout⟩
      · intro b _
        rfl
      · exact outsideBrackets_comma_iff.mpr hout
  · rintro ⟨hentry, hout⟩
    refine ⟨hentry.start.imp_right ?_, hentry.stop.imp_right ?_, hwhole _⟩
    · rintro ⟨u', rfl, -⟩
      exact ⟨u', rfl, outsideBrackets_comma_iff.mp hout⟩
    · rintro ⟨v', rfl, -⟩
      exact ⟨v', rfl, (outsideBrackets_append_iff (h.no_brackets hname)).mpr hout⟩

/-- **A base list passes if the class derives from the base class, or an entry is misread.** -/
theorem namesBase_iff_derives_or_misread {baseClass : String} (hbase : IsName baseClass.toList) :
    namesBase bases baseClass = true ↔
      Derives bases baseClass.toList ∨ Misread bases baseClass.toList := by
  rw [namesBase_iff]
  constructor
  · rintro ⟨entry, ⟨u, v, heq, hentry⟩, hends⟩
    by_cases hgood : Dotted baseClass.toList entry ∧ OutsideBrackets u
    · obtain ⟨hdotted, hout⟩ := hgood
      have hentry' := (hdotted.entryAt_iff hbase).mpr ⟨hentry, hout⟩
      exact Or.inl ⟨entry, ⟨u, v, heq, hentry'⟩, hdotted.not_isKeyword hbase, hdotted⟩
    · exact Or.inr ⟨u, entry, v, heq, hentry, hends, not_and_or.mp hgood⟩
  · rintro (⟨entry, ⟨u, v, heq, hentry⟩, -, hdotted⟩ | ⟨u, entry, v, heq, hentry, hends, -⟩)
    · have hentry' := (hdotted.entryAt_iff hbase).mp hentry
      exact ⟨entry, ⟨u, v, heq, hentry'.1⟩, hdotted.endsIn hbase⟩
    · exact ⟨entry, ⟨u, v, heq, hentry⟩, hends⟩

end Splits

/-! ### Accepted classes -/

/-- **An accepted class derives from the base class, or its base list is misread.**  The class rule
asks for a plain class name and for one of the outermost declarations of the class; there, one of
the bases is a dotted name that ends in the base class, or an entry passes for one that is none. -/
theorem classViolation?_eq_none_iff_derives_or_misread (text : List Char)
    (className baseClass : String) (hbase : IsName baseClass.toList) :
    classViolation? text className baseClass = none ↔
      isClassName className = true ∧ ∃ i j bases, DeclaredAt text className i j bases ∧
        Outermost text className i ∧
        (Derives bases baseClass.toList ∨ Misread bases baseClass.toList) := by
  rw [classViolation?_eq_none_iff]
  refine and_congr_right fun hclass => ?_
  rw [declares_iff hclass]
  simp only [namesBase_iff_derives_or_misread hbase]

theorem classViolation?_qualifiedBase : IsName "OPALAlgorithm".toList ∧
    ∃ i j bases, DeclaredAt "class A(Mixin, core.OPALAlgorithm):\n    pass\n".toList "A" i j bases ∧
      Outermost "class A(Mixin, core.OPALAlgorithm):\n    pass\n".toList "A" i ∧
      (Derives bases "OPALAlgorithm".toList ∨ Misread bases "OPALAlgorithm".toList) := by
  have hbase : IsName "OPALAlgorithm".toList := ⟨by decide, List.all_eq_true.mp rfl⟩
  refine ⟨hbase, ?_⟩
  exact ((classViolation?_eq_none_iff_derives_or_misread _ "A" "OPALAlgorithm" hbase).mp
    (by decide +kernel)).2

/-- A class that has something named like the base class for its metaclass. -/
def metaclassDeclaration : List Char :=
  "class A(object, metaclass=meta.OPALAlgorithm):\n    pass\n".toList

/-- A text with one opening and one closing bracket declares nothing but what is between them. -/
theorem DeclaredAt.bases_eq {front bases rest bases' : List Char} {className : String} {i j : Nat}
    (h : DeclaredAt (front ++ '(' :: (bases ++ ')' :: rest)) className i j bases')
    (hopening : '(' ∉ front ∧ '(' ∉ bases ++ ')' :: rest) (hclosing : ')' ∉ bases ∧ ')' ∉ rest) :
    bases' = bases := by
  obtain ⟨front', w, rest', heq, -, -, -, @⟨heading, g, -, -, -⟩⟩ := h
  simp only [List.append_assoc, List.cons_append] at heq
  rw [← List.append_assoc, List.append_cons_inj_of_notMem hopening.1 hopening.2] at heq
  obtain ⟨-, -, hinside⟩ := heq
  rw [List.append_cons_inj_of_notMem hclosing.1 hclosing.2] at hinside
  exact hinside.1.symm

/-- It passes, and derives from no such class. -/
theorem classViolation?_metaclassDeclaration :
    classViolation? metaclassDeclaration "A" "OPALAlgorithm" = none ∧
      ¬ ∃ i j bases, DeclaredAt metaclassDeclaration "A" i j bases ∧
        Derives bases "OPALAlgorithm".toList := by
  refine ⟨by decide +kernel, ?_⟩
  rintro ⟨i, j, bases, hdecl, entry, ⟨u, v, heq, hentry⟩, -, hdotted⟩
  have htext : metaclassDeclaration = "class A".toList ++ '(' ::
      ("object, metaclass=meta.OPALAlgorithm".toList ++ ')' :: ":\n    pass\n".toList) := rfl
  rw [htext] at hdecl
  have hbases := hdecl.bases_eq (by decide) (by decide)
  obtain @⟨qualifier, g₁, g₂, hqualifier, h₁, h₂⟩ := hdotted
  -- the base class is named at the end, behind the keyword
  have hend : "object, metaclass=meta.".toList ++ 'O' :: "PALAlgorithm".toList
      = (u ++ (qualifier ++ g₁)) ++ 'O' :: ("PALAlgorithm".toList ++ g₂ ++ v) := by
    show "object, metaclass=meta.OPALAlgorithm".toList = _
    rw [← hbases, heq]
    simp
  rw [List.append_cons_inj_of_notMem (by decide) (by decide)] at hend
  have hkeyword : '=' ∉ qualifier ++ g₁ := by
    rw [List.mem_append, not_or]
    refine ⟨fun hmem => ?_, not_mem_of_isBlanks h₁ rfl⟩
    rcases hqualifier.isDottedChar _ hmem with h | h | h <;> exact absurd h (by decide)
  rcases hentry.start with rfl | ⟨u', rfl, -⟩
  · rw [List.nil_append] at hend
    exact hkeyword (hend.1 ▸ by decide)
  · have hcomma : "object".toList ++ ',' :: " metaclass=meta.".toList
        = u' ++ ',' :: (qualifier ++ g₁) := by
      show "object, metaclass=meta.".toList = _
      rw [hend.1]
      simp
    rw [List.append_cons_inj_of_notMem (by decide) (by decide)] at hcomma
    exact hkeyword (hcomma.2.2 ▸ by decide)

end ScriptRegistry.Source
