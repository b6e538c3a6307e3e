/-
ScriptRegistry/Proofs/ImportGrammar.lean

What the library rules decide.

The grammar of imports is told twice.  The patterns tell it to the matcher, which
has to find out where a list of modules ends and the library begins, although both
are made of the same characters.  Here it is told without any search: a list of
items each with its comma, then the library (`StatementUpTo`), or a call up to the
library in its argument (`CallUpTo`).  A text imports the library if one of these
stands in it from one word boundary to another (`StandsIn`).

Main results: `importsStatically_iff`, `importsDynamically_iff` and
`libraryViolations_eq_imported`.
-/
import ScriptRegistry.Proofs.ImportLine

namespace ScriptRegistry.Source

open Text

/-! ### The grammar -/

/-- Nothing but blanks. -/
def IsBlanks (w : List Char) : Prop :=
  ∀ c ∈ w, isBlank c = true

/-- Another name for a module, which may be left out. -/
inductive Byname : List Char → Prop
  | nothing : Byname []
  | name {g₁ g₂ other : List Char} (h₁ : IsBlanks g₁) (hne₁ : g₁ ≠ []) (h₂ : IsBlanks g₂)
      (hne₂ : g₂ ≠ []) (hother : IsName other) :
      Byname (g₁ ++ (['a', 's'] ++ (g₂ ++ other)))

/-- A module with the comma behind it. -/
inductive ModuleItem : List Char → Prop
  | item {name byname g₁ g₂ : List Char} (hname : IsPath name) (hbyname : Byname byname)
      (h₁ : IsBlanks g₁) (h₂ : IsBlanks g₂) :
      ModuleItem (name ++ (byname ++ (g₁ ++ ([','] ++ g₂))))

/-- Any number of modules, each with its comma. -/
inductive ModuleItems : List Char → Prop
  | nil : ModuleItems []
  | cons {item rest : List Char} (h : ModuleItem item) (hrest : ModuleItems rest) :
      ModuleItems (item ++ rest)

/-- A statement that imports the library, up to the library's name. -/
inductive StatementUpTo (library : List Char) : List Char → Prop
  | modules {g items : List Char} (hg : IsBlanks g) (hne : g ≠ []) (h : ModuleItems items) :
      StatementUpTo library ("import".toList ++ (g ++ (items ++ library)))
  | names {g : List Char} (hg : IsBlanks g) (hne : g ≠ []) :
      StatementUpTo library ("from".toList ++ (g ++ library))

/-- A call that imports the library, up to the library's name. -/
inductive CallUpTo (library : List Char) : List Char → Prop
  | call {callee g₁ g₂ : List Char} {q : Char}
      (hcallee : callee = "__import__".toList ∨ callee = "import_module".toList)
      (h₁ : IsBlanks g₁) (h₂ : IsBlanks g₂) (hq : q = '\'' ∨ q = '"') :
      CallUpTo library (callee ++ (g₁ ++ (['('] ++ (g₂ ++ ([q] ++ library)))))

/-- A word begins or ends between two texts. -/
def WordBreak (front rest : List Char) : Prop :=
  isBoundary front.getLast? rest.head? = true

/-- One of the given stretches stands in the text between two word boundaries. -/
def StandsIn (stretches : List Char → Prop) (text : List Char) : Prop :=
  ∃ front w rest, text = front ++ (w ++ rest) ∧ stretches w ∧ WordBreak front (w ++ rest) ∧
    WordBreak (front ++ w) rest

/-- The library is imported by a statement. -/
def ImportedStatically (text : List Char) (library : String) : Prop :=
  StandsIn (StatementUpTo library.toList) text

/-- The library is imported by a call. -/
def ImportedDynamically (text : List Char) (library : String) : Prop :=
  StandsIn (CallUpTo library.toList) text

/-! ### Characters of a class -/

variable {before : Option Char} {w rest : List Char}

theorem fits_many_char_iff {f : Char → Bool} :
    (Pattern.many (.char f)).Fits before w rest ↔ ∀ c ∈ w, f c = true := by
  constructor
  · have hnil : ∀ c ∈ [], f c = true := fun c hc => absurd hc List.not_mem_nil
    refine Pattern.of_repeated (P := fun w => ∀ c ∈ w, f c = true) hnil ?_
    rintro _ _ v _ ⟨d, hd, rfl⟩ ih c hc
    rcases List.mem_append.mp hc with hc | hc
    · rw [List.mem_singleton.mp hc]
      exact hd
    · exact ih c hc
  · exact Pattern.fits_many_char

theorem fits_some_char_iff {f : Char → Bool} :
    (Pattern.some (.char f)).Fits before w rest ↔ w ≠ [] ∧ ∀ c ∈ w, f c = true := by
  constructor
  · rintro ⟨u, v, rfl, ⟨c, hc, rfl⟩, hv⟩
    refine ⟨by simp, fun d hd => ?_⟩
    rcases List.mem_append.mp hd with hd | hd
    · rw [List.mem_singleton.mp hd]
      exact hc
    · exact fits_many_char_iff.mp hv d hd
  · rintro ⟨hne, hall⟩
    exact Pattern.fits_some_char hne hall

theorem fits_anyBlanks_iff : anyBlanks.Fits before w rest ↔ IsBlanks w :=
  fits_many_char_iff

theorem fits_blanks_iff : blanks.Fits before w rest ↔ IsBlanks w ∧ w ≠ [] :=
  fits_some_char_iff.trans and_comm

/-! ### Lists of modules -/

/-- The pattern of an alias. -/
theorem fits_byname_iff :
    (Pattern.optional (.all [blanks, .exactly ['a', 's'], blanks, .some (.char isWord)])).Fits
      before w rest ↔ Byname w := by
  constructor
  · rintro (⟨g₁, _, rfl, h₁, _, _, rfl, rfl, g₂, other, rfl, h₂, hother⟩ | rfl)
    · obtain ⟨h₁, hne₁⟩ := fits_blanks_iff.mp h₁
      obtain ⟨h₂, hne₂⟩ := fits_blanks_iff.mp h₂
      exact Byname.name h₁ hne₁ h₂ hne₂ (fits_some_char_iff.mp hother)
    · exact Byname.nothing
  · intro h
    cases h with
    | nothing => exact Or.inr rfl
    | name h₁ hne₁ h₂ hne₂ hother =>
      left
      apply Pattern.Fits.seq (fits_blanks_iff.mpr ⟨h₁, hne₁⟩)
      apply Pattern.Fits.seq (Pattern.fits_exactly _)
      apply Pattern.Fits.seq (fits_blanks_iff.mpr ⟨h₂, hne₂⟩)
      exact fits_some_char_iff.mpr hother

/-- The characters of a path, as the pattern has them. -/
theorem fits_path_iff :
    (Pattern.some (.char fun c => isWord c || c == '.')).Fits before w rest ↔ IsPath w := by
  rw [fits_some_char_iff, IsPath]
  simp only [Bool.or_eq_true, beq_iff_eq]

theorem fits_listedModule_iff : listedModule.Fits before w rest ↔ ModuleItem w := by
  constructor
  · rintro ⟨name, _, rfl, hname, byname, _, rfl, hbyname, g₁, _, rfl, h₁, _, g₂, rfl,
      ⟨c, hc, rfl⟩, h₂⟩
    obtain rfl : c = ',' := eq_of_beq hc
    exact ModuleItem.item (fits_path_iff.mp hname) (fits_byname_iff.mp hbyname)
      (fits_anyBlanks_iff.mp h₁) (fits_anyBlanks_iff.mp h₂)
  · rintro ⟨hname, hbyname, h₁, h₂⟩
    apply Pattern.Fits.seq (fits_path_iff.mpr hname)
    apply Pattern.Fits.seq (fits_byname_iff.mpr hbyname)
    apply Pattern.Fits.seq (fits_anyBlanks_iff.mpr h₁)
    exact Pattern.Fits.seq (Pattern.fits_char rfl) (fits_anyBlanks_iff.mpr h₂)

theorem ModuleItem.ne_nil {item : List Char} (h : ModuleItem item) : item ≠ [] := by
  obtain ⟨hname, -, -, -⟩ := h
  exact fun hnil => hname.1 (List.append_eq_nil_iff.mp hnil).1

/-- A list of items is what the rounds of the pattern make up, however they are cut. -/
theorem fits_listedModules_iff :
    (Pattern.many listedModule).Fits before w rest ↔ ModuleItems w := by
  constructor
  · refine Pattern.of_repeated ModuleItems.nil ?_
    intro before item items rest first ih
    exact ModuleItems.cons (fits_listedModule_iff.mp first) ih
  · intro h
    induction h generalizing before with
    | nil => exact Pattern.Repeated.nil before rest
    | cons hitem hrest ih =>
      exact Pattern.Repeated.cons hitem.ne_nil (fits_listedModule_iff.mpr hitem) ih

/-! ### Whole imports -/

theorem fits_keyword_iff (word : String) : (keyword word).Fits before w rest ↔
    w = word.toList ∧ isBoundary before (w ++ rest).head? = true := by
  constructor
  · rintro ⟨_, _, rfl, ⟨rfl, hboundary⟩, rfl⟩
    exact ⟨rfl, hboundary⟩
  · rintro ⟨rfl, hboundary⟩
    exact ⟨[], word.toList, rfl, ⟨rfl, hboundary⟩, rfl⟩

theorem fits_libraryName_iff (library : String) : (libraryName library).Fits before w rest ↔
    w = library.toList ∧ isBoundary (behind before w) rest.head? = true := by
  constructor
  · rintro ⟨_, _, rfl, rfl, rfl, hboundary⟩
    rw [List.append_nil]
    exact ⟨rfl, hboundary⟩
  · rintro ⟨rfl, hboundary⟩
    exact ⟨library.toList, [], (List.append_nil _).symm, rfl, rfl, hboundary⟩

/-- The pattern of a statement asks for a statement between two word boundaries. -/
theorem fits_staticImport_iff (library : String) : (staticImport library).Fits before w rest ↔
    StatementUpTo library.toList w ∧ isBoundary before (w ++ rest).head? = true ∧
      isBoundary (behind before w) rest.head? = true := by
  constructor
  · rintro (⟨_, _, rfl, hword, g, _, rfl, hblanks, items, _, rfl, hitems, hlibrary⟩ |
      ⟨_, _, rfl, hword, g, _, rfl, hblanks, hlibrary⟩)
    · obtain ⟨rfl, hstart⟩ := (fits_keyword_iff "import").mp hword
      obtain ⟨hg, hne⟩ := fits_blanks_iff.mp hblanks
      obtain ⟨rfl, hend⟩ := (fits_libraryName_iff library).mp hlibrary
      refine ⟨StatementUpTo.modules hg hne (fits_listedModules_iff.mp hitems), ?_, ?_⟩
      · rw [List.append_assoc]
        exact hstart
      · rw [behind_append, behind_append, behind_append]
        exact hend
    · obtain ⟨rfl, hstart⟩ := (fits_keyword_iff "from").mp hword
      obtain ⟨hg, hne⟩ := fits_blanks_iff.mp hblanks
      obtain ⟨rfl, hend⟩ := (fits_libraryName_iff library).mp hlibrary
      refine ⟨StatementUpTo.names hg hne, ?_, ?_⟩
      · rw [List.append_assoc]
        exact hstart
      · rw [behind_append, behind_append]
        exact hend
  · rintro ⟨hstatement, hstart, hend⟩
    cases hstatement with
    | modules hg hne hitems =>
      rw [behind_append, behind_append, behind_append] at hend
      rw [List.append_assoc] at hstart
      left
      apply Pattern.Fits.seq ((fits_keyword_iff "import").mpr ⟨rfl, hstart⟩)
      apply Pattern.Fits.seq (fits_blanks_iff.mpr ⟨hg, hne⟩)
      apply Pattern.Fits.seq (fits_listedModules_iff.mpr hitems)
      exact (fits_libraryName_iff library).mpr ⟨rfl, hend⟩
    | names hg hne =>
      rw [behind_append, behind_append] at hend
      rw [List.append_assoc] at hstart
      right
      apply Pattern.Fits.seq ((fits_keyword_iff "from").mpr ⟨rfl, hstart⟩)
      apply Pattern.Fits.seq (fits_blanks_iff.mpr ⟨hg, hne⟩)
      exact (fits_libraryName_iff library).mpr ⟨rfl, hend⟩

/-- The pattern of the function that is called. -/
theorem fits_callee {callee : List Char}
    (h : callee = "__import__".toList ∨ callee = "import_module".toList) :
    (Pattern.either (.exactly "__import__".toList) (.exactly "import_module".toList)).Fits
      before callee rest :=
  h

/-- The pattern of a call asks for a call between two word boundaries. -/
theorem fits_dynamicImport_iff (library : String) : (dynamicImport library).Fits before w rest ↔
    CallUpTo library.toList w ∧ isBoundary before (w ++ rest).head? = true ∧
      isBoundary (behind before w) rest.head? = true := by
  constructor
  · rintro ⟨_, _, rfl, ⟨rfl, hstart⟩, callee, _, rfl, hcallee, g₁, _, rfl, h₁, _, _, rfl,
      ⟨c, hc, rfl⟩, g₂, _, rfl, h₂, _, _, rfl, ⟨q, hq, rfl⟩, hlibrary⟩
    obtain rfl : c = '(' := eq_of_beq hc
    obtain ⟨rfl, hend⟩ := (fits_libraryName_iff library).mp hlibrary
    rw [Bool.or_eq_true, beq_iff_eq, beq_iff_eq] at hq
    refine ⟨CallUpTo.call hcallee (fits_anyBlanks_iff.mp h₁) (fits_anyBlanks_iff.mp h₂) hq,
      hstart, ?_⟩
    rw [List.nil_append, behind_append, behind_append, behind_append, behind_append, behind_append]
    exact hend
  · rintro ⟨⟨hcallee, h₁, h₂, hq⟩, hstart, hend⟩
    rw [behind_append, behind_append, behind_append, behind_append, behind_append] at hend
    rw [← List.nil_append (_ ++ _)]
    apply Pattern.Fits.seq (Pattern.fits_boundary hstart)
    apply Pattern.Fits.seq (fits_callee hcallee)
    apply Pattern.Fits.seq (fits_anyBlanks_iff.mpr h₁)
    apply Pattern.Fits.seq (Pattern.fits_char rfl)
    apply Pattern.Fits.seq (fits_anyBlanks_iff.mpr h₂)
    apply Pattern.Fits.seq
    · refine Pattern.fits_char ?_
      rw [Bool.or_eq_true, beq_iff_eq, beq_iff_eq]
      exact hq
    · exact (fits_libraryName_iff library).mpr ⟨rfl, hend⟩

/-- A pattern that asks for a stretch between two word boundaries finds it wherever it stands. -/
theorem occursIn_iff_standsIn {p : Pattern} {stretches : List Char → Prop}
    (hp : ∀ before w rest, p.Fits before w rest ↔ stretches w ∧
      isBoundary before (w ++ rest).head? = true ∧ isBoundary (behind before w) rest.head? = true)
    {text : List Char} : p.occursIn text = true ↔ StandsIn stretches text := by
  have hbehind : ∀ w : List Char, behind none w = w.getLast? := fun w => Option.or_none
  rw [Pattern.occursIn_iff]
  refine exists_congr fun front => exists_congr fun w => exists_congr fun rest => ?_
  rw [hp, ← behind_append, hbehind, hbehind, List.append_assoc]
  exact Iff.rfl

/-- **A library is found in a statement exactly where the grammar has it.** -/
theorem importsStatically_iff {text : List Char} {library : String} :
    importsStatically text library = true ↔ ImportedStatically text library :=
  occursIn_iff_standsIn fun _ _ _ => fits_staticImport_iff library

/-- **A library is found in a call exactly where the grammar has it.** -/
theorem importsDynamically_iff {text : List Char} {library : String} :
    importsDynamically text library = true ↔ ImportedDynamically text library :=
  occursIn_iff_standsIn fun _ _ _ => fits_dynamicImport_iff library

instance (text : List Char) (library : String) : Decidable (ImportedStatically text library) :=
  decidable_of_iff _ importsStatically_iff

instance (text : List Char) (library : String) : Decidable (ImportedDynamically text library) :=
  decidable_of_iff _ importsDynamically_iff

/-! ### The verdict -/

/-- **The library rules decide the grammar of imports.**  The violations are, in the order of the
rules, the forbidden libraries that are imported in any way and the required ones that no
statement imports; a text keeps the rules if there are none. -/
theorem libraryViolations_eq_imported (text : List Char) (forbidden required : List String) :
    libraryViolations text forbidden required
      = ((forbidden.filter fun library =>
            ImportedStatically text library ∨ ImportedDynamically text library).map
          .forbiddenLibrary ++
        (required.filter fun library => ¬ ImportedStatically text library).map .missingLibrary) ∧
    (libraryViolations text forbidden required = [] ↔
      (∀ library ∈ forbidden,
        ¬ ImportedStatically text library ∧ ¬ ImportedDynamically text library) ∧
      ∀ library ∈ required, ImportedStatically text library) := by
  have hused : ∀ library, usesLibrary text library
      = decide (ImportedStatically text library ∨ ImportedDynamically text library) := by
    intro library
    rw [Bool.eq_iff_iff, decide_eq_true_iff, usesLibrary, Bool.or_eq_true, importsStatically_iff,
      importsDynamically_iff]
  have hmissing : ∀ library, (!importsStatically text library)
      = decide (¬ ImportedStatically text library) := by
    intro library
    rw [Bool.eq_iff_iff, decide_eq_true_iff, ← importsStatically_iff, Bool.not_eq_true',
      Bool.not_eq_true]
  have heq : libraryViolations text forbidden required
      = ((forbidden.filter fun library =>
            ImportedStatically text library ∨ ImportedDynamically text library).map
          .forbiddenLibrary ++
        (required.filter fun library => ¬ ImportedStatically text library).map
          .missingLibrary) := by
    rw [libraryViolations, List.filter_congr fun library _ => hused library,
      List.filter_congr fun library _ => hmissing library]
  refine ⟨heq, ?_⟩
  rw [heq, List.append_eq_nil_iff, List.map_eq_nil_iff, List.map_eq_nil_iff,
    List.filter_eq_nil_iff, List.filter_eq_nil_iff]
  simp only [decide_eq_true_eq, not_or, Decidable.not_not]

end ScriptRegistry.Source
