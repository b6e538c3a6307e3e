/-
ScriptRegistry/Proofs/ImportLine.lean

Lines that import a library, and that they are recognised.

`ImportLine` is the grammar of these lines: a list of modules with aliases, one of
them the library or something inside it; an import of names from the library; a
call with a literal of the library's name.  Each of them is kept as it stands
when comments are stripped (`ImportLine.settled`), and a pattern finds the
library in it (`ImportLine.usesLibrary`), with nothing asked of the text around
but that no word goes on at the two ends.

Main results: `ImportLine.settled` and `ImportLine.usesLibrary`.
-/
import ScriptRegistry.Proofs.Matching
import ScriptRegistry.Proofs.Stripping
import ScriptRegistry.Source.Analysis

namespace ScriptRegistry.Source

open Text

/-! ### Words and gaps -/

/-- Spaces and tabs. -/
def IsGap (w : List Char) : Prop :=
  ∀ c ∈ w, c = ' ' ∨ c = '\t'

/-- One or more word characters. -/
def IsName (w : List Char) : Prop :=
  w ≠ [] ∧ ∀ c ∈ w, isWord c = true

/-- One or more word characters and dots. -/
def IsPath (w : List Char) : Prop :=
  w ≠ [] ∧ ∀ c ∈ w, isWord c = true ∨ c = '.'

/-- No word goes on at a place with this neighbour. -/
def EndsWord (neighbour : Option Char) : Prop :=
  neighbour.any isWord = false

variable {w : List Char}

theorem isBlank_of_isGap (h : IsGap w) : ∀ c ∈ w, isBlank c = true := by
  intro c hc
  rcases h c hc with rfl | rfl <;> decide

theorem isPlain_of_isGap (h : IsGap w) : ∀ c ∈ w, isPlain c = true := by
  intro c hc
  rcases h c hc with rfl | rfl <;> decide

theorem endsWord_some {c : Char} (h : isWord c = false) : EndsWord (some c) := h

theorem isWord_of_isGap (h : IsGap w) : ∀ c ∈ w, isWord c = false := by
  intro c hc
  rcases h c hc with rfl | rfl <;> decide

/-- A gap does not begin a word, whatever stood before. -/
theorem EndsWord.behind_gap {before : Option Char} (h : EndsWord before) (hw : IsGap w) :
    EndsWord (behind before w) := by
  rcases w.eq_nil_or_concat with rfl | ⟨w, c, rfl⟩
  · exact h
  · rw [List.concat_eq_append, behind_concat]
    exact endsWord_some (isWord_of_isGap hw c (by simp))

theorem isPlain_of_isWord {c : Char} (h : isWord c = true) : isPlain c = true := by
  rw [isPlain_iff, isQuote, Bool.or_eq_false_iff, beq_eq_false_iff_ne, beq_eq_false_iff_ne]
  refine ⟨?_, ?_, ?_⟩ <;> rintro rfl <;> exact absurd h (by decide)

theorem isPlain_of_isPath (h : IsPath w) : ∀ c ∈ w, isPlain c = true := by
  intro c hc
  rcases h.2 c hc with hword | rfl
  · exact isPlain_of_isWord hword
  · decide

theorem IsName.isPath (h : IsName w) : IsPath w :=
  ⟨h.1, fun c hc => Or.inl (h.2 c hc)⟩

/-- Behind a name a word has just been read. -/
theorem IsName.behind (h : IsName w) (before : Option Char) :
    (Text.behind before w).any isWord = true := by
  rcases w.eq_nil_or_concat with rfl | ⟨w, c, rfl⟩
  · exact absurd rfl h.1
  · rw [List.concat_eq_append, behind_concat]
    exact h.2 c (by simp)

/-! ### The grammar -/

/-- The library, or something inside it. -/
inductive NameIn (library : List Char) : List Char → Prop
  | itself : NameIn library library
  | inside {path : List Char} (h : IsPath path) : NameIn library (library ++ '.' :: path)

/-- A module, perhaps under another name. -/
inductive Aliased (name : List Char) : List Char → Prop
  | plain : Aliased name name
  | renamed {g₁ g₂ other : List Char} (h₁ : IsGap g₁) (hne₁ : g₁ ≠ []) (h₂ : IsGap g₂)
      (hne₂ : g₂ ≠ []) (hother : IsName other) :
      Aliased name (name ++ (g₁ ++ (['a', 's'] ++ (g₂ ++ other))))

/-- The rest of a list of modules. -/
inductive MoreModules : List Char → Prop
  | done : MoreModules []
  | more {g₁ g₂ name element rest : List Char} (h₁ : IsGap g₁) (h₂ : IsGap g₂)
      (hname : IsPath name) (helement : Aliased name element) (h : MoreModules rest) :
      MoreModules (g₁ ++ ',' :: (g₂ ++ (element ++ rest)))

/-- A list of modules with the library, or something inside it, among them. -/
inductive ModulesWith (library : List Char) : List Char → Prop
  | here {name element rest : List Char} (hname : NameIn library name)
      (helement : Aliased name element) (h : MoreModules rest) :
      ModulesWith library (element ++ rest)
  | later {g₁ g₂ name element rest : List Char} (hname : IsPath name)
      (helement : Aliased name element) (h₁ : IsGap g₁) (h₂ : IsGap g₂)
      (h : ModulesWith library rest) :
      ModulesWith library (element ++ (g₁ ++ ',' :: (g₂ ++ rest)))

/-- What may stand in front of a call: nothing, or a name that takes the value. -/
inductive Assigned : List Char → Prop
  | nothing : Assigned []
  | name {name g₁ g₂ : List Char} (hname : IsName name) (h₁ : IsGap g₁) (h₂ : IsGap g₂) :
      Assigned (name ++ (g₁ ++ '=' :: g₂))

/-- A statement that imports the library. -/
inductive ImportStatement (library : List Char) : List Char → Prop
  | modules {g modules : List Char} (hg : IsGap g) (hne : g ≠ [])
      (h : ModulesWith library modules) :
      ImportStatement library ("import".toList ++ (g ++ modules))
  | names {g₁ g₂ g₃ name names : List Char} (h₁ : IsGap g₁) (hne₁ : g₁ ≠ [])
      (hname : NameIn library name) (h₂ : IsGap g₂) (hne₂ : g₂ ≠ []) (h₃ : IsGap g₃)
      (hnames : ∀ c ∈ names, isPlain c = true) :
      ImportStatement library
        ("from".toList ++ (g₁ ++ (name ++ (g₂ ++ ("import".toList ++ (g₃ ++ names))))))
  | call {target callee g₁ g₂ g₃ name : List Char} {q : Char} (htarget : Assigned target)
      (hcallee : callee = "__import__".toList ∨ callee = "import_module".toList) (h₁ : IsGap g₁)
      (h₂ : IsGap g₂) (hq : isQuote q = true) (hname : NameIn library name) (h₃ : IsGap g₃) :
      ImportStatement library
        (target ++ (callee ++ (g₁ ++ '(' :: (g₂ ++ q :: (name ++ q :: (g₃ ++ [')']))))))

/-- A line with a statement that imports the library. -/
inductive ImportLine (library : List Char) : List Char → Prop
  | line {g₁ statement g₂ : List Char} (h₁ : IsGap g₁) (h : ImportStatement library statement)
      (h₂ : IsGap g₂) : ImportLine library (g₁ ++ (statement ++ g₂))

/-! ### Stripping keeps import lines -/

theorem NameIn.isPath {library name : List Char} (h : NameIn library name)
    (hlibrary : IsName library) : IsPath name := by
  cases h with
  | itself => exact hlibrary.isPath
  | @inside path hpath =>
    refine ⟨by simp, fun c hc => ?_⟩
    rcases List.mem_append.mp hc with hc | hc
    · exact Or.inl (hlibrary.2 c hc)
    · rcases List.mem_cons.mp hc with rfl | hc
      · exact Or.inr rfl
      · exact hpath.2 c hc

theorem isPlain_append {u v : List Char} (hu : ∀ c ∈ u, isPlain c = true)
    (hv : ∀ c ∈ v, isPlain c = true) : ∀ c ∈ u ++ v, isPlain c = true := by
  intro c hc
  rcases List.mem_append.mp hc with hc | hc
  · exact hu c hc
  · exact hv c hc

theorem isPlain_cons {d : Char} {v : List Char} (hd : isPlain d = true)
    (hv : ∀ c ∈ v, isPlain c = true) : ∀ c ∈ d :: v, isPlain c = true := by
  intro c hc
  rcases List.mem_cons.mp hc with rfl | hc
  · exact hd
  · exact hv c hc

theorem Aliased.isPlain {name element : List Char} (h : Aliased name element)
    (hname : IsPath name) : ∀ c ∈ element, isPlain c = true := by
  cases h with
  | plain => exact isPlain_of_isPath hname
  | renamed h₁ hne₁ h₂ hne₂ hother =>
    apply isPlain_append (isPlain_of_isPath hname)
    apply isPlain_append (isPlain_of_isGap h₁)
    apply isPlain_append (List.all_eq_true.mp rfl)
    exact isPlain_append (isPlain_of_isGap h₂) (isPlain_of_isPath hother.isPath)

theorem MoreModules.isPlain {modules : List Char} (h : MoreModules modules) :
    ∀ c ∈ modules, isPlain c = true := by
  induction h with
  | done => exact fun c hc => by cases hc
  | more h₁ h₂ hname helement h ih =>
    apply isPlain_append (isPlain_of_isGap h₁)
    apply isPlain_cons (by decide)
    apply isPlain_append (isPlain_of_isGap h₂)
    exact isPlain_append (helement.isPlain hname) ih

theorem ModulesWith.isPlain {library modules : List Char} (h : ModulesWith library modules)
    (hlibrary : IsName library) : ∀ c ∈ modules, isPlain c = true := by
  induction h with
  | here hname helement h =>
    exact isPlain_append (helement.isPlain (hname.isPath hlibrary)) h.isPlain
  | later hname helement h₁ h₂ h ih =>
    apply isPlain_append (helement.isPlain hname)
    apply isPlain_append (isPlain_of_isGap h₁)
    apply isPlain_cons (by decide)
    exact isPlain_append (isPlain_of_isGap h₂) ih

theorem Assigned.isPlain {target : List Char} (h : Assigned target) :
    ∀ c ∈ target, isPlain c = true := by
  cases h with
  | nothing => exact fun c hc => by cases hc
  | name hname h₁ h₂ =>
    apply isPlain_append (isPlain_of_isPath hname.isPath)
    apply isPlain_append (isPlain_of_isGap h₁)
    exact isPlain_cons (by decide) (isPlain_of_isGap h₂)

/-- A path needs no escapes in a literal. -/
theorem IsPath.literalBody {q : Char} (hq : isQuote q = true) (h : IsPath w) : LiteralBody q w := by
  obtain ⟨-, hall⟩ := h
  induction w with
  | nil => exact LiteralBody.nil
  | cons c w ih =>
    have hc := hall c List.mem_cons_self
    have hplain : isPlain c = true := by
      rcases hc with hword | rfl
      · exact isPlain_of_isWord hword
      · decide
    refine LiteralBody.plain ?_ ?_ ?_ (ih fun d hd => hall d (List.mem_cons_of_mem _ hd))
    · rintro rfl
      cases hq.symm.trans (isPlain_iff.mp hplain).2
    · rintro rfl
      revert hc
      decide
    · rintro rfl
      revert hc
      decide

theorem settled_of_isPlain (hw : ∀ c ∈ w, isPlain c = true) : Settled w w := by
  have h := Settled.of_plain hw Settled.nil
  rw [List.append_nil] at h
  exact h

/-- **An import line is settled and kept as it stands.** -/
theorem ImportLine.settled {library line : List Char} (h : ImportLine library line)
    (hlibrary : IsName library) : Settled line line := by
  obtain @⟨g₁, statement, g₂, h₁, h, h₂⟩ := h
  apply Settled.of_plain (isPlain_of_isGap h₁)
  cases h with
  | modules hg hne h =>
    apply settled_of_isPlain
    refine isPlain_append ?_ (isPlain_of_isGap h₂)
    apply isPlain_append (List.all_eq_true.mp rfl)
    exact isPlain_append (isPlain_of_isGap hg) (h.isPlain hlibrary)
  | names h₃ hne₃ hname h₄ hne₄ h₅ hnames =>
    apply settled_of_isPlain
    refine isPlain_append ?_ (isPlain_of_isGap h₂)
    apply isPlain_append (List.all_eq_true.mp rfl)
    apply isPlain_append (isPlain_of_isGap h₃)
    apply isPlain_append (isPlain_of_isPath (hname.isPath hlibrary))
    apply isPlain_append (isPlain_of_isGap h₄)
    apply isPlain_append (List.all_eq_true.mp rfl)
    exact isPlain_append (isPlain_of_isGap h₅) hnames
  | @call target callee g₃ g₄ g₅ name q htarget hcallee h₃ h₄ hq hname h₅ =>
    -- the line is plain but for the literal in the call
    have hpath := hname.isPath hlibrary
    have hfront : ∀ c ∈ target ++ (callee ++ (g₃ ++ '(' :: g₄)), isPlain c = true := by
      apply isPlain_append htarget.isPlain
      apply isPlain_append
      · rcases hcallee with rfl | rfl <;> exact List.all_eq_true.mp rfl
      · apply isPlain_append (isPlain_of_isGap h₃)
        exact isPlain_cons (by decide) (isPlain_of_isGap h₄)
    have hback : ∀ c ∈ g₅ ++ [')'] ++ g₂, isPlain c = true := by
      refine isPlain_append ?_ (isPlain_of_isGap h₂)
      exact isPlain_append (isPlain_of_isGap h₅) (List.all_eq_true.mp rfl)
    have hcall : target ++ (callee ++ (g₃ ++ '(' :: (g₄ ++ q :: (name ++ q :: (g₅ ++ [')'])))))
          ++ g₂
        = target ++ (callee ++ (g₃ ++ '(' :: g₄)) ++ q :: (name ++ q :: (g₅ ++ [')'] ++ g₂)) := by
      simp
    rw [hcall]
    apply Settled.of_plain hfront
    refine Settled.literal hq (hpath.literalBody hq) ?_ (settled_of_isPlain hback)
    intro hnil
    exact absurd hnil hpath.1

/-! ### The patterns find the library -/

variable {before : Option Char} {rest : List Char}

/-- A word starts behind a place where none goes on. -/
theorem isBoundary_of_endsWord {after : Option Char} (h : EndsWord before)
    (hafter : after.any isWord = true) : isBoundary before after = true := by
  rw [isBoundary, h, hafter]
  rfl

theorem fits_keyword (word : String) (hbefore : EndsWord before)
    (hword : (word.toList ++ rest).head?.any isWord = true) :
    (keyword word).Fits before word.toList rest := by
  exact ⟨[], word.toList, rfl, ⟨rfl, isBoundary_of_endsWord hbefore hword⟩, rfl⟩

/-- A name is found where no word goes on behind it. -/
theorem fits_libraryName {library : String} (hlibrary : IsName library.toList)
    (hrest : EndsWord rest.head?) : (libraryName library).Fits before library.toList rest := by
  have hboundary : isBoundary (behind before library.toList) rest.head? = true := by
    rw [isBoundary, hrest, hlibrary.behind]
    rfl
  exact ⟨library.toList, [], (List.append_nil _).symm, rfl, rfl, hboundary⟩

theorem fits_blanks (hw : IsGap w) (hne : w ≠ []) : blanks.Fits before w rest :=
  Pattern.fits_some_char hne (isBlank_of_isGap hw)

theorem fits_anyBlanks (hw : IsGap w) : anyBlanks.Fits before w rest :=
  Pattern.fits_many_char (isBlank_of_isGap hw)

/-! #### What stands behind a name -/

theorem EndsWord.append {u v : List Char} (hu : EndsWord u.head?) (hv : EndsWord v.head?) :
    EndsWord (u ++ v).head? := by
  cases u with
  | nil => exact hv
  | cons c u => exact hu

theorem endsWord_of_isGap (h : IsGap w) : EndsWord w.head? := by
  cases w with
  | nil => rfl
  | cons c w => exact endsWord_some (isWord_of_isGap h c List.mem_cons_self)

theorem NameIn.split {library name : List Char} (h : NameIn library name) :
    ∃ inner, name = library ++ inner ∧ EndsWord inner.head? := by
  cases h with
  | itself => exact ⟨[], (List.append_nil _).symm, rfl⟩
  | @inside path h => exact ⟨'.' :: path, rfl, endsWord_some (by decide)⟩

/-- An alias begins with a gap, and the pattern passes over it. -/
theorem Aliased.split {name element : List Char} (h : Aliased name element) :
    ∃ other, element = name ++ other ∧ EndsWord other.head? ∧ ∀ before rest,
      (Pattern.optional (.all [blanks, .exactly ['a', 's'], blanks, .some (.char isWord)])).Fits
        before other rest := by
  cases h with
  | plain => exact ⟨[], (List.append_nil _).symm, rfl, fun before rest => Or.inr rfl⟩
  | @renamed g₁ g₂ other h₁ hne₁ h₂ hne₂ hother =>
    refine ⟨_, rfl, ?_, fun before rest => Or.inl ?_⟩
    · obtain ⟨c, g₁, rfl⟩ := List.exists_cons_of_ne_nil hne₁
      exact endsWord_some (isWord_of_isGap h₁ c List.mem_cons_self)
    · apply Pattern.Fits.seq (fits_blanks h₁ hne₁)
      apply Pattern.Fits.seq (Pattern.fits_exactly _)
      apply Pattern.Fits.seq (fits_blanks h₂ hne₂)
      exact Pattern.fits_some_char hother.1 hother.2

theorem MoreModules.endsWord {modules : List Char} (h : MoreModules modules) :
    EndsWord modules.head? := by
  cases h with
  | done => rfl
  | more h₁ h₂ hname helement h =>
    exact (endsWord_of_isGap h₁).append (endsWord_some (by decide))

/-! #### Lists of modules -/

theorem fits_listedModule {g₁ g₂ name element : List Char} (hname : IsPath name)
    (helement : Aliased name element) (h₁ : IsGap g₁) (h₂ : IsGap g₂) :
    listedModule.Fits before (element ++ (g₁ ++ ',' :: g₂)) rest := by
  have hchars : ∀ c ∈ name, (isWord c || c == '.') = true := by
    intro c hc
    rcases hname.2 c hc with hword | rfl
    · rw [hword, Bool.true_or]
    · decide
  obtain ⟨other, rfl, -, hother⟩ := helement.split
  rw [List.append_assoc]
  apply Pattern.Fits.seq (Pattern.fits_some_char hname.1 hchars)
  apply Pattern.Fits.seq (hother _ _)
  apply Pattern.Fits.seq (fits_anyBlanks h₁)
  show Pattern.Fits _ _ ([','] ++ g₂) rest
  exact Pattern.Fits.seq (Pattern.fits_char rfl) (fits_anyBlanks h₂)

/-- In a list the library is reached behind any number of other modules. -/
theorem ModulesWith.split {library modules : List Char} (h : ModulesWith library modules) :
    ∃ front back, modules = front ++ (library ++ back) ∧ EndsWord back.head? ∧
      ∀ before rest, (Pattern.many listedModule).Fits before front rest := by
  induction h with
  | @here name element rest hname helement h =>
    -- behind the library come what is inside it, an alias, and more modules
    obtain ⟨other, rfl, hother, -⟩ := helement.split
    obtain ⟨inner, rfl, hinner⟩ := hname.split
    refine ⟨[], inner ++ (other ++ rest), by simp, ?_, fun before rest => .nil before rest⟩
    exact hinner.append (hother.append h.endsWord)
  | @later g₁ g₂ name element rest hname helement h₁ h₂ h ih =>
    obtain ⟨front, back, rfl, hback, hfront⟩ := ih
    refine ⟨element ++ (g₁ ++ ',' :: g₂) ++ front, back, by simp, hback, fun before rest => ?_⟩
    apply Pattern.Repeated.cons
    · simp
    · exact fits_listedModule hname helement h₁ h₂
    · exact hfront _ _

/-! #### Whole lines -/

/-- Behind the name that takes a value, no word goes on. -/
theorem Assigned.behind {target : List Char} (h : Assigned target) (hbefore : EndsWord before) :
    EndsWord (Text.behind before target) := by
  cases h with
  | nothing => exact hbefore
  | @name name g₁ g₂ hname h₁ h₂ =>
    rw [← List.append_assoc, behind_append, behind_cons]
    exact EndsWord.behind_gap (endsWord_some (by decide)) h₂

/-- A list of modules with the library imports it. -/
theorem importsStatically_of_modules {library : String} {front g modules : List Char}
    (hlibrary : IsName library.toList) (hfront : EndsWord (behind none front)) (hg : IsGap g)
    (hne : g ≠ []) (h : ModulesWith library.toList modules) (hrest : EndsWord rest.head?) :
    importsStatically (front ++ ("import".toList ++ (g ++ (modules ++ rest)))) library = true := by
  obtain ⟨others, back, rfl, hback, hothers⟩ := h.split
  refine Pattern.occursIn_iff.mpr ⟨front,
    "import".toList ++ (g ++ (others ++ library.toList)), back ++ rest, by simp, Or.inl ?_⟩
  apply Pattern.Fits.seq (fits_keyword "import" hfront rfl)
  apply Pattern.Fits.seq (fits_blanks hg hne)
  apply Pattern.Fits.seq (hothers _ _)
  exact fits_libraryName hlibrary (hback.append hrest)

/-- An import of names from the library imports it. -/
theorem importsStatically_of_names {library : String} {front g name : List Char}
    (hlibrary : IsName library.toList) (hfront : EndsWord (behind none front)) (hg : IsGap g)
    (hne : g ≠ []) (hname : NameIn library.toList name) (hrest : EndsWord rest.head?) :
    importsStatically (front ++ ("from".toList ++ (g ++ (name ++ rest)))) library = true := by
  obtain ⟨inner, rfl, hinner⟩ := hname.split
  refine Pattern.occursIn_iff.mpr ⟨front, "from".toList ++ (g ++ library.toList), inner ++ rest,
    by simp, Or.inr ?_⟩
  apply Pattern.Fits.seq (fits_keyword "from" hfront rfl)
  apply Pattern.Fits.seq (fits_blanks hg hne)
  exact fits_libraryName hlibrary (hinner.append hrest)

/-- A call with a literal of the library's name imports it. -/
theorem importsDynamically_of_call {library : String} {front callee g₁ g₂ name : List Char}
    {q : Char} (hlibrary : IsName library.toList) (hfront : EndsWord (behind none front))
    (hcallee : callee = "__import__".toList ∨ callee = "import_module".toList)
    (h₁ : ∀ c ∈ g₁, isBlank c = true) (h₂ : ∀ c ∈ g₂, isBlank c = true) (hq : isQuote q = true)
    (hname : NameIn library.toList name) :
    importsDynamically (front ++ (callee ++ (g₁ ++ '(' :: (g₂ ++ q :: (name ++ q :: rest)))))
      library = true := by
  obtain ⟨inner, rfl, hinner⟩ := hname.split
  have hquote : EndsWord (q :: rest).head? := by
    rw [isQuote, Bool.or_eq_true, beq_iff_eq, beq_iff_eq] at hq
    rcases hq with rfl | rfl <;> exact endsWord_some (by decide)
  -- the pattern ends with the name; the closing quote is not part of the stretch
  refine Pattern.occursIn_iff.mpr ⟨front,
    [] ++ (callee ++ (g₁ ++ (['('] ++ (g₂ ++ ([q] ++ library.toList))))), inner ++ q :: rest,
    by simp, ?_⟩
  have hword : ∀ rest : List Char, (callee ++ rest).head?.any isWord = true := by
    intro rest
    rcases hcallee with rfl | rfl <;> rfl
  have hfits : ∀ before rest, (Pattern.either (.exactly "__import__".toList)
      (.exactly "import_module".toList)).Fits before callee rest := fun _ _ => hcallee
  apply Pattern.Fits.seq (Pattern.fits_boundary (isBoundary_of_endsWord hfront ?_))
  · apply Pattern.Fits.seq (hfits _ _)
    apply Pattern.Fits.seq (Pattern.fits_many_char h₁)
    apply Pattern.Fits.seq (Pattern.fits_char rfl)
    apply Pattern.Fits.seq (Pattern.fits_many_char h₂)
    apply Pattern.Fits.seq (Pattern.fits_char hq)
    exact fits_libraryName hlibrary (hinner.append hquote)
  · rw [List.append_assoc]
    exact hword _

/-- **In an import line the library is found, whatever stands around the line.** -/
theorem ImportLine.usesLibrary {library : String} {line front : List Char}
    (h : ImportLine library.toList line) (hlibrary : IsName library.toList)
    (hfront : EndsWord (behind none front)) (hrest : EndsWord rest.head?) :
    Source.usesLibrary (front ++ (line ++ rest)) library = true := by
  obtain @⟨g₁, statement, g₂, h₁, h, h₂⟩ := h
  have hbefore : EndsWord (behind none (front ++ g₁)) := by
    rw [behind_append]
    exact hfront.behind_gap h₁
  have hafter : EndsWord (g₂ ++ rest).head? := (endsWord_of_isGap h₂).append hrest
  rw [Source.usesLibrary, Bool.or_eq_true]
  cases h with
  | @modules g modules hg hne h =>
    have hfound := importsStatically_of_modules hlibrary hbefore hg hne h hafter
    left
    simpa using hfound
  | @names g₃ g₄ g₅ name names h₃ hne₃ hname h₄ hne₄ h₅ hnames =>
    have hnext : EndsWord (g₄ ++ ("import".toList ++ (g₅ ++ (names ++ (g₂ ++ rest))))).head? := by
      obtain ⟨c, g₄, rfl⟩ := List.exists_cons_of_ne_nil hne₄
      exact endsWord_some (isWord_of_isGap h₄ c List.mem_cons_self)
    have hfound := importsStatically_of_names hlibrary hbefore h₃ hne₃ hname hnext
    left
    simpa using hfound
  | @call target callee g₃ g₄ g₅ name q htarget hcallee h₃ h₄ hq hname h₅ =>
    have hbefore' : EndsWord (behind none (front ++ g₁ ++ target)) := by
      rw [behind_append]
      exact htarget.behind hbefore
    have hfound : importsDynamically (front ++ g₁ ++ target ++ (callee ++ (g₃ ++ '(' ::
        (g₄ ++ q :: (name ++ q :: (g₅ ++ ([')'] ++ (g₂ ++ rest)))))))) library = true :=
      importsDynamically_of_call hlibrary hbefore' hcallee (isBlank_of_isGap h₃)
        (isBlank_of_isGap h₄) hq hname
    right
    simpa using hfound

/-! ### Violations -/

/-- A forbidden library is reported where it is used. -/
theorem forbiddenLibrary_mem_iff {library : String} {text : List Char} {forbidden : List String}
    (required : List String) :
    Violation.forbiddenLibrary library ∈ libraryViolations text forbidden required ↔
      library ∈ forbidden ∧ usesLibrary text library = true := by
  rw [libraryViolations]
  simp

end ScriptRegistry.Source
