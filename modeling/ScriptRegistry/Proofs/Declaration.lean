/-
ScriptRegistry/Proofs/Declaration.lean

Which declarations of a class are looked at.

A declaration has a grammar (`Declaration`), and at most one stands at a place of a
text (`Declaration.unique`), so that the search has nothing to choose there.  It
goes on behind what it has found.  A declaration that begins inside another one
ends in it (`DeclaredAt.nested`), between the brackets of its base list; it is never
looked at, and every other one is (`declares_iff`).

Main results: `Declaration.unique`, `DeclaredAt.nested`, `declares_iff` and
`classViolation?_eq_none_iff_outermost`.
-/
import ScriptRegistry.Proofs.BaseList
import ScriptRegistry.Proofs.Keys

namespace ScriptRegistry.Source

open Text

/-! ### The grammar -/

/-- No round bracket. -/
def Unbracketed (w : List Char) : Prop :=
  '(' ∉ w ∧ ')' ∉ w

/-- Base lists: characters other than round brackets, and groups of such characters in round
brackets. -/
inductive Bases : List Char → Prop
  | nil : Bases []
  | char {c : Char} {w : List Char} (ho : c ≠ '(') (hc : c ≠ ')') (h : Bases w) : Bases (c :: w)
  | group {inner w : List Char} (hinner : Unbracketed inner) (h : Bases w) :
      Bases ('(' :: (inner ++ ')' :: w))

/-- What stands before the base list of a declaration and its bracket. -/
inductive Heading (name : List Char) : List Char → Prop
  | heading {g₁ g₂ : List Char} (h₁ : IsBlanks g₁) (hne : g₁ ≠ []) (h₂ : IsBlanks g₂) :
      Heading name ("class".toList ++ (g₁ ++ (name ++ g₂)))

/-- A declaration of a class with its base list. -/
inductive Declaration (name bases : List Char) : List Char → Prop
  | declaration {heading g : List Char} (hheading : Heading name heading) (hbases : Bases bases)
      (hg : IsBlanks g) :
      Declaration name bases (heading ++ '(' :: (bases ++ ')' :: (g ++ [':'])))

/-- A declaration of the class reaches from place `i` of the text to place `j`. -/
def DeclaredAt (text : List Char) (className : String) (i j : Nat) (bases : List Char) : Prop :=
  ∃ front w rest, text = front ++ (w ++ rest) ∧ front.length = i ∧ i + w.length = j ∧
    WordBreak front (w ++ rest) ∧ Declaration className.toList bases w

/-- No declaration of the class begins before the place and ends behind it. -/
def Outermost (text : List Char) (className : String) (i : Nat) : Prop :=
  ∀ i' j' bases', DeclaredAt text className i' j' bases' → i' < i → j' ≤ i

/-! ### Base lists and headings -/

theorem Unbracketed.bases {w : List Char} (h : Unbracketed w) : Bases w := by
  obtain ⟨ho, hc⟩ := h
  induction w with
  | nil => exact Bases.nil
  | cons c w ih =>
    rw [List.mem_cons, not_or] at ho hc
    exact Bases.char (Ne.symm ho.1) (Ne.symm hc.1) (ih ho.2 hc.2)

/-- Of two different characters in a text, one comes first. -/
theorem append_cons_cases {c d : Char} {u v x y : List Char} (hcd : c ≠ d)
    (h : u ++ c :: x = v ++ d :: y) :
    (∃ e, v = u ++ c :: e ∧ x = e ++ d :: y) ∨ (∃ e, u = v ++ d :: e ∧ y = e ++ c :: x) := by
  rcases List.append_eq_append_iff.mp h with ⟨e, rfl, he⟩ | ⟨e, rfl, he⟩
  · rcases e with - | ⟨c', e⟩
    · exact absurd (List.cons.inj he).1 hcd
    · rw [List.cons_append, List.cons.injEq] at he
      obtain ⟨rfl, rfl⟩ := he
      exact Or.inl ⟨e, rfl, rfl⟩
  · rcases e with - | ⟨d', e⟩
    · exact absurd (List.cons.inj he).1.symm hcd
    · rw [List.cons_append, List.cons.injEq] at he
      obtain ⟨rfl, rfl⟩ := he
      exact Or.inr ⟨e, rfl, rfl⟩

/-- **A base list ends at its closing bracket, and nowhere else.** -/
theorem Bases.unique {u v x y : List Char} (hu : Bases u) (hv : Bases v)
    (h : u ++ ')' :: x = v ++ ')' :: y) : u = v ∧ x = y := by
  induction hu generalizing v with
  | nil =>
    cases hv with
    | nil => exact ⟨rfl, (List.cons.inj h).2⟩
    | char ho hc hv => exact absurd (List.cons.inj h).1.symm hc
    | group hinner hv => exact absurd (List.cons.inj h).1 (by decide)
  | char ho hc hu ih =>
    cases hv with
    | nil => exact absurd (List.cons.inj h).1 hc
    | char ho' hc' hv =>
      obtain ⟨rfl, hrest⟩ := List.cons.inj h
      obtain ⟨rfl, hxy⟩ := ih hv hrest
      exact ⟨rfl, hxy⟩
    | group hinner hv => exact absurd (List.cons.inj h).1 ho
  | group hinner hu ih =>
    cases hv with
    | nil => exact absurd (List.cons.inj h).1 (by decide)
    | char ho' hc' hv => exact absurd (List.cons.inj h).1.symm ho'
    | group hinner' hv =>
      simp only [List.cons_append, List.append_assoc, List.cons.injEq, true_and] at h
      obtain ⟨rfl, hrest⟩ := append_separator_inj hinner.2 hinner'.2 h
      obtain ⟨rfl, hxy⟩ := ih hv hrest
      exact ⟨rfl, hxy⟩

/-- Every opening bracket of a base list begins a group. -/
theorem Bases.opening {w u v : List Char} (hw : Bases w) (h : w = u ++ '(' :: v) :
    ∃ inner w', Unbracketed inner ∧ Bases w' ∧ v = inner ++ ')' :: w' := by
  induction hw generalizing u with
  | nil => simp at h
  | char ho hc hw ih =>
    rcases u with - | ⟨d, u⟩
    · exact absurd (List.cons.inj h).1 ho
    · exact ih (List.cons.inj h).2
  | @group inner w hinner hw ih =>
    rcases u with - | ⟨d, u⟩
    · exact ⟨inner, w, hinner, hw, (List.cons.inj h).2.symm⟩
    · -- inside the group there is no further one
      rcases append_cons_cases (by decide) (List.cons.inj h).2 with ⟨e, rfl, he⟩ | ⟨e, rfl, -⟩
      · exact ih he
      · exact absurd (List.mem_append_right _ List.mem_cons_self) hinner.1

section Names

variable {name : List Char}

/-- Read from the end, the name behind which only blanks stand comes first. -/
theorem append_name_blanks_inj {u u' g g' : List Char} (h : IsName name) (hg : IsBlanks g)
    (hg' : IsBlanks g') (heq : u ++ (name ++ g) = u' ++ (name ++ g')) : u = u' ∧ g = g' := by
  rw [← List.append_assoc, ← List.append_assoc] at heq
  have hfront : u ++ name = u' ++ name := by
    rw [← trimEnd_append_name h u, ← trimEnd_append_blanks hg, heq, trimEnd_append_blanks hg',
      trimEnd_append_name h]
  rw [hfront] at heq
  exact ⟨List.append_cancel_right hfront, List.append_cancel_left heq⟩

theorem isName_class : IsName "class".toList :=
  ⟨by decide, List.all_eq_true.mp rfl⟩

theorem not_mem_of_isBlanks {g : List Char} {c : Char} (hg : IsBlanks g) (hc : isBlank c = false) :
    c ∉ g := by
  intro hmem
  rw [hg c hmem] at hc
  cases hc

theorem IsName.unbracketed (h : IsName name) : Unbracketed name := by
  constructor
  · intro hmem
    exact absurd (h.2 _ hmem) (by decide)
  · intro hmem
    exact absurd (h.2 _ hmem) (by decide)

theorem Heading.unbracketed {heading : List Char} (h : Heading name heading) (hname : IsName name) :
    Unbracketed heading := by
  obtain ⟨h₁, -, h₂⟩ := h
  simp only [Unbracketed, List.mem_append, not_or]
  exact ⟨⟨by decide, not_mem_of_isBlanks h₁ rfl, hname.unbracketed.1, not_mem_of_isBlanks h₂ rfl⟩,
    ⟨by decide, not_mem_of_isBlanks h₁ rfl, hname.unbracketed.2, not_mem_of_isBlanks h₂ rfl⟩⟩

/-- No heading ends in a shorter one. -/
theorem Heading.eq_nil_of_append {a heading : List Char} (hname : IsName name)
    (h : Heading name heading) (h' : Heading name (a ++ heading)) : a = [] := by
  obtain ⟨h₁, -, h₂⟩ := h
  generalize heq : a ++ _ = whole at h'
  obtain ⟨h₁', -, h₂'⟩ := h'
  simp only [← List.append_assoc] at heq
  simp only [List.append_assoc _ name] at heq
  have hnames := (append_name_blanks_inj hname h₂ h₂' heq).1
  rw [List.append_assoc, ← List.nil_append ("class".toList ++ _)] at hnames
  exact (append_name_blanks_inj isName_class h₁ h₁' hnames).1

/-- **At most one declaration of a class stands at a place.** -/
theorem Declaration.unique {bases bases' w w' x x' : List Char} (hname : IsName name)
    (h : Declaration name bases w) (h' : Declaration name bases' w') (heq : w ++ x = w' ++ x') :
    bases = bases' ∧ w = w' := by
  obtain ⟨hheading, hbases, hg⟩ := h
  obtain ⟨hheading', hbases', hg'⟩ := h'
  simp only [List.append_assoc, List.cons_append] at heq
  obtain ⟨rfl, hafter⟩ := append_separator_inj (hheading.unbracketed hname).1
    (hheading'.unbracketed hname).1 heq
  obtain ⟨rfl, htail⟩ := hbases.unique hbases' hafter
  obtain ⟨rfl, -⟩ := append_separator_inj (not_mem_of_isBlanks hg rfl)
    (not_mem_of_isBlanks hg' rfl) htail
  exact ⟨rfl, rfl⟩

end Names

/-! ### Declarations inside others -/

/-- A declaration begins with the first letter of its keyword. -/
theorem Declaration.exists_cons {name bases w : List Char} (h : Declaration name bases w) :
    ∃ u, w = 'c' :: u := by
  obtain ⟨⟨-, -, -⟩, -, -⟩ := h
  exact ⟨_, rfl⟩

/-- A declaration that begins in a base list, read together with what follows the list, ends in
the list: its own base list is one of the groups. -/
theorem Declaration.length_le_of_bases {name bases' y z w' t x' : List Char} (hname : IsName name)
    (hbases : Bases (y ++ z)) (h' : Declaration name bases' w') (heq : z ++ ')' :: t = w' ++ x') :
    w'.length ≤ z.length := by
  obtain @⟨heading', g', hheading', hbases', hg'⟩ := h'
  simp only [List.append_assoc, List.cons_append, List.nil_append] at heq
  rcases append_cons_cases (by decide) heq with ⟨e, rfl, -⟩ | ⟨e, rfl, hgroup⟩
  · -- the list would close inside the heading
    exact absurd (List.mem_append_right _ List.mem_cons_self) (hheading'.unbracketed hname).2
  · obtain ⟨inner, w, hinner, -, rfl⟩ := hbases.opening (List.append_assoc _ _ _).symm
    rw [List.append_assoc, List.cons_append] at hgroup
    obtain ⟨rfl, htail⟩ := hbases'.unique hinner.bases hgroup
    rcases append_cons_cases (by decide) htail with ⟨e, rfl, -⟩ | ⟨e, rfl, -⟩
    · simp only [List.length_append, List.length_cons, List.length_nil]
      omega
    · -- the list would close before the colon
      exact absurd (hg' _ (List.mem_append_right _ List.mem_cons_self)) (by decide)

/-- **A declaration that begins inside another one ends inside it.** -/
theorem Declaration.nested {name bases bases' a b w' x x' : List Char} (hname : IsName name)
    (h : Declaration name bases (a ++ b)) (h' : Declaration name bases' w') (ha : a ≠ [])
    (hb : b ≠ []) (heq : b ++ x = w' ++ x') : w'.length ≤ b.length := by
  obtain ⟨b, rfl⟩ : ∃ b', b = 'c' :: b' := by
    obtain ⟨c, b, rfl⟩ := List.exists_cons_of_ne_nil hb
    obtain ⟨u, rfl⟩ := h'.exists_cons
    exact ⟨b, by rw [(List.cons.inj heq).1]⟩
  generalize hw : a ++ 'c' :: b = w at h
  obtain @⟨heading, g, hheading, hbases, hg⟩ := h
  rcases append_cons_cases (by decide) hw with ⟨e, rfl, rfl⟩ | ⟨e, rfl, hinside⟩
  · -- inside the heading: it would end in a shorter one
    obtain ⟨hheading', -, -⟩ := h'
    have hfirst : '(' ∉ 'c' :: e := fun hmem =>
      (hheading.unbracketed hname).1 (List.mem_append_right _ hmem)
    rw [← List.cons_append, List.append_assoc, List.append_assoc] at heq
    obtain ⟨rfl, -⟩ := append_separator_inj hfirst (hheading'.unbracketed hname).1 heq
    exact absurd (hheading'.eq_nil_of_append hname hheading) ha
  · rcases append_cons_cases (by decide) hinside with ⟨e', rfl, hbehind⟩ | ⟨e', rfl, rfl⟩
    · -- behind the base list there are no letters
      have hletter : 'c' ∈ g ++ [':'] := by
        rw [hbehind]
        exact List.mem_append_right _ List.mem_cons_self
      rw [List.mem_append, List.mem_singleton] at hletter
      rcases hletter with hletter | hletter
      · exact absurd hletter (not_mem_of_isBlanks hg rfl)
      · exact absurd hletter (by decide)
    · rw [← List.cons_append, List.append_assoc, List.cons_append] at heq
      have hle := h'.length_le_of_bases hname hbases heq
      rw [← List.cons_append, List.length_append]
      exact Nat.le_add_right_of_le hle

/-! ### What the patterns look for -/

variable {before : Option Char} {w rest : List Char} {className : String}

theorem fits_notBracket_iff : notBracket.Fits before w rest ↔ ∃ c, w = [c] ∧ c ≠ '(' ∧ c ≠ ')' := by
  constructor
  · rintro ⟨c, hc, rfl⟩
    rw [Bool.and_eq_true, bne_iff_ne, bne_iff_ne] at hc
    exact ⟨c, rfl, hc⟩
  · rintro ⟨c, rfl, hc⟩
    refine Pattern.fits_char ?_
    rw [Bool.and_eq_true, bne_iff_ne, bne_iff_ne]
    exact hc

/-- The inside of a group. -/
theorem fits_many_notBracket_iff :
    (Pattern.many notBracket).Fits before w rest ↔ Unbracketed w := by
  rw [notBracket, fits_many_char_iff]
  simp only [Bool.and_eq_true, bne_iff_ne]
  constructor
  · intro h
    exact ⟨fun hmem => (h _ hmem).1 rfl, fun hmem => (h _ hmem).2 rfl⟩
  · rintro ⟨ho, hc⟩ c hmem
    exact ⟨fun h => ho (h ▸ hmem), fun h => hc (h ▸ hmem)⟩

/-- The pattern of a group in round brackets. -/
theorem fits_group_iff :
    (Pattern.all [.char (· == '('), .many notBracket, .char (· == ')')]).Fits before w rest ↔
      ∃ inner, Unbracketed inner ∧ w = '(' :: (inner ++ [')']) := by
  constructor
  · rintro ⟨_, _, rfl, ⟨o, ho, rfl⟩, inner, _, rfl, hinner, c, hc, rfl⟩
    obtain rfl : o = '(' := eq_of_beq ho
    obtain rfl : c = ')' := eq_of_beq hc
    exact ⟨inner, fits_many_notBracket_iff.mp hinner, rfl⟩
  · rintro ⟨inner, hinner, rfl⟩
    rw [← List.singleton_append]
    apply Pattern.Fits.seq (Pattern.fits_char rfl)
    exact Pattern.Fits.seq (fits_many_notBracket_iff.mpr hinner) (Pattern.fits_char rfl)

/-- The rounds of the pattern are the parts of a base list. -/
theorem fits_baseList_iff : baseList.Fits before w rest ↔ Bases w := by
  constructor
  · refine Pattern.of_repeated Bases.nil ?_
    rintro before u v rest (first | first) ih
    · obtain ⟨c, rfl, ho, hc⟩ := fits_notBracket_iff.mp first
      exact Bases.char ho hc ih
    · obtain ⟨inner, hinner, rfl⟩ := fits_group_iff.mp first
      rw [List.cons_append, List.append_assoc]
      exact Bases.group hinner ih
  · intro h
    induction h generalizing before with
    | nil => exact Pattern.Repeated.nil before rest
    | @char c w ho hc h ih =>
      show Pattern.Repeated _ before ([c] ++ w) rest
      exact Pattern.Repeated.cons (by simp) (Or.inl (fits_notBracket_iff.mpr ⟨c, rfl, ho, hc⟩)) ih
    | @group inner w hinner h ih =>
      have heq : '(' :: (inner ++ ')' :: w) = '(' :: (inner ++ [')']) ++ w := by simp
      rw [heq]
      exact Pattern.Repeated.cons (by simp) (Or.inr (fits_group_iff.mpr ⟨inner, hinner, rfl⟩)) ih

theorem fits_declarationHead_iff : (declarationHead className).Fits before w rest ↔
    ∃ heading, w = heading ++ ['('] ∧ Heading className.toList heading ∧
      isBoundary before (w ++ rest).head? = true := by
  constructor
  · rintro ⟨_, _, rfl, hword, g₁, _, rfl, h₁, _, _, rfl, rfl, g₂, _, rfl, h₂, c, hc, rfl⟩
    obtain rfl : c = '(' := eq_of_beq hc
    obtain ⟨rfl, hstart⟩ := (fits_keyword_iff "class").mp hword
    obtain ⟨hg₁, hne⟩ := fits_blanks_iff.mp h₁
    refine ⟨_, ?_, Heading.heading hg₁ hne (fits_anyBlanks_iff.mp h₂), ?_⟩
    · simp only [List.append_assoc]
    · rw [List.append_assoc]
      exact hstart
  · rintro ⟨_, rfl, @⟨g₁, g₂, h₁, hne, h₂⟩, hstart⟩
    have hkeyword : isBoundary before
        ("class".toList ++ (g₁ ++ (className.toList ++ (g₂ ++ ['('])) ++ rest)).head? = true := by
      simpa only [List.append_assoc] using hstart
    simp only [List.append_assoc]
    apply Pattern.Fits.seq ((fits_keyword_iff "class").mpr ⟨rfl, hkeyword⟩)
    apply Pattern.Fits.seq (fits_blanks_iff.mpr ⟨h₁, hne⟩)
    apply Pattern.Fits.seq (Pattern.fits_exactly _)
    exact Pattern.Fits.seq (fits_anyBlanks_iff.mpr h₂) (Pattern.fits_char rfl)

theorem fits_declarationTail_iff :
    declarationTail.Fits before w rest ↔ ∃ g, IsBlanks g ∧ w = ')' :: (g ++ [':']) := by
  constructor
  · rintro ⟨_, _, rfl, ⟨o, ho, rfl⟩, g, _, rfl, hg, c, hc, rfl⟩
    obtain rfl : o = ')' := eq_of_beq ho
    obtain rfl : c = ':' := eq_of_beq hc
    exact ⟨g, fits_anyBlanks_iff.mp hg, rfl⟩
  · rintro ⟨g, hg, rfl⟩
    rw [← List.singleton_append]
    apply Pattern.Fits.seq (Pattern.fits_char rfl)
    exact Pattern.Fits.seq (fits_anyBlanks_iff.mpr hg) (Pattern.fits_char rfl)

/-! ### The declaration at a site -/

/-- The stretch between two sites is what leads from the one to the other. -/
theorem upTo_of_reaches {s t : Site} {u : List Char} (h : s.Reaches u t) : s.upTo t = u := by
  rw [Site.upTo, h.after, List.length_append, Nat.add_sub_cancel, List.take_left]

/-- A stretch leads from a site to one place only. -/
theorem target_unique {s t t' : Site} {u : List Char} (h : s.Reaches u t)
    (h' : s.Reaches u t') : t = t' := by
  obtain ⟨before, after⟩ := t
  obtain ⟨before', after'⟩ := t'
  obtain rfl : before = before' := h.before.trans h'.before.symm
  obtain rfl : after = after' := List.append_cancel_left (h.after.symm.trans h'.after)
  rfl

/-- All that the pattern of a declaration can match at a site. -/
theorem mem_declarations_iff {s t : Site} {bases : List Char} :
    (bases, t) ∈ ((declarationHead className).sites s).flatMap (fun opened =>
        (baseList.sites opened).flatMap fun closed =>
          (declarationTail.sites closed).map fun behind => (opened.upTo closed, behind)) ↔
      isBoundary s.before s.after.head? = true ∧
        ∃ w, s.Reaches w t ∧ Declaration className.toList bases w := by
  simp only [List.mem_flatMap, List.mem_map, Prod.mk.injEq]
  constructor
  · rintro ⟨opened, hopened, closed, hclosed, _, htail, rfl, rfl⟩
    obtain ⟨u, hu, hhead⟩ := (Pattern.mem_sites_iff _ _ _).mp hopened
    obtain ⟨v, hv, hlist⟩ := (Pattern.mem_sites_iff _ _ _).mp hclosed
    obtain ⟨x, hx, hrest⟩ := (Pattern.mem_sites_iff _ _ _).mp htail
    obtain ⟨heading, rfl, hheading, hstart⟩ := fits_declarationHead_iff.mp hhead
    obtain ⟨g, hg, rfl⟩ := fits_declarationTail_iff.mp hrest
    rw [← hu.after] at hstart
    refine ⟨hstart, _, hu.trans (hv.trans hx), ?_⟩
    rw [upTo_of_reaches hv, List.append_assoc, List.singleton_append]
    exact Declaration.declaration hheading (fits_baseList_iff.mp hlist) hg
  · rintro ⟨hstart, w, hw, @⟨heading, g, hheading, hbases, hg⟩⟩
    rw [← List.singleton_append, ← List.append_assoc] at hw
    obtain ⟨hu, hrest⟩ := hw.split
    obtain ⟨hv, hx⟩ := hrest.split
    refine ⟨_, (Pattern.mem_sites_iff _ _ _).mpr ⟨_, hu, ?_⟩, _,
      (Pattern.mem_sites_iff _ _ _).mpr ⟨_, hv, fits_baseList_iff.mpr hbases⟩, t,
      (Pattern.mem_sites_iff _ _ _).mpr ⟨_, hx, fits_declarationTail_iff.mpr ⟨g, hg, rfl⟩⟩,
      upTo_of_reaches hv, rfl⟩
    rw [hu.after] at hstart
    exact fits_declarationHead_iff.mpr ⟨heading, rfl, hheading, hstart⟩

/-- **The search finds the declaration that stands at a site.** -/
theorem declarationAt_eq_some_iff (hname : IsName className.toList) {s t : Site}
    {bases : List Char} : declarationAt className s = some (bases, t) ↔
      isBoundary s.before s.after.head? = true ∧
        ∃ w, s.Reaches w t ∧ Declaration className.toList bases w := by
  rw [declarationAt, ← mem_declarations_iff]
  constructor
  · exact List.mem_of_mem_head?
  · intro hmem
    rw [List.head?_eq_some_head (List.ne_nil_of_mem hmem)]
    generalize hfound : List.head _ _ = found
    obtain ⟨bases', t'⟩ := found
    -- what is found and what is there are the same
    have hmem' := List.head_mem (List.ne_nil_of_mem hmem)
    rw [hfound] at hmem'
    obtain ⟨-, w, hw, hdecl⟩ := mem_declarations_iff.mp hmem
    obtain ⟨-, w', hw', hdecl'⟩ := mem_declarations_iff.mp hmem'
    have heq := hw.after.symm.trans hw'.after
    obtain ⟨rfl, rfl⟩ := hdecl.unique hname hdecl' heq
    rw [target_unique hw hw']

theorem declarationAt_eq_none_iff {s : Site} : declarationAt className s = none ↔
    isBoundary s.before s.after.head? = true → ∀ bases w t, s.Reaches w t →
      ¬ Declaration className.toList bases w := by
  rw [declarationAt, List.head?_eq_none_iff, List.eq_nil_iff_forall_not_mem]
  constructor
  · intro hnone hstart bases w t hw hdecl
    exact hnone (bases, t) (mem_declarations_iff.mpr ⟨hstart, w, hw, hdecl⟩)
  · rintro hnone ⟨bases, t⟩ hmem
    obtain ⟨hstart, w, hw, hdecl⟩ := mem_declarations_iff.mp hmem
    exact hnone hstart bases w t hw hdecl

/-! ### Places of declarations -/

/-- Whether a declaration stands right behind a front is a question of what follows it. -/
theorem declaredAt_length_iff {front cs bases : List Char} {j : Nat} :
    DeclaredAt (front ++ cs) className front.length j bases ↔ WordBreak front cs ∧
      ∃ w rest, cs = w ++ rest ∧ front.length + w.length = j ∧
        Declaration className.toList bases w := by
  constructor
  · rintro ⟨front', w, rest, heq, hlength, rfl, hbreak, h⟩
    obtain ⟨rfl, rfl⟩ := List.append_inj heq hlength.symm
    exact ⟨hbreak, w, rest, rfl, rfl, h⟩
  · rintro ⟨hbreak, w, rest, rfl, rfl, h⟩
    exact ⟨front, w, rest, rfl, rfl, rfl, hbreak, h⟩

section Places

variable {text bases bases' : List Char} {i i' j j' : Nat}

theorem DeclaredAt.lt (h : DeclaredAt text className i j bases) : i < j ∧ j ≤ text.length := by
  obtain ⟨front, w, rest, rfl, rfl, rfl, -, h⟩ := h
  obtain ⟨u, rfl⟩ := h.exists_cons
  simp only [List.length_append, List.length_cons]
  omega

theorem DeclaredAt.unique (hname : IsName className.toList)
    (h : DeclaredAt text className i j bases) (h' : DeclaredAt text className i j' bases') :
    j = j' ∧ bases = bases' := by
  obtain ⟨front, w, rest, rfl, rfl, rfl, -, h⟩ := h
  obtain ⟨-, w', rest', heq, rfl, hdecl⟩ := declaredAt_length_iff.mp h'
  obtain ⟨rfl, rfl⟩ := h.unique hname hdecl heq
  exact ⟨rfl, rfl⟩

/-- **Declarations of a class are one behind the other or one inside the other.** -/
theorem DeclaredAt.nested (hname : IsName className.toList)
    (h : DeclaredAt text className i j bases) (h' : DeclaredAt text className i' j' bases')
    (hi : i < i') (hj : i' < j) : j' ≤ j := by
  obtain ⟨front, w, rest, rfl, rfl, rfl, -, h⟩ := h
  obtain ⟨front', w', rest', heq, rfl, rfl, -, h'⟩ := h'
  rcases List.append_eq_append_iff.mp heq with ⟨a, rfl, ha⟩ | ⟨a, rfl, -⟩
  · rw [List.length_append] at hi hj
    rcases List.append_eq_append_iff.mp ha with ⟨b, rfl, -⟩ | ⟨b, rfl, hb⟩
    · rw [List.length_append] at hj
      omega
    · rw [List.length_append] at hj
      have hne : a ≠ [] := List.length_pos_iff.mp (by omega)
      have hne' : b ≠ [] := List.length_pos_iff.mp (by omega)
      have hle := h.nested hname h' hne hne' hb.symm
      rw [List.length_append, List.length_append]
      omega
  · rw [List.length_append] at hi
    omega

end Places

/-! ### The search -/

/-- From place `k` on, a declaration lists the base class and is not inside another one that
begins there. -/
def ListedFrom (text : List Char) (className baseClass : String) (k : Nat) : Prop :=
  ∃ i j bases, k ≤ i ∧ DeclaredAt text className i j bases ∧ namesBase bases baseClass = true ∧
    ∀ i' j' bases', DeclaredAt text className i' j' bases' → k ≤ i' → i' < i → j' ≤ i

section Search

variable {text bases : List Char} {baseClass : String} {j k : Nat}

theorem not_listedFrom_length : ¬ ListedFrom text className baseClass text.length := by
  rintro ⟨i, j, bases, hi, h, -, -⟩
  have hlt := h.lt
  omega

/-- Where no declaration begins, the search goes one character on. -/
theorem listedFrom_succ_iff (h : ∀ j bases, ¬ DeclaredAt text className k j bases) :
    ListedFrom text className baseClass k ↔ ListedFrom text className baseClass (k + 1) := by
  have hlater : ∀ {i j bases}, DeclaredAt text className i j bases → k ≤ i → k + 1 ≤ i := by
    intro i j bases hdecl hi
    rcases Nat.eq_or_lt_of_le hi with rfl | hi
    · exact absurd hdecl (h j bases)
    · exact hi
  constructor
  · rintro ⟨i, j, bases, hi, hdecl, hbase, houter⟩
    refine ⟨i, j, bases, hlater hdecl hi, hdecl, hbase, fun i' j' bases' hdecl' hi' => ?_⟩
    exact houter i' j' bases' hdecl' (Nat.le_of_succ_le hi')
  · rintro ⟨i, j, bases, hi, hdecl, hbase, houter⟩
    refine ⟨i, j, bases, Nat.le_of_succ_le hi, hdecl, hbase, fun i' j' bases' hdecl' hi' => ?_⟩
    exact houter i' j' bases' hdecl' (hlater hdecl' hi')

/-- Where a declaration begins, the search looks at it and goes on where it ends. -/
theorem listedFrom_declared_iff (hname : IsName className.toList)
    (h : DeclaredAt text className k j bases) : ListedFrom text className baseClass k ↔
      namesBase bases baseClass = true ∨ ListedFrom text className baseClass j := by
  have hlt := h.lt.1
  constructor
  · rintro ⟨i, j', bases', hi, hdecl, hbase, houter⟩
    rcases Nat.eq_or_lt_of_le hi with rfl | hi
    · obtain ⟨-, rfl⟩ := h.unique hname hdecl
      exact Or.inl hbase
    · refine Or.inr ⟨i, j', bases', houter _ _ _ h le_rfl hi, hdecl, hbase, ?_⟩
      exact fun i' j' bases' hdecl' hi' => houter i' j' bases' hdecl' (by omega)
  · rintro (hbase | ⟨i, j', bases', hi, hdecl, hbase, houter⟩)
    · exact ⟨k, j, bases, le_rfl, h, hbase, fun i' _ _ _ hle hlt => by omega⟩
    · refine ⟨i, j', bases', by omega, hdecl, hbase, fun i' j'' bases'' hdecl' hi' hbefore => ?_⟩
      by_cases hinside : i' < j
      · -- the declaration that was looked at, or one inside it
        have hend : j'' ≤ j := by
          rcases Nat.eq_or_lt_of_le hi' with rfl | hi'
          · exact (hdecl'.unique hname h).1.le
          · exact h.nested hname hdecl' hi' hinside
        exact hend.trans hi
      · exact houter i' j'' bases'' hdecl' (Nat.le_of_not_lt hinside) hbefore

/-- What belongs to a declaration that has been looked at is passed over. -/
theorem declaresFrom_length_append (before : Option Char) (u v : List Char) :
    declaresFrom className baseClass u.length before (u ++ v)
      = declaresFrom className baseClass 0 (behind before u) v := by
  induction u generalizing before with
  | nil => rfl
  | cons c u ih =>
    rw [List.length_cons, List.cons_append, declaresFrom, ih, behind_cons]

/-- **The search finds what is listed from its place on.** -/
theorem declaresFrom_iff (hname : IsName className.toList) (front cs : List Char) :
    declaresFrom className baseClass 0 (behind none front) cs = true ↔
      ListedFrom (front ++ cs) className baseClass front.length := by
  induction hn : cs.length using Nat.strong_induction_on generalizing front cs with
  | _ n ih =>
    rcases cs with - | ⟨c, cs⟩
    · rw [List.append_nil]
      exact iff_of_false Bool.false_ne_true not_listedFrom_length
    · have hbehind : behind none front = front.getLast? := Option.or_none
      rw [declaresFrom]
      cases hfound : declarationAt className ⟨behind none front, c :: cs⟩ with
      | none =>
        have hnext := ih cs.length (by simp at hn; omega) (front ++ [c]) cs rfl
        rw [behind_concat, List.append_assoc, List.singleton_append, List.length_append,
          List.length_singleton] at hnext
        refine hnext.trans (listedFrom_succ_iff fun j bases hdecl => ?_).symm
        obtain ⟨hbreak, w, rest, heq, -, hdecl⟩ := declaredAt_length_iff.mp hdecl
        rw [WordBreak, ← hbehind] at hbreak
        exact declarationAt_eq_none_iff.mp hfound hbreak bases w
          ⟨behind (behind none front) w, rest⟩ ⟨heq, rfl⟩ hdecl
      | some found =>
        obtain ⟨bases, t⟩ := found
        obtain ⟨hbreak, w, hw, hdecl⟩ := (declarationAt_eq_some_iff hname).mp hfound
        obtain ⟨u, rfl⟩ := hdecl.exists_cons
        obtain ⟨rfl, rfl⟩ : c = 'c' ∧ cs = u ++ t.after := List.cons.inj hw.after
        rw [hbehind] at hbreak
        have hplace : DeclaredAt (front ++ 'c' :: (u ++ t.after)) className front.length
            (front ++ 'c' :: u).length bases :=
          declaredAt_length_iff.mpr ⟨hbreak, 'c' :: u, t.after, rfl, List.length_append.symm, hdecl⟩
        -- the search goes on behind the declaration
        have hnext := ih t.after.length (by simp at hn; omega) (front ++ 'c' :: u) t.after rfl
        rw [behind_append, behind_cons, List.append_assoc, List.cons_append] at hnext
        rw [listedFrom_declared_iff hname hplace, ← hnext, ← declaresFrom_length_append,
          Bool.or_eq_true, List.length_append, Nat.add_sub_cancel]

end Search

/-! ### Class names -/

theorem isWord_of_isClassNameChar {c : Char} (h : isClassNameChar c = true) : isWord c = true := by
  have hascii : c.toNat < 128 := by
    rw [isClassNameChar, Bool.or_eq_true, beq_iff_eq] at h
    rcases h with h | rfl
    · delta Char.isAlphanum Char.isAlpha Char.isUpper Char.isLower Char.isDigit at h
      simp only [Bool.or_eq_true, Bool.and_eq_true, decide_eq_true_eq, ge_iff_le,
        UInt32.le_iff_toNat_le, Char.reduceVal, UInt32.reduceToNat, Char.toNat_val] at h
      omega
    · decide
  rw [isWord, if_pos hascii]
  exact h

/-- The name of a class is a word. -/
theorem isName_of_isClassName (h : isClassName className = true) : IsName className.toList := by
  rw [isClassName, Bool.and_eq_true, Bool.not_eq_true', List.isEmpty_eq_false_iff,
    List.all_eq_true] at h
  exact ⟨h.1, fun c hc => isWord_of_isClassNameChar (h.2 c hc)⟩

/-- **The declarations that are looked at are the outermost ones.** -/
theorem declares_iff {text : List Char} {baseClass : String} (h : isClassName className = true) :
    declares text className baseClass = true ↔ ∃ i j bases, DeclaredAt text className i j bases ∧
      Outermost text className i ∧ namesBase bases baseClass = true := by
  rw [declares]
  refine (declaresFrom_iff (isName_of_isClassName h) [] text).trans ?_
  refine exists_congr fun i => exists_congr fun j => exists_congr fun bases => ?_
  constructor
  · rintro ⟨-, hdecl, hbase, houter⟩
    exact ⟨hdecl, fun i' j' bases' hdecl' => houter i' j' bases' hdecl' (Nat.zero_le _), hbase⟩
  · rintro ⟨hdecl, houter, hbase⟩
    exact ⟨Nat.zero_le _, hdecl, hbase, fun i' j' bases' hdecl' _ => houter i' j' bases' hdecl'⟩

/-! ### The verdict -/

theorem classViolation?_eq_none_iff {text : List Char} {baseClass : String} :
    classViolation? text className baseClass = none ↔
      isClassName className = true ∧ declares text className baseClass = true := by
  rw [classViolation?]
  cases isClassName className with
  | false => simp
  | true => cases declares text className baseClass <;> simp

/-- **The class rule looks at the outermost declarations.**  A declaration of the class that lists
the base class is found wherever it stands, except inside another declaration of the class, which
is looked at in its place. -/
theorem classViolation?_eq_none_iff_outermost (text : List Char) (className baseClass : String)
    (h : isClassName className = true) : classViolation? text className baseClass = none ↔
      ∃ i j bases, DeclaredAt text className i j bases ∧ Outermost text className i ∧
        ∃ entry, HasEntry OutsideRound bases entry ∧ EndsIn entry baseClass.toList := by
  rw [classViolation?_eq_none_iff, declares_iff h]
  simp only [h, true_and, namesBase_iff]

/-- A declaration over several lines, with blanks wherever they may stand. -/
def spacedDeclaration : List Char :=
  "class A (\n    Mixin(b, c), core.OPALAlgorithm,\n) :\n    pass\n".toList

theorem classViolation?_spacedDeclaration : isClassName "A" = true ∧
    ∃ i j bases, DeclaredAt spacedDeclaration "A" i j bases ∧ Outermost spacedDeclaration "A" i ∧
      ∃ entry, HasEntry OutsideRound bases entry ∧ EndsIn entry "OPALAlgorithm".toList :=
  ⟨by decide, (classViolation?_eq_none_iff_outermost spacedDeclaration "A" "OPALAlgorithm"
    (by decide)).mp (by decide +kernel)⟩

/-- A declaration between two literals, which would make up another one around it. -/
def declarationBetweenLiterals : List Char :=
  "OPENING = \"class A(\"\nclass A(OPALAlgorithm):\n    pass\nCLOSING = \"):\"\n".toList

/-- The declaration is not found, although it stands there. -/
theorem classViolation?_declarationBetweenLiterals :
    (∃ i j bases, DeclaredAt declarationBetweenLiterals "A" i j bases ∧
      ∃ entry, HasEntry OutsideRound bases entry ∧ EndsIn entry "OPALAlgorithm".toList) ∧
    classViolation? declarationBetweenLiterals "A" "OPALAlgorithm"
      = some (.classNotFound "A" "OPALAlgorithm") := by
  refine ⟨⟨21, 44, "OPALAlgorithm".toList, ?_, namesBase_iff.mp (by decide)⟩, by decide +kernel⟩
  have hnone : IsBlanks [] := by simp [IsBlanks]
  have hspace : IsBlanks [' '] := by simp [IsBlanks, isBlank]
  have hheading : Heading "A".toList "class A".toList :=
    Heading.heading hspace (by simp) hnone
  have hbases : Bases "OPALAlgorithm".toList := Unbracketed.bases (by constructor <;> decide)
  exact ⟨"OPENING = \"class A(\"\n".toList, "class A(OPALAlgorithm):".toList,
    "\n    pass\nCLOSING = \"):\"\n".toList, rfl, rfl, rfl, rfl,
    Declaration.declaration hheading hbases hnone⟩

end ScriptRegistry.Source
