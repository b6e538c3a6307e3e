/-
ScriptRegistry/Proofs/Matching.lean

What patterns look like.

`Pattern.Fits` says what a stretch of text between two neighbours has to be for a
pattern to match it, by recursion on the pattern and without any search; only a
boundary looks at the neighbours.  `mem_sites_iff` is the proof that the matcher
finds all of these stretches and no others.  For repetitions it needs a bound:
each round reads something, so that there are no more rounds than characters.

A match sees little of what is around it (`Fits.congr`), so that a character that
belongs to no word cuts a text in two: what is found in the text is found in one
of the two parts, or runs across the cut (`occursIn_cons_iff`).

Main results: `mem_sites_iff`, `occursIn_iff` and `occursIn_cons_iff`.
-/
import ScriptRegistry.Text.Pattern

namespace ScriptRegistry.Text

/-- The character before a site that lies behind some text. -/
def behind (before : Option Char) (w : List Char) : Option Char :=
  w.getLast?.or before

@[simp]
theorem behind_concat (before : Option Char) (w : List Char) (c : Char) :
    behind before (w ++ [c]) = some c := by
  rw [behind, List.getLast?_concat]
  rfl

theorem behind_append (before : Option Char) (u v : List Char) :
    behind before (u ++ v) = behind (behind before u) v := by
  rw [behind, behind, behind, List.getLast?_append, Option.or_assoc]

theorem behind_cons (before : Option Char) (c : Char) (w : List Char) :
    behind before (c :: w) = behind (some c) w :=
  behind_append before [c] w

namespace Pattern

/-! ### Stretches -/

/-- Any number of stretches one behind the other, none of them empty. -/
inductive Repeated (fits : Option Char → List Char → List Char → Prop) :
    Option Char → List Char → List Char → Prop
  | nil (before : Option Char) (rest : List Char) : Repeated fits before [] rest
  | cons {before : Option Char} {u v rest : List Char} (hu : u ≠ [])
      (first : fits before u (v ++ rest)) (others : Repeated fits (behind before u) v rest) :
      Repeated fits before (u ++ v) rest

/-- What holds of nothing, and then with one more stretch in front, holds of any number of
stretches. -/
theorem of_repeated {fits : Option Char → List Char → List Char → Prop} {P : List Char → Prop}
    (hnil : P []) (hcons : ∀ before u v rest, fits before u rest → P v → P (u ++ v))
    {before : Option Char} {w rest : List Char} (h : Repeated fits before w rest) : P w := by
  induction h with
  | nil => exact hnil
  | cons hu first others ih => exact hcons _ _ _ _ first ih

/-- The stretch `w` looks like the pattern where it stands behind `before` and is
followed by `rest`. -/
def Fits : Pattern → Option Char → List Char → List Char → Prop
  | nothing, _, w, _ => w = []
  | char p, _, w, _ => ∃ c, p c = true ∧ w = [c]
  | exactly cs, _, w, _ => w = cs
  | boundary, before, w, rest => w = [] ∧ isBoundary before rest.head? = true
  | seq p q, before, w, rest => ∃ u v, w = u ++ v ∧ p.Fits before u (v ++ rest) ∧
      q.Fits (behind before u) v rest
  | either p q, before, w, rest => p.Fits before w rest ∨ q.Fits before w rest
  | many p, before, w, rest => Repeated p.Fits before w rest

variable {p q : Pattern} {before : Option Char} {u v w rest : List Char}

theorem Fits.seq (hp : p.Fits before u (v ++ rest)) (hq : q.Fits (behind before u) v rest) :
    (seq p q).Fits before (u ++ v) rest :=
  ⟨u, v, rfl, hp, hq⟩

theorem fits_exactly (cs : List Char) : (exactly cs).Fits before cs rest := rfl

theorem fits_char {f : Char → Bool} {c : Char} (hc : f c = true) :
    (char f).Fits before [c] rest :=
  ⟨c, hc, rfl⟩

theorem fits_boundary (h : isBoundary before rest.head? = true) : boundary.Fits before [] rest :=
  ⟨rfl, h⟩

/-- One or more characters of a class. -/
theorem fits_some_char {f : Char → Bool} (hw : w ≠ []) (hall : ∀ c ∈ w, f c = true) :
    (some (char f)).Fits before w rest := by
  have hmany : ∀ (w : List Char) (before : Option Char), (∀ c ∈ w, f c = true) →
      (many (char f)).Fits before w rest := by
    intro w
    induction w with
    | nil =>
      intro before _
      exact Repeated.nil before rest
    | cons c w ih =>
      intro before hall
      show Repeated _ before ([c] ++ w) rest
      apply Repeated.cons (by simp)
      · exact fits_char (hall c List.mem_cons_self)
      · exact ih _ fun d hd => hall d (List.mem_cons_of_mem _ hd)
  obtain ⟨c, w, rfl⟩ := List.exists_cons_of_ne_nil hw
  show (seq (char f) (many (char f))).Fits before ([c] ++ w) rest
  apply Fits.seq
  · exact fits_char (hall c List.mem_cons_self)
  · exact hmany w _ fun d hd => hall d (List.mem_cons_of_mem _ hd)

/-- Any number of characters of a class. -/
theorem fits_many_char {f : Char → Bool} (hall : ∀ c ∈ w, f c = true) :
    (many (char f)).Fits before w rest := by
  rcases w with - | ⟨c, w⟩
  · exact Repeated.nil before rest
  · obtain ⟨u, v, huv, hu, hv⟩ : (seq (char f) (many (char f))).Fits before (c :: w) rest :=
      fits_some_char (by simp) hall
    rw [huv]
    refine Repeated.cons ?_ hu hv
    obtain ⟨d, -, rfl⟩ := hu
    simp

end Pattern

/-! ### The sites behind a stretch -/

/-- From one site to a later one, with the stretch between them. -/
structure Site.Reaches (s : Site) (w : List Char) (t : Site) : Prop where
  after : s.after = w ++ t.after
  before : t.before = behind s.before w

variable {s t m : Site} {u v w : List Char}

theorem Site.Reaches.refl (s : Site) : s.Reaches [] s :=
  ⟨rfl, rfl⟩

theorem Site.Reaches.eq (h : s.Reaches [] t) : s = t := by
  obtain ⟨before, after⟩ := s
  obtain ⟨before', after'⟩ := t
  obtain rfl : after = after' := h.after
  obtain rfl : before' = before := h.before
  rfl

theorem Site.Reaches.trans (hu : s.Reaches u m) (hv : m.Reaches v t) : s.Reaches (u ++ v) t where
  after := by rw [hu.after, hv.after, List.append_assoc]
  before := by rw [hv.before, hu.before, behind_append]

/-- The site in the midst of a stretch. -/
theorem Site.Reaches.split (h : s.Reaches (u ++ v) t) :
    s.Reaches u ⟨behind s.before u, v ++ t.after⟩ ∧
      Site.Reaches ⟨behind s.before u, v ++ t.after⟩ v t := by
  refine ⟨⟨?_, rfl⟩, ⟨rfl, ?_⟩⟩
  · rw [h.after, List.append_assoc]
  · rw [h.before, behind_append]

namespace Pattern

/-! ### The matcher -/

theorem readExactly_iff {cs : List Char} : readExactly cs s = .some t ↔ s.Reaches cs t := by
  induction cs generalizing s with
  | nil =>
    rw [readExactly, Option.some.injEq]
    constructor
    · rintro rfl
      exact Site.Reaches.refl s
    · intro h
      exact h.eq
  | cons c cs ih =>
    obtain ⟨before, after⟩ := s
    rw [readExactly]
    rcases after with - | ⟨d, after⟩
    · constructor
      · intro h
        cases h
      · intro h
        cases h.after
    · show (if d = c then readExactly cs ⟨.some d, after⟩ else none) = .some t ↔ _
      by_cases hd : d = c
      · -- one character is read, and the rest from the next site
        subst hd
        rw [if_pos rfl, ih]
        constructor
        · intro h
          exact Site.Reaches.trans (u := [d]) ⟨rfl, rfl⟩ h
        · intro h
          have hsplit := (Site.Reaches.split (u := [d]) h).2
          obtain rfl : after = cs ++ t.after := (List.cons.inj h.after).2
          exact hsplit
      · rw [if_neg hd]
        constructor
        · intro h
          cases h
        · intro h
          exact absurd (List.cons.inj h.after).1 hd

/-- At most `n` rounds of a step lead from one site to another. -/
inductive Rounds (step : Site → List Site) : Nat → Site → Site → Prop
  | stop (n : Nat) (s : Site) : Rounds step n s s
  | go {n : Nat} {s m t : Site} (hm : m ∈ step s) (h : Rounds step n m t) : Rounds step (n + 1) s t

theorem mem_manySites_iff {step : Site → List Site} {n : Nat} {acc : List Site} :
    t ∈ manySites step n s acc ↔ t ∈ acc ∨ Rounds step n s t := by
  induction n generalizing s acc with
  | zero =>
    rw [manySites, List.mem_cons]
    constructor
    · rintro (rfl | h)
      · exact Or.inr (Rounds.stop 0 t)
      · exact Or.inl h
    · rintro (h | h)
      · exact Or.inr h
      · cases h
        exact Or.inl rfl
  | succ n ih =>
    -- the sites found so far are passed on from round to round
    have hfold : ∀ sites : List Site, t ∈ sites.foldr (manySites step n) (s :: acc)
        ↔ t = s ∨ t ∈ acc ∨ ∃ m ∈ sites, Rounds step n m t := by
      intro sites
      induction sites with
      | nil => simp
      | cons m sites ihs =>
        rw [List.foldr_cons, ih, ihs]
        simp only [List.mem_cons, exists_eq_or_imp]
        rw [or_assoc, or_assoc]
        exact or_congr_right (or_congr_right or_comm)
    rw [manySites, hfold]
    constructor
    · rintro (rfl | h | ⟨m, hm, h⟩)
      · exact Or.inr (Rounds.stop _ t)
      · exact Or.inl h
      · exact Or.inr (Rounds.go hm h)
    · rintro (h | h)
      · exact Or.inr (Or.inl h)
      · cases h with
        | stop => exact Or.inl rfl
        | go hm h => exact Or.inr (Or.inr ⟨_, hm, h⟩)

section Rounds

variable {p : Pattern}
    (hp : ∀ s t : Site, t ∈ p.sites s ↔ ∃ w, s.Reaches w t ∧ p.Fits s.before w t.after)

include hp

/-- Rounds that read nothing can be left out. -/
theorem repeated_of_rounds {n : Nat} (h : Rounds p.sites n s t) :
    ∃ w, s.Reaches w t ∧ Repeated p.Fits s.before w t.after := by
  induction h with
  | stop n s => exact ⟨[], Site.Reaches.refl s, Repeated.nil _ _⟩
  | @go n s m t hm h ih =>
    obtain ⟨u, hu, hfits⟩ := (hp s m).mp hm
    obtain ⟨v, hv, hothers⟩ := ih
    by_cases hempty : u = []
    · -- the round has led back to where it started
      subst hempty
      rw [hu.eq]
      exact ⟨v, hv, hothers⟩
    · refine ⟨u ++ v, hu.trans hv, Repeated.cons hempty ?_ ?_⟩
      · rw [← hv.after]
        exact hfits
      · rw [← hu.before]
        exact hothers

/-- There are no more rounds than characters. -/
theorem rounds_of_repeated {before : Option Char} {w rest : List Char}
    (h : Repeated p.Fits before w rest) {n : Nat} (hn : w.length ≤ n) :
    Rounds p.sites n ⟨before, w ++ rest⟩ ⟨behind before w, rest⟩ := by
  induction h generalizing n with
  | nil before rest => exact Rounds.stop n _
  | @cons before u v rest hu hfirst hothers ih =>
    have hlength := List.length_pos_iff.mpr hu
    rw [List.length_append] at hn
    obtain ⟨n, rfl⟩ : ∃ k, n = k + 1 := ⟨n - 1, by omega⟩
    rw [behind_append]
    refine Rounds.go ((hp _ _).mpr ⟨u, ⟨?_, rfl⟩, hfirst⟩) (ih (by omega))
    exact List.append_assoc u v rest

end Rounds

/-- **The matcher leads to the ends of the stretches that look like the pattern.** -/
theorem mem_sites_iff (p : Pattern) (s t : Site) :
    t ∈ p.sites s ↔ ∃ w, s.Reaches w t ∧ p.Fits s.before w t.after := by
  induction p generalizing s t with
  | nothing =>
    rw [sites, List.mem_singleton]
    constructor
    · rintro rfl
      exact ⟨[], Site.Reaches.refl t, rfl⟩
    · rintro ⟨w, h, rfl⟩
      exact h.eq.symm
  | char f =>
    obtain ⟨before, after⟩ := s
    rw [sites]
    rcases after with - | ⟨c, after⟩
    · constructor
      · intro h
        cases h
      · rintro ⟨w, h, c, -, rfl⟩
        cases h.after
    · show t ∈ (if f c = true then [⟨.some c, after⟩] else [] : List Site) ↔ _
      by_cases hc : f c = true
      · rw [if_pos hc, List.mem_singleton]
        constructor
        · rintro rfl
          exact ⟨[c], ⟨rfl, rfl⟩, c, hc, rfl⟩
        · rintro ⟨w, h, d, -, rfl⟩
          obtain ⟨rfl, rfl⟩ := List.cons.inj h.after
          exact ((Site.Reaches.split (u := [c]) (v := []) h).2.eq).symm
      · rw [if_neg hc]
        constructor
        · intro h
          cases h
        · rintro ⟨w, h, d, hd, rfl⟩
          rw [(List.cons.inj h.after).1] at hc
          exact absurd hd hc
  | exactly cs =>
    rw [sites, Option.mem_toList, readExactly_iff]
    constructor
    · intro h
      exact ⟨cs, h, rfl⟩
    · rintro ⟨w, h, rfl⟩
      exact h
  | boundary =>
    rw [sites]
    constructor
    · intro h
      split at h
      · next hb =>
        rw [List.mem_singleton.mp h]
        exact ⟨[], Site.Reaches.refl s, rfl, hb⟩
      · cases h
    · rintro ⟨w, h, rfl, hb⟩
      obtain rfl := h.eq
      rw [if_pos hb]
      exact List.mem_singleton.mpr rfl
  | seq p q ihp ihq =>
    rw [sites, List.mem_flatMap]
    constructor
    · rintro ⟨m, hm, ht⟩
      obtain ⟨u, hu, hpu⟩ := (ihp s m).mp hm
      obtain ⟨v, hv, hqv⟩ := (ihq m t).mp ht
      refine ⟨u ++ v, hu.trans hv, u, v, rfl, ?_, ?_⟩
      · rw [← hv.after]
        exact hpu
      · rw [← hu.before]
        exact hqv
    · rintro ⟨w, h, u, v, rfl, hpu, hqv⟩
      obtain ⟨hu, hv⟩ := h.split
      exact ⟨_, (ihp _ _).mpr ⟨u, hu, hpu⟩, (ihq _ _).mpr ⟨v, hv, hqv⟩⟩
  | either p q ihp ihq =>
    rw [sites, List.mem_append, ihp, ihq, ← exists_or]
    refine exists_congr fun w => ?_
    exact and_or_left.symm
  | many p ih =>
    rw [sites, mem_manySites_iff]
    constructor
    · rintro (h | h)
      · cases h
      · exact repeated_of_rounds ih h
    · rintro ⟨w, h, hfits⟩
      obtain ⟨before, after⟩ := s
      obtain ⟨before', rest⟩ := t
      obtain rfl : after = w ++ rest := h.after
      obtain rfl : before' = behind before w := h.before
      -- the matcher goes as many rounds as there are characters left
      refine Or.inr (rounds_of_repeated ih hfits ?_)
      rw [List.length_append]
      exact Nat.le_add_right _ _

/-- **A pattern occurs in a text where a stretch of it looks like the pattern.** -/
theorem occursIn_iff {p : Pattern} {text : List Char} :
    p.occursIn text = true ↔ ∃ front w rest, text = front ++ w ++ rest ∧
      p.Fits (behind none front) w rest := by
  have hsome : ∀ before cs, (!(p.sites ⟨before, cs⟩).isEmpty) = true ↔
      ∃ w rest, cs = w ++ rest ∧ p.Fits before w rest := by
    intro before cs
    rw [Bool.not_eq_true', List.isEmpty_eq_false_iff_exists_mem]
    constructor
    · rintro ⟨t, ht⟩
      obtain ⟨w, h, hfits⟩ := (mem_sites_iff p _ t).mp ht
      exact ⟨w, t.after, h.after, hfits⟩
    · rintro ⟨w, rest, rfl, hfits⟩
      exact ⟨⟨behind before w, rest⟩, (mem_sites_iff p _ _).mpr ⟨w, ⟨rfl, rfl⟩, hfits⟩⟩
  have hfrom : ∀ before, p.occursFrom before text = true ↔ ∃ front w rest,
      text = front ++ w ++ rest ∧ p.Fits (behind before front) w rest := by
    induction text with
    | nil =>
      intro before
      rw [occursFrom, hsome]
      constructor
      · rintro ⟨w, rest, h, hfits⟩
        exact ⟨[], w, rest, h, hfits⟩
      · rintro ⟨front, w, rest, h, hfits⟩
        obtain ⟨rfl, rfl, rfl⟩ : front = [] ∧ w = [] ∧ rest = [] := by
          simpa using h.symm
        exact ⟨[], [], rfl, hfits⟩
    | cons c cs ih =>
      intro before
      rw [occursFrom, Bool.or_eq_true, hsome, ih]
      constructor
      · rintro (⟨w, rest, h, hfits⟩ | ⟨front, w, rest, h, hfits⟩)
        · exact ⟨[], w, rest, h, hfits⟩
        · refine ⟨c :: front, w, rest, by rw [h]; rfl, ?_⟩
          rw [behind_cons]
          exact hfits
      · rintro ⟨front, w, rest, h, hfits⟩
        rcases front with - | ⟨d, front⟩
        · exact Or.inl ⟨w, rest, h, hfits⟩
        · -- the stretch begins further on
          obtain ⟨rfl, rfl⟩ := List.cons.inj h
          rw [behind_cons] at hfits
          exact Or.inr ⟨front, w, rest, rfl, hfits⟩
  exact hfrom none

/-! ### Neighbours -/

/-- Behind a stretch it does not matter more what stood before it than in front of it. -/
theorem any_behind_congr {before before' : Option Char} (h : before.any isWord = before'.any isWord)
    (u : List Char) : (behind before u).any isWord = (behind before' u).any isWord := by
  rw [behind, behind]
  rcases u.getLast? with - | c
  · exact h
  · rfl

theorem any_head?_congr {rest rest' : List Char}
    (h : rest.head?.any isWord = rest'.head?.any isWord) (v : List Char) :
    (v ++ rest).head?.any isWord = (v ++ rest').head?.any isWord := by
  cases v with
  | nil => exact h
  | cons c v => rfl

/-- **Of its neighbours a match sees no more than whether they are word characters.** -/
theorem Fits.congr {p : Pattern} {before before' : Option Char} {w rest rest' : List Char}
    (h : p.Fits before w rest) (hbefore : before.any isWord = before'.any isWord)
    (hrest : rest.head?.any isWord = rest'.head?.any isWord) : p.Fits before' w rest' := by
  induction p generalizing before before' w rest rest' with
  | nothing => exact h
  | char f => exact h
  | exactly cs => exact h
  | boundary =>
    obtain ⟨rfl, hboundary⟩ := h
    rw [isBoundary, hbefore, hrest] at hboundary
    exact ⟨rfl, hboundary⟩
  | seq p q ihp ihq =>
    obtain ⟨u, v, rfl, hu, hv⟩ := h
    exact Fits.seq (ihp hu hbefore (any_head?_congr hrest v))
      (ihq hv (any_behind_congr hbefore u) hrest)
  | either p q ihp ihq => exact h.imp (ihp · hbefore hrest) (ihq · hbefore hrest)
  | many p ih =>
    have hrounds : ∀ {before w rest}, Repeated p.Fits before w rest → ∀ {before' rest'},
        before.any isWord = before'.any isWord → rest.head?.any isWord = rest'.head?.any isWord →
        Repeated p.Fits before' w rest' := by
      intro before w rest h
      induction h with
      | nil before rest =>
        intro before' rest' _ _
        exact Repeated.nil before' rest'
      | @cons before u v rest hu first others ihothers =>
        intro before' rest' hbefore hrest
        refine Repeated.cons hu ?_ (ihothers (any_behind_congr hbefore u) hrest)
        exact ih first hbefore (any_head?_congr hrest v)
    exact hrounds h hbefore hrest

/-! ### Characters that a pattern has no place for -/

/-- No stretch that looks like the pattern holds the character. -/
def Avoids (c : Char) : Pattern → Prop
  | nothing => True
  | char f => f c = false
  | exactly cs => c ∉ cs
  | boundary => True
  | seq p q => p.Avoids c ∧ q.Avoids c
  | either p q => p.Avoids c ∧ q.Avoids c
  | many p => p.Avoids c

theorem Fits.not_mem {p : Pattern} {c : Char} {before : Option Char} {w rest : List Char}
    (h : p.Fits before w rest) (hp : p.Avoids c) : c ∉ w := by
  induction p generalizing before w rest with
  | nothing =>
    obtain rfl : w = [] := h
    exact List.not_mem_nil
  | char f =>
    obtain ⟨d, hd, rfl⟩ := h
    rw [List.mem_singleton]
    rintro rfl
    rw [Avoids, hd] at hp
    cases hp
  | exactly cs =>
    obtain rfl : w = cs := h
    exact hp
  | boundary =>
    obtain ⟨rfl, -⟩ := h
    exact List.not_mem_nil
  | seq p q ihp ihq =>
    obtain ⟨u, v, rfl, hu, hv⟩ := h
    rw [List.mem_append, not_or]
    exact ⟨ihp hu hp.1, ihq hv hp.2⟩
  | either p q ihp ihq => exact h.elim (ihp · hp.1) (ihq · hp.2)
  | many p ih =>
    refine of_repeated (P := fun w => c ∉ w) List.not_mem_nil ?_ h
    intro before u v rest first hothers
    rw [List.mem_append, not_or]
    exact ⟨ih first hp, hothers⟩

/-! ### Texts with a character in between -/

/-- A stretch around the character looks like the pattern. -/
def OccursAcross (p : Pattern) (u : List Char) (c : Char) (v : List Char) : Prop :=
  ∃ front w₁ w₂ rest, u = front ++ w₁ ∧ v = w₂ ++ rest ∧
    p.Fits (behind none front) (w₁ ++ c :: w₂) rest

theorem Avoids.not_occursAcross {p : Pattern} {c : Char} (h : p.Avoids c) (u v : List Char) :
    ¬ p.OccursAcross u c v := by
  rintro ⟨front, w₁, w₂, rest, rfl, rfl, hfits⟩
  exact hfits.not_mem h (List.mem_append_right _ List.mem_cons_self)

/-- **What is found in a text is found in front of a character that belongs to no word, or
behind it, or across it.** -/
theorem occursIn_cons_iff {p : Pattern} {c : Char} (hc : isWord c = false) (u v : List Char) :
    p.occursIn (u ++ c :: v) = true ↔
      p.occursIn u = true ∨ p.occursIn v = true ∨ p.OccursAcross u c v := by
  -- the character is to its neighbours what the end of a text is
  have hend : ∀ w : List Char, (w ++ c :: v).head?.any isWord = w.head?.any isWord := by
    intro w
    cases w with
    | nil => exact hc
    | cons d w => rfl
  have hstart : ∀ w : List Char,
      (behind none (u ++ c :: w)).any isWord = (behind none w).any isWord := by
    intro w
    have hnone : (Option.some c).any isWord = (none : Option Char).any isWord := hc
    rw [behind_append, behind_cons]
    exact any_behind_congr hnone w
  constructor
  · intro h
    obtain ⟨front, w, rest, heq, hfits⟩ := occursIn_iff.mp h
    rw [List.append_assoc] at heq
    rcases List.append_eq_append_iff.mp heq with ⟨later, rfl, hv⟩ | ⟨tail, rfl, hw⟩
    · rcases later with - | ⟨d, later⟩
      · rcases w with - | ⟨d, w⟩
        · -- an empty stretch right in front of the character
          refine Or.inl (occursIn_iff.mpr ⟨u, [], [], by simp, ?_⟩)
          rw [List.append_nil] at hfits
          refine hfits.congr rfl ?_
          rw [← show c :: v = rest from hv]
          exact hend []
        · obtain ⟨rfl, rfl⟩ := List.cons.inj hv
          rw [List.append_nil] at hfits
          exact Or.inr (Or.inr ⟨u, [], w, rest, by simp, rfl, hfits⟩)
      · obtain ⟨rfl, rfl⟩ := List.cons.inj hv
        refine Or.inr (Or.inl (occursIn_iff.mpr ⟨later, w, rest, by simp, ?_⟩))
        exact hfits.congr (hstart later) rfl
    · rcases List.append_eq_append_iff.mp hw with ⟨left, rfl, rfl⟩ | ⟨inner, rfl, hv⟩
      · refine Or.inl (occursIn_iff.mpr ⟨front, w, left, by simp, ?_⟩)
        exact hfits.congr rfl (hend left)
      · rcases inner with - | ⟨d, inner⟩
        · refine Or.inl (occursIn_iff.mpr ⟨front, tail, [], by simp, ?_⟩)
          rw [List.append_nil] at hfits
          refine hfits.congr rfl ?_
          rw [← show c :: v = rest from hv]
          exact hend []
        · obtain ⟨rfl, rfl⟩ := List.cons.inj hv
          exact Or.inr (Or.inr ⟨front, tail, inner, rest, rfl, rfl, hfits⟩)
  · rintro (h | h | ⟨front, w₁, w₂, rest, rfl, rfl, hfits⟩)
    · obtain ⟨front, w, rest, rfl, hfits⟩ := occursIn_iff.mp h
      refine occursIn_iff.mpr ⟨front, w, rest ++ c :: v, by simp, ?_⟩
      exact hfits.congr rfl (hend rest).symm
    · obtain ⟨front, w, rest, rfl, hfits⟩ := occursIn_iff.mp h
      refine occursIn_iff.mpr ⟨u ++ c :: front, w, rest, by simp, ?_⟩
      exact hfits.congr (hstart front).symm rfl
    · exact occursIn_iff.mpr ⟨front, w₁ ++ c :: w₂, rest, by simp, hfits⟩

end Pattern

end ScriptRegistry.Text
