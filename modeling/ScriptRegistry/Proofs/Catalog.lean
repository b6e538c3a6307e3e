/-
ScriptRegistry/Proofs/Catalog.lean

The catalog as a finite map.

A catalog is a list of shelves, and a shelf a list of records, both in the order
of their keys.  Every change goes through one operation: the shelf of one name
is replaced (`withShelf`), and a name whose shelf becomes empty is forgotten.
All that is said about `enroll` and `remove` follows from what `withShelf` does
to the other shelves, to the number of records and to the order.

`Catalog.Sound` is the representation invariant: names and versions ascend, every
record stands where its name and version say, and no shelf is empty.

Main results: `Sound.enroll` and `Sound.remove` keep the invariant;
`shelf_enroll` and `shelf_remove` say what becomes of each shelf;
`size_enroll` and `size_remove` count; `mem_newest` reads the listing.
-/
import ScriptRegistry.Store.Catalog

namespace ScriptRegistry.Store

/-! ### Ordered keys -/

/-- A strict total order as a test. -/
structure StrictTotal {κ : Type} (before : κ → κ → Bool) : Prop where
  irrefl : ∀ a, before a a = false
  trans : ∀ {a b c}, before a b = true → before b c = true → before a c = true
  connex : ∀ {a b}, before a b = false → before b a = false → a = b

/-- The keys of a list ascend. -/
def Ascending {κ β : Type} (before : κ → κ → Bool) (m : List (κ × β)) : Prop :=
  m.Pairwise fun a b => before a.1 b.1 = true

section Keys

variable {κ β : Type} {before : κ → κ → Bool}

theorem StrictTotal.ne (hb : StrictTotal before) {a b : κ} (h : before a b = true) : a ≠ b := by
  rintro rfl
  rw [hb.irrefl a] at h
  cases h

theorem StrictTotal.asymm (hb : StrictTotal before) {a b : κ} (h : before a b = true) :
    before b a = false := by
  rcases hba : before b a with - | -
  · rfl
  · have hself := hb.trans h hba
    rw [hb.irrefl a] at hself
    cases hself

theorem mem_insertOrdered {k : κ} {b : β} {m : List (κ × β)} {e : κ × β}
    (h : e ∈ insertOrdered before k b m) : e = (k, b) ∨ e ∈ m := by
  induction m with
  | nil => exact Or.inl (List.mem_singleton.mp h)
  | cons hd tl ih =>
    obtain ⟨k', b'⟩ := hd
    rw [insertOrdered] at h
    split at h
    · exact List.mem_cons.mp h
    · split at h
      · rcases List.mem_cons.mp h with rfl | h
        · exact Or.inr List.mem_cons_self
        · exact (ih h).imp id (List.mem_cons_of_mem _)
      · rcases List.mem_cons.mp h with h | h
        · exact Or.inl h
        · exact Or.inr (List.mem_cons_of_mem _ h)

theorem Ascending.insertOrdered (hb : StrictTotal before) {m : List (κ × β)}
    (hm : Ascending before m) (k : κ) (b : β) : Ascending before (insertOrdered before k b m) := by
  induction m with
  | nil => exact List.pairwise_singleton _ _
  | cons hd tl ih =>
    obtain ⟨k', b'⟩ := hd
    obtain ⟨hhd, htl⟩ := List.pairwise_cons.mp hm
    rw [Store.insertOrdered]
    split
    · next hlt =>
      refine List.pairwise_cons.mpr ⟨fun e he => ?_, hm⟩
      rcases List.mem_cons.mp he with rfl | he
      · exact hlt
      · exact hb.trans hlt (hhd e he)
    · next hge =>
      split
      · next hgt =>
        refine List.pairwise_cons.mpr ⟨fun e he => ?_, ih htl⟩
        rcases mem_insertOrdered he with rfl | he
        · exact hgt
        · exact hhd e he
      · next hle =>
        -- neither key is before the other, so the new value takes the place of the old one
        have hkk : k = k' := hb.connex (by simpa using hge) (by simpa using hle)
        subst hkk
        exact List.pairwise_cons.mpr ⟨hhd, htl⟩

/-- A key above all others goes to the end. -/
theorem insertOrdered_of_last (hb : StrictTotal before) {m : List (κ × β)} {k : κ}
    (h : ∀ e ∈ m, before e.1 k = true) (b : β) : insertOrdered before k b m = m ++ [(k, b)] := by
  induction m with
  | nil => rfl
  | cons hd tl ih =>
    obtain ⟨k', b'⟩ := hd
    have hlt : before k' k = true := h (k', b') List.mem_cons_self
    rw [insertOrdered, if_neg (by rw [hb.asymm hlt]; simp), if_pos hlt,
      ih fun e he => h e (List.mem_cons_of_mem _ he)]
    rfl

theorem mem_of_lookup [BEq κ] [LawfulBEq κ] {k : κ} {b : β} {m : List (κ × β)}
    (h : m.lookup k = some b) : (k, b) ∈ m := by
  obtain ⟨l₁, l₂, rfl, -⟩ := List.lookup_eq_some_iff.mp h
  simp

variable [DecidableEq κ]

theorem Ascending.eraseKey {m : List (κ × β)} (hm : Ascending before m) (k : κ) :
    Ascending before (eraseKey k m) :=
  hm.sublist List.filter_sublist

theorem mem_of_mem_eraseKey {k : κ} {e : κ × β} {m : List (κ × β)} (h : e ∈ eraseKey k m) :
    e ∈ m :=
  (List.mem_filter.mp h).1

theorem length_eraseKey (hb : StrictTotal before) {m : List (κ × β)} (hm : Ascending before m)
    {e : κ × β} (h : e ∈ m) : (eraseKey e.1 m).length + 1 = m.length := by
  induction m with
  | nil => cases h
  | cons hd tl ih =>
    obtain ⟨hhd, htl⟩ := List.pairwise_cons.mp hm
    rw [eraseKey] at *
    rcases List.mem_cons.mp h with rfl | htail
    · -- all keys further on are greater than the one that goes
      have hall : tl.filter (fun x => decide (x.1 ≠ e.1)) = tl :=
        List.filter_eq_self.mpr fun x hx => decide_eq_true (hb.ne (hhd x hx)).symm
      rw [List.filter_cons_of_neg (by simp), hall, List.length_cons]
    · have hne : hd.1 ≠ e.1 := hb.ne (hhd e htail)
      rw [List.filter_cons_of_pos (by simpa using hne), List.length_cons, ih htl htail,
        List.length_cons]

variable [BEq κ] [LawfulBEq κ]

theorem lookup_cons_eq (k k₀ : κ) (b₀ : β) (m : List (κ × β)) :
    ((k₀, b₀) :: m).lookup k = if k = k₀ then some b₀ else m.lookup k := by
  rw [List.lookup_cons]
  by_cases h : k = k₀
  · simp [h]
  · simp [h, show (k == k₀) = false by simpa using h]

theorem lookup_insertOrdered (hb : StrictTotal before) (k k' : κ) (b : β) (m : List (κ × β)) :
    (insertOrdered before k b m).lookup k' = if k' = k then some b else m.lookup k' := by
  induction m with
  | nil => exact lookup_cons_eq k' k b []
  | cons hd tl ih =>
    obtain ⟨k₀, b₀⟩ := hd
    rw [insertOrdered]
    split
    · exact lookup_cons_eq k' k b _
    · next hge =>
      split
      · next hgt =>
        have hne : k ≠ k₀ := (hb.ne hgt).symm
        rw [lookup_cons_eq, ih, lookup_cons_eq]
        by_cases h : k' = k
        · subst h; simp [hne]
        · simp [h]
      · next hle =>
        have hkk : k = k₀ := hb.connex (by simpa using hge) (by simpa using hle)
        subst hkk
        rw [lookup_cons_eq, lookup_cons_eq]
        by_cases h : k' = k <;> simp [h]

theorem lookup_eraseKey (k k' : κ) (m : List (κ × β)) :
    (eraseKey k m).lookup k' = if k' = k then none else m.lookup k' := by
  induction m with
  | nil => simp [eraseKey]
  | cons hd tl ih =>
    obtain ⟨k₀, b₀⟩ := hd
    rw [eraseKey] at ih ⊢
    by_cases h₀ : k₀ = k
    · subst h₀
      rw [List.filter_cons_of_neg (by simp), ih, lookup_cons_eq]
      by_cases h : k' = k₀ <;> simp [h]
    · rw [List.filter_cons_of_pos (by simpa using h₀), lookup_cons_eq, ih, lookup_cons_eq]
      by_cases h : k' = k
      · subst h; simp [Ne.symm h₀]
      · simp [h]

/-- In an ascending list a key has one value. -/
theorem Ascending.lookup_of_mem (hb : StrictTotal before) {m : List (κ × β)}
    (hm : Ascending before m) {k : κ} {b : β} (h : (k, b) ∈ m) : m.lookup k = some b := by
  induction m with
  | nil => cases h
  | cons hd tl ih =>
    obtain ⟨hhd, htl⟩ := List.pairwise_cons.mp hm
    rcases List.mem_cons.mp h with rfl | htail
    · exact List.lookup_cons_self
    · have hne : k ≠ hd.1 := (hb.ne (hhd _ htail)).symm
      obtain ⟨k₀, b₀⟩ := hd
      rw [lookup_cons_eq, if_neg hne, ih htl htail]

end Keys

/-! ### The orders of keys -/

theorem strictTotal_version : StrictTotal fun a b : Version => decide (a < b) where
  irrefl a := decide_eq_false (Nat.lt_irrefl a.number)
  trans hab hbc := by
    have hac := Nat.lt_trans (of_decide_eq_true hab) (of_decide_eq_true hbc)
    exact decide_eq_true hac
  connex {a b} hab hba := by
    have hle : b.number ≤ a.number := Nat.not_lt.mp (of_decide_eq_false hab)
    have hge : a.number ≤ b.number := Nat.not_lt.mp (of_decide_eq_false hba)
    obtain ⟨m, _, _⟩ := a
    obtain ⟨n, _, _⟩ := b
    obtain rfl : m = n := Nat.le_antisymm hge hle
    rfl

theorem strictTotal_string : StrictTotal fun a b : String => decide (a < b) where
  irrefl a := decide_eq_false (String.lt_irrefl a)
  trans hab hbc := decide_eq_true (String.lt_trans (of_decide_eq_true hab) (of_decide_eq_true hbc))
  connex hab hba := String.le_antisymm (String.not_lt.mp (of_decide_eq_false hba))
    (String.not_lt.mp (of_decide_eq_false hab))

/-- Names are in the order of their texts. -/
theorem strictTotal_name : StrictTotal fun a b : AlgorithmName => decide (a.text < b.text) where
  irrefl a := strictTotal_string.irrefl a.text
  trans hab hbc := strictTotal_string.trans hab hbc
  connex {a b} hab hba := by
    obtain ⟨s, _⟩ := a
    obtain ⟨t, _⟩ := b
    obtain rfl : s = t := strictTotal_string.connex hab hba
    rfl

/-! ### Shelves -/

namespace Shelf

/-- The versions of a shelf ascend and label their records, which are of one name. -/
structure Sound (s : Shelf) (name : AlgorithmName) : Prop where
  ascending : Ascending (fun a b : Version => decide (a < b)) s
  labelled : ∀ e ∈ s, e.2.name = name ∧ e.2.version = e.1

variable {s : Shelf} {name : AlgorithmName}

theorem latest?_eq_none_iff : s.latest? = none ↔ s = [] := by
  rw [latest?, Option.map_eq_none_iff, List.getLast?_eq_none_iff]

/-- The latest version is the greatest. -/
theorem Sound.le_latest (h : s.Sound name) {v : Version} (hv : s.latest? = some v) :
    ∀ e ∈ s, e.1 = v ∨ e.1 < v := by
  rw [latest?, Option.map_eq_some_iff] at hv
  obtain ⟨last, hlast, rfl⟩ := hv
  obtain ⟨init, rfl⟩ := List.getLast?_eq_some_iff.mp hlast
  obtain ⟨-, -, hcross⟩ := List.pairwise_append.mp h.ascending
  intro e he
  rcases List.mem_append.mp he with he | he
  · exact Or.inr (of_decide_eq_true (hcross e he last List.mem_cons_self))
  · exact Or.inl (by rw [List.mem_singleton.mp he])

theorem mem_of_latest {v : Version} (hv : s.latest? = some v) : ∃ r, (v, r) ∈ s := by
  rw [latest?, Option.map_eq_some_iff] at hv
  obtain ⟨last, hlast, rfl⟩ := hv
  exact ⟨last.2, List.mem_of_getLast? hlast⟩

/-- What `choose` gives is on the shelf. -/
theorem lookup_of_choose (h : s.Sound name) {version : Option Version} {v : Version}
    (hv : s.choose version = some v) :
    ∃ r, s.lookup v = some r ∧ r.name = name ∧ r.version = v := by
  have hmem : ∃ r, s.lookup v = some r := by
    cases version with
    | some w =>
      obtain ⟨r, hr, rfl⟩ := Option.map_eq_some_iff.mp hv
      exact ⟨r, hr⟩
    | none =>
      obtain ⟨r, hr⟩ := mem_of_latest hv
      exact ⟨r, h.ascending.lookup_of_mem strictTotal_version hr⟩
  obtain ⟨r, hr⟩ := hmem
  exact ⟨r, hr, h.labelled (v, r) (mem_of_lookup hr)⟩

end Shelf

namespace Catalog

/-! ### One change -/

section Count

variable {m : List (AlgorithmName × Shelf)}

theorem length_flatMap_insertOrdered
    (hm : Ascending (fun a b : AlgorithmName => decide (a.text < b.text)) m)
    (name : AlgorithmName) (s : Shelf) :
    ((insertOrdered (fun a b => a.text < b.text) name s m).flatMap (·.2)).length
      + ((m.lookup name).getD []).length = (m.flatMap (·.2)).length + s.length := by
  induction m with
  | nil => simp [insertOrdered]
  | cons hd tl ih =>
    obtain ⟨n, t⟩ := hd
    obtain ⟨hhd, htl⟩ := List.pairwise_cons.mp hm
    rw [insertOrdered, lookup_cons_eq]
    split
    · next hlt =>
      -- the name would have to stand before the first one, so it has no shelf yet
      have hne : name ≠ n := strictTotal_name.ne hlt
      have hfree : tl.lookup name = none := by
        rcases hl : tl.lookup name with - | t'
        · rfl
        · have hgt := strictTotal_name.trans hlt (hhd _ (mem_of_lookup hl))
          exact absurd rfl (strictTotal_name.ne hgt)
      rw [if_neg hne, hfree]
      simp only [List.flatMap_cons, List.length_append, Option.getD_none, List.length_nil]
      omega
    · next hge =>
      split
      · next hgt =>
        have hne : name ≠ n := (strictTotal_name.ne hgt).symm
        have hrest := ih htl
        rw [if_neg hne]
        simp only [List.flatMap_cons, List.length_append]
        omega
      · next hle =>
        have hkk : name = n := strictTotal_name.connex (by simpa using hge) (by simpa using hle)
        rw [if_pos hkk]
        simp only [List.flatMap_cons, List.length_append, Option.getD_some]
        omega

theorem length_flatMap_eraseKey
    (hm : Ascending (fun a b : AlgorithmName => decide (a.text < b.text)) m)
    (name : AlgorithmName) :
    ((eraseKey name m).flatMap (·.2)).length + ((m.lookup name).getD []).length
      = (m.flatMap (·.2)).length := by
  induction m with
  | nil => rfl
  | cons hd tl ih =>
    obtain ⟨n, t⟩ := hd
    obtain ⟨hhd, htl⟩ := List.pairwise_cons.mp hm
    have hrest := ih htl
    rw [lookup_cons_eq, eraseKey] at *
    by_cases hkk : name = n
    · have hall : tl.filter (fun e => decide (e.1 ≠ name)) = tl := by
        refine List.filter_eq_self.mpr fun e he => decide_eq_true ?_
        rw [hkk]
        exact (strictTotal_name.ne (hhd e he)).symm
      rw [List.filter_cons_of_neg (by simp [hkk]), hall, if_pos hkk]
      simp only [List.flatMap_cons, List.length_append, Option.getD_some]
      omega
    · rw [List.filter_cons_of_pos (by simpa using Ne.symm hkk), if_neg hkk]
      simp only [List.flatMap_cons, List.length_append]
      omega

end Count

/-- The catalog in which a name has the given shelf; an empty shelf is no shelf. -/
def withShelf (c : Catalog) (name : AlgorithmName) (s : Shelf) : Catalog :=
  ⟨if s.isEmpty then eraseKey name c.shelves
    else insertOrdered (fun a b => a.text < b.text) name s c.shelves⟩

/-- The representation invariant. -/
structure Sound (c : Catalog) : Prop where
  ascending : Ascending (fun a b : AlgorithmName => decide (a.text < b.text)) c.shelves
  shelves : ∀ e ∈ c.shelves, e.2.Sound e.1
  inhabited : ∀ e ∈ c.shelves, e.2 ≠ []

theorem sound_empty : empty.Sound where
  ascending := List.Pairwise.nil
  shelves _ h := by cases h
  inhabited _ h := by cases h

theorem shelf_withShelf (c : Catalog) (name m : AlgorithmName) (s : Shelf) :
    (c.withShelf name s).shelf m = if m = name then s else c.shelf m := by
  rw [shelf, withShelf]
  by_cases hs : s.isEmpty = true
  · -- a name that is forgotten reads as one with an empty shelf
    simp only [hs, if_true, lookup_eraseKey]
    by_cases h : m = name
    · simp [h, List.isEmpty_iff.mp hs]
    · simp [h, shelf]
  · simp only [hs, Bool.false_eq_true, if_false, lookup_insertOrdered strictTotal_name]
    by_cases h : m = name <;> simp [h, shelf]

theorem Sound.shelf {c : Catalog} (h : c.Sound) (name : AlgorithmName) :
    (c.shelf name).Sound name := by
  rw [Catalog.shelf]
  rcases hl : c.shelves.lookup name with - | s
  · exact ⟨List.Pairwise.nil, fun _ he => by cases he⟩
  · exact h.shelves (name, s) (mem_of_lookup hl)

theorem Sound.withShelf {c : Catalog} (h : c.Sound) {name : AlgorithmName} {s : Shelf}
    (hs : s.Sound name) : (c.withShelf name s).Sound := by
  rw [Catalog.withShelf]
  by_cases he : s.isEmpty = true
  · rw [if_pos he]
    exact ⟨h.ascending.eraseKey name, fun e hm => h.shelves e (mem_of_mem_eraseKey hm),
      fun e hm => h.inhabited e (mem_of_mem_eraseKey hm)⟩
  · rw [if_neg he]
    refine ⟨h.ascending.insertOrdered strictTotal_name name s, fun e hm => ?_, fun e hm => ?_⟩
    · rcases mem_insertOrdered hm with rfl | hm
      · exact hs
      · exact h.shelves e hm
    · rcases mem_insertOrdered hm with rfl | hm
      · exact fun hnil => he (List.isEmpty_iff.mpr hnil)
      · exact h.inhabited e hm

/-- The number of records on all shelves, one of them replaced. -/
theorem size_withShelf {c : Catalog} (h : c.Sound) (name : AlgorithmName) (s : Shelf) :
    (c.withShelf name s).size + (c.shelf name).length = c.size + s.length := by
  rw [size, size, withShelf, shelf]
  by_cases he : s.isEmpty = true
  · obtain rfl := List.isEmpty_iff.mp he
    exact length_flatMap_eraseKey h.ascending name
  · rw [if_neg he]
    exact length_flatMap_insertOrdered h.ascending name s

/-! ### Looking up -/

theorem find?_some (c : Catalog) (name : AlgorithmName) (v : Version) :
    c.find? name (some v) = (c.shelf name).lookup v := by
  rw [find?, Shelf.choose]
  rcases h : (c.shelf name).lookup v with - | r
  · rfl
  · exact h

theorem find?_none (c : Catalog) (name : AlgorithmName) :
    c.find? name none = (c.latest? name).bind fun v => c.find? name (some v) := by
  rw [find?, Shelf.choose, ← latest?]
  simp only [find?_some]

/-- A record is found under its own name and version. -/
theorem Sound.labelled {c : Catalog} (h : c.Sound) {name : AlgorithmName} {version : Option Version}
    {r : Record} (hr : c.find? name version = some r) :
    r.name = name ∧ c.find? name (some r.version) = some r := by
  rw [find?, Option.bind_eq_some_iff] at hr
  obtain ⟨v, hv, hr⟩ := hr
  obtain ⟨r', hr', hname, hversion⟩ := Shelf.lookup_of_choose (h.shelf name) hv
  obtain rfl : r' = r := Option.some.inj (hr'.symm.trans hr)
  rw [find?_some, hversion]
  exact ⟨hname, hr⟩

/-- A record is on one of the shelves. -/
def Stored (c : Catalog) (r : Record) : Prop :=
  ∃ e ∈ c.shelves, ∃ v, (v, r) ∈ e.2

/-- Every stored record is found under its own name and version. -/
theorem Sound.find?_of_stored {c : Catalog} (h : c.Sound) {r : Record} (hr : c.Stored r) :
    c.find? r.name (some r.version) = some r := by
  obtain ⟨⟨name, s⟩, hs, v, hv⟩ := hr
  obtain ⟨hname, hversion⟩ := (h.shelves _ hs).labelled _ hv
  have hshelf : c.shelf name = s := by
    rw [Catalog.shelf, h.ascending.lookup_of_mem strictTotal_name hs]
    rfl
  obtain rfl : r.name = name := hname
  obtain rfl : r.version = v := hversion
  rw [find?_some, hshelf]
  exact (h.shelves _ hs).ascending.lookup_of_mem strictTotal_version hv

theorem Sound.le_latest {c : Catalog} (h : c.Sound) {name : AlgorithmName} {v w : Version}
    {r : Record} (hv : c.latest? name = some v) (hr : c.find? name (some w) = some r) :
    w = v ∨ w < v := by
  rw [find?_some] at hr
  exact (h.shelf name).le_latest hv (w, r) (mem_of_lookup hr)

theorem Sound.find?_latest {c : Catalog} (h : c.Sound) {name : AlgorithmName} {v : Version}
    (hv : c.latest? name = some v) : ∃ r, c.find? name (some v) = some r := by
  obtain ⟨r, hr⟩ := Shelf.mem_of_latest hv
  exact ⟨r, by rw [find?_some]; exact (h.shelf name).ascending.lookup_of_mem strictTotal_version hr⟩

theorem find?_of_latest_none {c : Catalog} {name : AlgorithmName} (hv : c.latest? name = none)
    (version : Option Version) : c.find? name version = none := by
  have hshelf : c.shelf name = [] := Shelf.latest?_eq_none_iff.mp hv
  rw [find?, hshelf]
  cases version <;> rfl

/-- The version after the latest one is free. -/
theorem Sound.find?_following {c : Catalog} (h : c.Sound) {name : AlgorithmName} {v : Version}
    (hv : Version.following (c.latest? name) = .ok v) : c.find? name (some v) = none := by
  rcases hl : c.latest? name with - | last
  · exact find?_of_latest_none hl _
  · rw [hl, Version.following, Version.next] at hv
    split at hv
    · rcases hr : c.find? name (some v) with - | r
      · rfl
      · -- a record there would be one number above the latest version
        cases hv
        have hle := h.le_latest hl hr
        have hnot : ¬ last.number + 1 < last.number := by omega
        rcases hle with heq | hlt
        · exact absurd (congrArg Version.number heq) (by simp)
        · exact absurd hlt hnot
    · cases hv

/-! ### Enrolling -/

/-- The catalog with one more record, the last of its name. -/
def add (c : Catalog) (r : Record) : Catalog :=
  c.withShelf r.name (c.shelf r.name ++ [(r.version, r)])

/-- What makes a record the next one of its name. -/
def IsNext (c : Catalog) (r : Record) : Prop :=
  Version.following (c.latest? r.name) = .ok r.version

theorem Sound.before_next {c : Catalog} (h : c.Sound) {r : Record} (hn : c.IsNext r) :
    ∀ e ∈ c.shelf r.name, decide (e.1 < r.version) = true := by
  intro e he
  obtain ⟨v, hv⟩ : ∃ v, c.latest? r.name = some v := by
    rcases hl : c.latest? r.name with - | v
    · rw [Shelf.latest?_eq_none_iff.mp hl] at he; cases he
    · exact ⟨v, rfl⟩
  have hle := (h.shelf r.name).le_latest hv e he
  rw [IsNext, hv, Version.following, Version.next] at hn
  split at hn
  · have hnum : v.number + 1 = r.version.number := congrArg Version.number (Except.ok.inj hn)
    have hlt : e.1.number < r.version.number := by
      rcases hle with heq | hlt
      · rw [heq]; omega
      · exact Nat.lt_trans hlt (by omega)
    exact decide_eq_true hlt
  · cases hn

/-- The two ways in which `enroll` can end. -/
theorem Sound.enroll_cases {c : Catalog} (h : c.Sound) (r : Record) (expected : Option Version) :
    (c.latest? r.name = expected ∧ c.IsNext r ∧ c.enroll r expected = (.ok (), c.add r)) ∨
    (¬ (c.latest? r.name = expected ∧ c.IsNext r) ∧ c.enroll r expected
      = (.error (.versionConflict r.name expected (c.latest? r.name)), c)) := by
  by_cases hnext : c.latest? r.name = expected ∧ c.IsNext r
  · obtain ⟨rfl, hn⟩ := hnext
    refine Or.inl ⟨rfl, hn, ?_⟩
    have hf : follows r (c.latest? r.name) = true := by
      rw [follows, show Version.following _ = _ from hn]
      exact beq_self_eq_true r.version
    -- to put the record in its place is to put it at the end
    have hlast := insertOrdered_of_last strictTotal_version (h.before_next hn) r
    simp [enroll, hf, hlast, Catalog.add, Catalog.withShelf]
  · refine Or.inr ⟨hnext, ?_⟩
    -- whichever of the two conditions fails, the call is refused
    have hguard : (c.latest? r.name ≠ expected || !follows r expected) = true := by
      by_cases he : c.latest? r.name = expected
      · have hnot : ¬ c.IsNext r := fun hn => hnext ⟨he, hn⟩
        rw [IsNext, he] at hnot
        rcases hfol : Version.following expected with e | v
        · simp [follows, hfol]
        · rw [hfol] at hnot
          have hne : v ≠ r.version := fun hv => hnot (by rw [hv])
          simp [follows, hfol, hne]
      · simp [he]
    simp only [enroll, hguard, if_true]

theorem Sound.add {c : Catalog} (h : c.Sound) {r : Record} (hn : c.IsNext r) :
    (c.add r).Sound := by
  refine h.withShelf ⟨?_, fun e he => ?_⟩
  · refine List.pairwise_append.mpr ⟨(h.shelf r.name).ascending, List.pairwise_singleton _ _, ?_⟩
    intro e he e' he'
    rw [List.mem_singleton.mp he']
    exact h.before_next hn e he
  · rcases List.mem_append.mp he with he | he
    · exact (h.shelf r.name).labelled e he
    · rw [List.mem_singleton.mp he]
      exact ⟨rfl, rfl⟩

theorem size_add {c : Catalog} (h : c.Sound) (r : Record) : (c.add r).size = c.size + 1 := by
  have hsize := size_withShelf h r.name (c.shelf r.name ++ [(r.version, r)])
  rw [List.length_append, List.length_singleton] at hsize
  rw [Catalog.add]
  omega

theorem find?_add {c : Catalog} (h : c.Sound) {r : Record} (hn : c.IsNext r) (name : AlgorithmName)
    (v : Version) : (c.add r).find? name (some v)
      = if name = r.name ∧ v = r.version then some r else c.find? name (some v) := by
  rw [find?_some, find?_some, Catalog.add, shelf_withShelf]
  by_cases hname : name = r.name
  · subst hname
    -- the end of the shelf is read only where nothing stands before it
    have hfree : (c.shelf r.name).lookup r.version = none := by
      rw [← find?_some]; exact h.find?_following hn
    rw [if_pos rfl, List.lookup_append]
    by_cases hv : v = r.version
    · rw [hv, hfree, if_pos ⟨rfl, rfl⟩]
      exact List.lookup_cons_self
    · rw [if_neg fun hb => hv hb.2, lookup_cons_eq, if_neg hv]
      exact Option.or_none
  · rw [if_neg hname, if_neg fun hb => hname hb.1]

/-! ### Removing -/

/-- The catalog without a version of a name. -/
def drop (c : Catalog) (name : AlgorithmName) (v : Version) : Catalog :=
  c.withShelf name (eraseKey v (c.shelf name))

/-- The two ways in which `remove` can end. -/
theorem Sound.remove_cases {c : Catalog} (h : c.Sound) (name : AlgorithmName)
    (version : Option Version) :
    (c.find? name version = none ∧ c.remove name version = (none, c)) ∨
    ∃ r, c.find? name version = some r ∧ r.name = name ∧
      c.remove name version = (some r, c.drop name r.version) := by
  rcases hv : (c.shelf name).choose version with - | v
  · exact Or.inl ⟨by rw [find?, hv]; rfl, by rw [remove, hv]⟩
  · obtain ⟨r, hr, hname, hversion⟩ := Shelf.lookup_of_choose (h.shelf name) hv
    refine Or.inr ⟨r, by rw [find?, hv]; exact hr, hname, ?_⟩
    rw [remove, hv, hversion]
    simp only [hr]
    rfl

theorem Sound.drop {c : Catalog} (h : c.Sound) (name : AlgorithmName) (v : Version) :
    (c.drop name v).Sound :=
  h.withShelf ⟨(h.shelf name).ascending.eraseKey v,
    fun e he => (h.shelf name).labelled e (mem_of_mem_eraseKey he)⟩

theorem find?_drop (c : Catalog) (name m : AlgorithmName) (v w : Version) :
    (c.drop name v).find? m (some w)
      = if m = name ∧ w = v then none else c.find? m (some w) := by
  rw [find?_some, find?_some, Catalog.drop, shelf_withShelf]
  by_cases hm : m = name
  · subst hm
    rw [if_pos rfl, lookup_eraseKey]
    by_cases hw : w = v <;> simp [hw]
  · rw [if_neg hm, if_neg fun hb => hm hb.1]

theorem size_drop {c : Catalog} (h : c.Sound) {name : AlgorithmName} {v : Version} {r : Record}
    (hr : c.find? name (some v) = some r) : (c.drop name v).size + 1 = c.size := by
  have hsize := size_withShelf h name (eraseKey v (c.shelf name))
  have hlen : (eraseKey v (c.shelf name)).length + 1 = (c.shelf name).length := by
    rw [find?_some] at hr
    exact length_eraseKey strictTotal_version (h.shelf name).ascending (mem_of_lookup hr)
  rw [Catalog.drop]
  omega

/-! ### Listing -/

/-- The listing has a row for each name, with its latest version. -/
theorem Sound.mem_newest {c : Catalog} (h : c.Sound) (row : Latest) :
    row ∈ c.newest ↔ c.latest? row.name = some row.version := by
  rw [newest, List.mem_filterMap, latest?, Catalog.shelf]
  constructor
  · rintro ⟨⟨name, s⟩, hs, hrow⟩
    obtain ⟨v, hv, rfl⟩ := Option.map_eq_some_iff.mp hrow
    rw [h.ascending.lookup_of_mem strictTotal_name hs]
    exact hv
  · intro hrow
    rcases hl : c.shelves.lookup row.name with - | s
    · rw [hl] at hrow; cases hrow
    · rw [hl] at hrow
      exact ⟨(row.name, s), mem_of_lookup hl, Option.map_eq_some_iff.mpr ⟨_, hrow, rfl⟩⟩

/-- The rows of the listing ascend by name. -/
theorem Sound.pairwise_newest {c : Catalog} (h : c.Sound) :
    c.newest.Pairwise fun a b => a.name.text < b.name.text := by
  refine List.pairwise_filterMap.mpr (h.ascending.imp fun hab row hrow row' hrow' => ?_)
  obtain ⟨v, -, rfl⟩ := Option.map_eq_some_iff.mp hrow
  obtain ⟨v', -, rfl⟩ := Option.map_eq_some_iff.mp hrow'
  exact of_decide_eq_true hab

end Catalog

end ScriptRegistry.Store
