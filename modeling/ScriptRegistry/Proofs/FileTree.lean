/-
ScriptRegistry/Proofs/FileTree.lean

The file tree as a map from paths to contents.

What a tree holds is read off by `files.lookup`; directories only decide whether
a path can be reached.  `FileTree.Shaped` is the representation invariant: every
path on the way to an entry is a directory, no path is a file and a directory,
no file has two contents, and no name is too long.  In such a tree walking from
the root finds exactly the entry that the path has (`Shaped.walk_iff`), so that
walking never shows again.  A tree is `Sound` if moreover its root leaves room
for the registry's own keys.

How a place is written decides before any walk whether a file can be there at all
(`Admits`): no character may end its path early, it may not ask for a directory,
and as a whole it may not be too long.

Main results: `Shaped.read_iff`, `Shaped.remove_of_file` and
`Shaped.create_of_free` say what the three operations do; `create_cases` and
`Shaped.create` say that a write that fails leaves all files alone and that the
invariant is kept.
-/
import ScriptRegistry.Proofs.Catalog
import ScriptRegistry.Store.FileTree

namespace ScriptRegistry.Store

namespace FileTree

/-- The representation invariant. -/
structure Shaped (t : FileTree) : Prop where
  distinct : (t.files.map (·.1)).Nodup
  apart : ∀ e ∈ t.files, e.1 ∉ t.directories
  below : ∀ e ∈ t.files, e.1 ≠ [] ∧ ∀ q, q <+: e.1 → q ≠ e.1 → q ∈ t.directories
  closed : ∀ p ∈ t.directories, ∀ q, q <+: p → q ∈ t.directories
  fits : ∀ p, t.node? p ≠ none → ∀ name ∈ p, isTooLong name = false

/-- The invariant of a registry's tree: its root leaves room for every key that the registry
makes. -/
structure Sound (t : FileTree) : Prop extends Shaped t where
  room : t.lead + keyRoom < pathLimit

theorem shaped_empty (lead : Nat) : (empty lead).Shaped where
  distinct := List.nodup_nil
  apart e he := by cases he
  below e he := by cases he
  closed p hp := by cases hp
  fits p hp := absurd rfl hp

variable {t : FileTree}

/-- A tree in shape is sound below a root that leaves room. -/
theorem Sound.of_shaped (h : t.Sound) {t' : FileTree} (hshaped : t'.Shaped)
    (hlead : t'.lead = t.lead) : t'.Sound :=
  ⟨hshaped, by rw [hlead]; exact h.room⟩

/-! ### Entries -/

theorem node?_file_iff {p : Path} {content : List UInt8} :
    t.node? p = some (.file content) ↔ t.files.lookup p = some content := by
  rw [node?]
  rcases t.files.lookup p with - | c
  · by_cases hd : t.directories.contains p = true <;> simp
  · simp

theorem node?_of_lookup_none {p : Path} (h : t.files.lookup p = none) :
    t.node? p = if p ∈ t.directories then some .directory else none := by
  simp [node?, h]

theorem node?_eq_none_iff {p : Path} :
    t.node? p = none ↔ t.files.lookup p = none ∧ p ∉ t.directories := by
  rw [node?]
  rcases t.files.lookup p with - | c
  · by_cases hd : p ∈ t.directories <;> simp [hd]
  · simp

theorem Shaped.lookup_directory (h : t.Shaped) {p : Path} (hp : p ∈ t.directories) :
    t.files.lookup p = none := by
  rcases hl : t.files.lookup p with - | c
  · rfl
  · exact absurd hp (h.apart (p, c) (mem_of_lookup hl))

theorem Shaped.node?_directory (h : t.Shaped) {p : Path} (hp : p ∈ t.directories) :
    t.node? p = some .directory := by
  rw [node?_of_lookup_none (h.lookup_directory hp), if_pos hp]

/-- What is on the way to an entry is a directory. -/
theorem Shaped.directory_of_prefix (h : t.Shaped) {p q : Path} (hp : t.node? p ≠ none)
    (hq : q <+: p) (hne : q ≠ p) : q ∈ t.directories := by
  by_cases hd : p ∈ t.directories
  · exact h.closed p hd q hq
  · rcases hl : t.files.lookup p with - | c
    · exact absurd (node?_eq_none_iff.mpr ⟨hl, hd⟩) hp
    · exact (h.below (p, c) (mem_of_lookup hl)).2 q hq hne

/-! ### Walking -/

/-- A walk ends at the entry with the path that was walked. -/
theorem walk_ok {here rest : Path} {node : Node} (h : t.walk here rest = .ok node) :
    t.node? (here ++ rest) = some node := by
  induction rest generalizing here with
  | nil =>
    rw [walk] at h
    rw [List.append_nil]
    split at h
    · cases h
    · next hnode =>
      cases h
      exact hnode
  | cons name rest ih =>
    rw [walk] at h
    split at h
    · cases h
    · cases h
    · split at h
      · cases h
      · have hrest := ih h
        rwa [List.append_assoc] at hrest

/-- Every entry is reached by walking. -/
theorem Shaped.walk_of_node (h : t.Shaped) {here rest : Path} {node : Node}
    (hnode : t.node? (here ++ rest) = some node) : t.walk here rest = .ok node := by
  induction rest generalizing here with
  | nil =>
    rw [List.append_nil] at hnode
    rw [walk, hnode]
  | cons name rest ih =>
    -- the invariant makes every step of the walk possible
    have hentry : t.node? (here ++ name :: rest) ≠ none := by
      rw [hnode]
      exact Option.some_ne_none node
    have hdir : here ∈ t.directories :=
      h.directory_of_prefix hentry (List.prefix_append _ _) (by simp)
    have hshort : isTooLong name = false := h.fits _ hentry name (by simp)
    rw [walk, h.node?_directory hdir]
    simp only [hshort, Bool.false_eq_true, if_false]
    apply ih
    rwa [List.append_assoc]

theorem Shaped.walk_iff (h : t.Shaped) {p : Path} {node : Node} :
    t.walk [] p = .ok node ↔ t.node? p = some node :=
  ⟨fun hw => walk_ok hw, fun hn => h.walk_of_node hn⟩

/-- The last step of a walk, from a directory. -/
theorem Shaped.walk_last (h : t.Shaped) (here rest : Path) (name : List Char)
    (hdir : here ++ rest ∈ t.directories) :
    t.walk here (rest ++ [name]) = if isTooLong name = true then .error .nameTooLong
      else match t.node? (here ++ rest ++ [name]) with
        | none => .error .missing
        | some node => .ok node := by
  induction rest generalizing here with
  | nil =>
    rw [List.append_nil] at hdir ⊢
    rw [List.nil_append, walk, h.node?_directory hdir]
    rfl
  | cons n rest ih =>
    have hhere : here ∈ t.directories := h.closed _ hdir _ (List.prefix_append _ _)
    have hn : isTooLong n = false := by
      refine h.fits (here ++ n :: rest) ?_ n (by simp)
      rw [h.node?_directory hdir]
      exact Option.some_ne_none _
    have hsplit : here ++ n :: rest = here ++ [n] ++ rest := by simp
    rw [hsplit] at hdir ⊢
    rw [List.cons_append, walk, h.node?_directory hhere]
    simp only [hn, Bool.false_eq_true, if_false]
    exact ih (here ++ [n]) hdir

/-! ### Reading and removing -/

/-- Nothing about how a place is written keeps a file from being there. -/
structure Admits (t : FileTree) (place : Place) : Prop where
  noNul : hasNul place.path = false
  plain : place.ending = .plain
  room : t.isOverlong place.bytes = false

/-- What a place is admitted by is the root, whatever the tree holds. -/
theorem admits_congr {t' : FileTree} (hlead : t'.lead = t.lead) {place : Place} :
    t'.Admits place ↔ t.Admits place := by
  have hsame : t'.isOverlong place.bytes = t.isOverlong place.bytes := by
    rw [isOverlong, isOverlong, hlead]
  constructor
  · rintro ⟨hnul, hplain, hroom⟩
    exact ⟨hnul, hplain, hsame ▸ hroom⟩
  · rintro ⟨hnul, hplain, hroom⟩
    exact ⟨hnul, hplain, hsame ▸ hroom⟩

/-- A file is found at its own path only. -/
theorem find_file {place : Place} {content : List UInt8} (h : t.find place = .ok (.file content)) :
    t.Admits place ∧ t.files.lookup place.path = some content := by
  rw [find] at h
  split at h
  · cases h
  · next hnul =>
    split at h
    · cases h
    · next hroom =>
      split at h
      · next found hwalk =>
        split at h
        · next hplain =>
          cases h
          exact ⟨⟨by simpa using hnul, hplain, by simpa using hroom⟩,
            node?_file_iff.mp (walk_ok hwalk)⟩
        · cases h
      · next hother => exact absurd h (hother content)

/-- What is found is a file that is there, at a place that admits it. -/
theorem Shaped.find_iff (h : t.Shaped) {place : Place} {content : List UInt8} :
    t.find place = .ok (.file content) ↔
      t.Admits place ∧ t.files.lookup place.path = some content := by
  constructor
  · intro hfind
    exact find_file hfind
  · rintro ⟨⟨hnul, hplain, hroom⟩, hfile⟩
    rw [← node?_file_iff, ← h.walk_iff] at hfile
    simp only [find, hnul, hroom, hfile, hplain, Bool.false_eq_true, if_false, if_true]

theorem read_eq_ok_iff {place : Place} {content : List UInt8} :
    t.read place = .ok content ↔ t.find place = .ok (.file content) := by
  rw [read]
  rcases t.find place with fault | node | c
  · exact ⟨fun hr => (by cases hr), fun hr => (by cases hr)⟩
  · exact ⟨fun hr => (by cases hr), fun hr => (by cases hr)⟩
  · exact ⟨fun hr => (by cases hr; rfl), fun hr => (by cases hr; rfl)⟩

/-- Reading gives the content of the file and nothing else. -/
theorem Shaped.read_iff (h : t.Shaped) {place : Place} {content : List UInt8} :
    t.read place = .ok content ↔ t.Admits place ∧ t.files.lookup place.path = some content := by
  rw [read_eq_ok_iff, h.find_iff]

/-- The two ways in which a removal can end. -/
theorem remove_cases (t : FileTree) (place : Place) :
    (∃ content, t.find place = .ok (.file content) ∧
      t.remove place = (.ok (), t.drop place.path)) ∨
    ∃ fault, t.remove place = (.error fault, t) := by
  rw [remove]
  rcases t.find place with fault | node | content
  · exact Or.inr ⟨_, rfl⟩
  · exact Or.inr ⟨_, rfl⟩
  · exact Or.inl ⟨content, rfl, rfl⟩

theorem Shaped.remove_of_file (h : t.Shaped) {place : Place} (hadmits : t.Admits place)
    {content : List UInt8} (hp : t.files.lookup place.path = some content) :
    t.remove place = (.ok (), t.drop place.path) := by
  rw [remove, h.find_iff.mpr ⟨hadmits, hp⟩]

/-- Where no file is, none is removed. -/
theorem remove_of_free {place : Place} (hp : t.files.lookup place.path = none) :
    ∃ fault, t.remove place = (.error fault, t) := by
  rcases t.remove_cases place with ⟨content, hfind, -⟩ | hfault
  · rw [(find_file hfind).2] at hp
    cases hp
  · exact hfault

theorem lookup_drop (t : FileTree) (p q : Path) :
    (t.drop p).files.lookup q = if q = p then none else t.files.lookup q :=
  lookup_eraseKey p q t.files

/-- Fewer files are no less sound. -/
theorem Shaped.drop (h : t.Shaped) (p : Path) : (t.drop p).Shaped where
  distinct := h.distinct.sublist (List.filter_sublist.map _)
  apart e he := h.apart e (List.mem_filter.mp he).1
  below e he := h.below e (List.mem_filter.mp he).1
  closed := h.closed
  fits q hq := by
    refine h.fits q fun hnone => hq ?_
    obtain ⟨hl, hd⟩ := node?_eq_none_iff.mp hnone
    refine node?_eq_none_iff.mpr ⟨?_, hd⟩
    rw [lookup_drop, hl, ite_self]

/-! ### Making directories -/

/-- The tree with a directory at a path that has no entry yet. -/
def enter (t : FileTree) (here : Path) : FileTree :=
  match t.node? here with
  | none => { t with directories := here :: t.directories }
  | some _ => t

@[simp]
theorem files_enter (t : FileTree) (here : Path) : (t.enter here).files = t.files := by
  rw [enter]
  split <;> rfl

@[simp]
theorem lead_enter (t : FileTree) (here : Path) : (t.enter here).lead = t.lead := by
  rw [enter]
  split <;> rfl

theorem mem_enter (t : FileTree) (here : Path) (hfree : t.files.lookup here = none) :
    here ∈ (t.enter here).directories := by
  rw [enter, node?_of_lookup_none hfree]
  by_cases hd : here ∈ t.directories
  · simp [hd]
  · simp [hd]

theorem eq_or_mem_of_mem_enter {here d : Path} (hd : d ∈ (t.enter here).directories) :
    d = here ∨ d ∈ t.directories := by
  rw [enter] at hd
  split at hd
  · exact List.mem_cons.mp hd
  · exact Or.inr hd

theorem Shaped.enter (h : t.Shaped) {here : Path}
    (hway : ∀ q, q <+: here → q ≠ here → q ∈ t.directories)
    (hfits : ∀ name ∈ here, isTooLong name = false) : (t.enter here).Shaped := by
  rw [FileTree.enter]
  split
  · next hnone =>
    obtain ⟨hl, hd⟩ := node?_eq_none_iff.mp hnone
    refine ⟨h.distinct, fun e he hmem => ?_, fun e he => ⟨(h.below e he).1, fun q hq hne => ?_⟩,
      fun p hp q hq => ?_, fun p hp => ?_⟩
    · rcases List.mem_cons.mp hmem with heq | hmem
      · -- no file has the path of the new directory
        have hne := List.lookup_eq_none_iff.mp hl e he
        simp [heq] at hne
      · exact h.apart e he hmem
    · exact List.mem_cons_of_mem _ ((h.below e he).2 q hq hne)
    · rcases List.mem_cons.mp hp with rfl | hp
      · by_cases hne : q = p
        · exact List.mem_cons.mpr (Or.inl hne)
        · exact List.mem_cons_of_mem _ (hway q hq hne)
      · exact List.mem_cons_of_mem _ (h.closed p hp q hq)
    · by_cases hhere : p = here
      · rw [hhere]
        exact hfits
      · refine h.fits p fun hold => hp ?_
        obtain ⟨hl', hd'⟩ := node?_eq_none_iff.mp hold
        exact node?_eq_none_iff.mpr ⟨hl', by simp [hhere, hd']⟩
  · exact h

/-- Nothing is made through or onto a file. -/
theorem makeDirectories_file {here : Path} {content : List UInt8}
    (hfile : t.files.lookup here = some content) (rest : Path) :
    ∃ fault, t.makeDirectories here rest = (.error fault, t) := by
  have hnode : t.node? here = some (.file content) := node?_file_iff.mpr hfile
  cases rest with
  | nil => exact ⟨.taken, by rw [makeDirectories, hnode]⟩
  | cons name rest => exact ⟨.notDirectory, by rw [makeDirectories, hnode]⟩

theorem makeDirectories_nil {here : Path} (hfree : t.files.lookup here = none) :
    t.makeDirectories here [] = (.ok (), t.enter here) := by
  rw [makeDirectories, enter, node?_of_lookup_none hfree]
  by_cases hd : here ∈ t.directories <;> simp [hd]

theorem makeDirectories_cons {here rest : Path} {name : List Char}
    (hfree : t.files.lookup here = none) :
    t.makeDirectories here (name :: rest)
      = if isTooLong name = true then (.error .nameTooLong, t.enter here)
        else (t.enter here).makeDirectories (here ++ [name]) rest := by
  rw [makeDirectories, enter, node?_of_lookup_none hfree]
  by_cases hd : here ∈ t.directories <;> simp [hd]

/-- What is kept when one directory on the way is made is kept when all are. -/
theorem makeDirectories_keeps {P : FileTree → Prop} {here rest : Path} (h : P t)
    (henter : ∀ (t : FileTree) (q : Path), q <+: here ++ rest → P t → P (t.enter q)) :
    P (t.makeDirectories here rest).2 := by
  induction rest generalizing t here with
  | nil =>
    rcases hl : t.files.lookup here with - | content
    · rw [makeDirectories_nil hl]
      exact henter t here (List.prefix_append _ _) h
    · obtain ⟨fault, hmake⟩ := makeDirectories_file hl []
      rwa [hmake]
  | cons name rest ih =>
    rcases hl : t.files.lookup here with - | content
    · have hentered := henter t here (List.prefix_append _ _) h
      rw [makeDirectories_cons hl]
      split
      · exact hentered
      · refine ih hentered fun t' q hq ht' => henter t' q ?_ ht'
        rwa [List.append_assoc] at hq
    · obtain ⟨fault, hmake⟩ := makeDirectories_file hl (name :: rest)
      rwa [hmake]

/-- Making directories touches no file. -/
theorem files_makeDirectories (t : FileTree) (here rest : Path) :
    (t.makeDirectories here rest).2.files = t.files := by
  apply makeDirectories_keeps (P := fun t' => t'.files = t.files) rfl
  intro t' q _ hfiles
  rw [files_enter, hfiles]

theorem lead_makeDirectories (t : FileTree) (here rest : Path) :
    (t.makeDirectories here rest).2.lead = t.lead := by
  apply makeDirectories_keeps (P := fun t' => t'.lead = t.lead) rfl
  intro t' q _ hlead
  rw [lead_enter, hlead]

/-- Only directories on the way are made. -/
theorem mem_makeDirectories {here rest d : Path}
    (hd : d ∈ (t.makeDirectories here rest).2.directories) :
    d ∈ t.directories ∨ d <+: here ++ rest := by
  revert hd
  apply makeDirectories_keeps
    (P := fun t' => d ∈ t'.directories → d ∈ t.directories ∨ d <+: here ++ rest) Or.inl
  intro t' q hq hold hd
  rcases eq_or_mem_of_mem_enter hd with rfl | hd
  · exact Or.inr hq
  · exact hold hd

/-- Directories stay where they are. -/
theorem mem_makeDirectories_of_mem {here rest d : Path} (hd : d ∈ t.directories) :
    d ∈ (t.makeDirectories here rest).2.directories := by
  apply makeDirectories_keeps (P := fun t' => d ∈ t'.directories) hd
  intro t' q _ hd
  rw [enter]
  split
  · exact List.mem_cons_of_mem _ hd
  · exact hd

theorem Shaped.makeDirectories (h : t.Shaped) {here : Path} (rest : Path)
    (hway : ∀ q, q <+: here → q ≠ here → q ∈ t.directories)
    (hfits : ∀ name ∈ here, isTooLong name = false) : (t.makeDirectories here rest).2.Shaped := by
  induction rest generalizing t here with
  | nil =>
    rcases hl : t.files.lookup here with - | content
    · rw [makeDirectories_nil hl]
      exact h.enter hway hfits
    · obtain ⟨fault, hmake⟩ := makeDirectories_file hl []
      rwa [hmake]
  | cons name rest ih =>
    rcases hl : t.files.lookup here with - | content
    · have henter := h.enter hway hfits
      have hmem := mem_enter t here hl
      rw [makeDirectories_cons hl]
      split
      · exact henter
      · next hshort =>
        -- what is on the way to the next name is `here` or on the way to it
        apply ih henter
        · intro q hq hne
          rcases List.prefix_concat_iff.mp hq with rfl | hq
          · exact absurd rfl hne
          · exact henter.closed here hmem q hq
        · intro n hn
          rcases List.mem_append.mp hn with hn | hn
          · exact hfits n hn
          · rw [List.mem_singleton.mp hn]
            simpa using hshort
    · obtain ⟨fault, hmake⟩ := makeDirectories_file hl (name :: rest)
      rwa [hmake]

theorem mem_of_makeDirectories_ok {here rest : Path}
    (hok : (t.makeDirectories here rest).1 = .ok ()) :
    here ++ rest ∈ (t.makeDirectories here rest).2.directories := by
  induction rest generalizing t here with
  | nil =>
    rcases hl : t.files.lookup here with - | content
    · rw [makeDirectories_nil hl, List.append_nil]
      exact mem_enter t here hl
    · obtain ⟨fault, hmake⟩ := makeDirectories_file hl []
      rw [hmake] at hok
      cases hok
  | cons name rest ih =>
    rcases hl : t.files.lookup here with - | content
    · have hsplit : here ++ name :: rest = here ++ [name] ++ rest := by simp
      rw [makeDirectories_cons hl] at hok ⊢
      split at hok
      · cases hok
      · next hshort =>
        rw [if_neg hshort, hsplit]
        exact ih hok
    · obtain ⟨fault, hmake⟩ := makeDirectories_file hl (name :: rest)
      rw [hmake] at hok
      cases hok

/-- Where no file is in the way and all names are short enough, directories are made. -/
theorem makeDirectories_of_free {here rest : Path}
    (hfree : ∀ q, q <+: here ++ rest → t.files.lookup q = none)
    (hfits : ∀ name ∈ rest, isTooLong name = false) :
    (t.makeDirectories here rest).1 = .ok () := by
  induction rest generalizing t here with
  | nil =>
    have hl : t.files.lookup here = none := hfree here (List.prefix_append _ _)
    rw [makeDirectories_nil hl]
  | cons name rest ih =>
    have hl : t.files.lookup here = none := hfree here (List.prefix_append _ _)
    have hsplit : here ++ name :: rest = here ++ [name] ++ rest := by simp
    rw [makeDirectories_cons hl, if_neg (by simp [hfits name List.mem_cons_self])]
    apply ih
    · intro q hq
      rw [files_enter]
      exact hfree q (by rwa [hsplit])
    · exact fun n hn => hfits n (List.mem_cons_of_mem _ hn)

/-! ### Creating files -/

theorem lookup_put (t : FileTree) (p q : Path) (content : List UInt8) :
    (t.put p content).files.lookup q = if q = p then some content else t.files.lookup q := by
  have hrest : (t.files.filter (·.1 ≠ p)).lookup q = if q = p then none else t.files.lookup q :=
    lookup_eraseKey p q t.files
  rw [put, lookup_cons_eq, hrest]
  by_cases h : q = p <;> simp [h]

/-- A file is put into a directory that has no entry of its name. -/
theorem Shaped.put (h : t.Shaped) {dir : Path} {name : List Char} (hdir : dir ∈ t.directories)
    (hshort : isTooLong name = false) (hnone : t.node? (dir ++ [name]) = none)
    (content : List UInt8) : (t.put (dir ++ [name]) content).Shaped := by
  have hold : ∀ e ∈ (t.put (dir ++ [name]) content).files,
      e = (dir ++ [name], content) ∨ e ∈ t.files := by
    intro e he
    exact (List.mem_cons.mp he).imp id fun he => (List.mem_filter.mp he).1
  -- what has to be shown is about the new file only
  refine ⟨?_, fun e he => ?_, fun e he => ?_, h.closed, fun p hp => ?_⟩
  · refine List.nodup_cons.mpr ⟨fun hmem => ?_, h.distinct.sublist (List.filter_sublist.map _)⟩
    obtain ⟨e, he, heq⟩ := List.mem_map.mp hmem
    exact absurd heq (by simpa using (List.mem_filter.mp he).2)
  · rcases hold e he with rfl | he
    · exact (node?_eq_none_iff.mp hnone).2
    · exact h.apart e he
  · rcases hold e he with rfl | he
    · refine ⟨by simp, fun q hq hne => ?_⟩
      rcases List.prefix_concat_iff.mp hq with rfl | hq
      · exact absurd rfl hne
      · exact h.closed dir hdir q hq
    · exact h.below e he
  · by_cases hnew : p = dir ++ [name]
    · subst hnew
      intro n hn
      rcases List.mem_append.mp hn with hn | hn
      · refine h.fits dir ?_ n hn
        rw [h.node?_directory hdir]
        exact Option.some_ne_none _
      · rwa [List.mem_singleton.mp hn]
    · refine h.fits p fun hpold => hp ?_
      obtain ⟨hl, hd⟩ := node?_eq_none_iff.mp hpold
      refine node?_eq_none_iff.mpr ⟨?_, hd⟩
      rw [lookup_put, if_neg hnew, hl]

/-- The two ways in which a new file can end. -/
theorem addFile_cases (t : FileTree) (place : Place) (content : List UInt8) :
    (t.Admits place ∧ t.addFile place content = (.ok (), t.put place.path content)) ∨
    ∃ fault, t.addFile place content = (.error fault, t) := by
  rw [addFile]
  split
  · exact Or.inr ⟨_, rfl⟩
  · next hnul =>
    split
    · exact Or.inr ⟨_, rfl⟩
    · next hroom =>
      split
      · exact Or.inr ⟨_, rfl⟩
      · split
        · exact Or.inr ⟨_, rfl⟩
        · exact Or.inr ⟨_, rfl⟩
        · split
          · next hplain =>
            exact Or.inl ⟨⟨by simpa using hnul, hplain, by simpa using hroom⟩, rfl⟩
          · exact Or.inr ⟨_, rfl⟩
        · exact Or.inr ⟨_, rfl⟩

/-- What makes a new file possible in a directory. -/
def Vacant (t : FileTree) (place : Place) (name : List Char) : Prop :=
  t.Admits place ∧ isTooLong name = false ∧ t.node? place.path = none

/-- A new file is put where the place is vacant and refused elsewhere. -/
theorem Shaped.addFile_cases (h : t.Shaped) {place : Place} {dir : Path} {name : List Char}
    (hpath : place.path = dir ++ [name]) (hdir : dir ∈ t.directories) (content : List UInt8) :
    (t.Vacant place name ∧ t.addFile place content = (.ok (), t.put place.path content)) ∨
      (¬ t.Vacant place name ∧ ∃ fault, t.addFile place content = (.error fault, t)) := by
  have hwalk := h.walk_last [] dir name hdir
  rw [List.nil_append, ← hpath] at hwalk
  rw [addFile]
  split
  · next hnul => exact Or.inr ⟨fun hv => by simp [hv.1.noNul] at hnul, _, rfl⟩
  · next hnul =>
    split
    · next hroom => exact Or.inr ⟨fun hv => by simp [hv.1.room] at hroom, _, rfl⟩
    · next hroom =>
      split
      · next hslash => exact Or.inr ⟨fun hv => by simp [hv.1.plain] at hslash, _, rfl⟩
      · simp only [hwalk]
        by_cases hlong : isTooLong name = true
        · simp only [hlong, if_true]
          exact Or.inr ⟨fun hv => by simp [hv.2.1] at hlong, _, rfl⟩
        · simp only [hlong, Bool.false_eq_true, if_false]
          rcases hnode : t.node? place.path with - | node | c
          · by_cases hplain : place.ending = .plain
            · have hadmits : t.Admits place :=
                ⟨by simpa using hnul, hplain, by simpa using hroom⟩
              exact Or.inl ⟨⟨hadmits, by simpa using hlong, hnode⟩, if_pos hplain⟩
            · exact Or.inr ⟨fun hv => hplain hv.1.plain, .missing, if_neg hplain⟩
          · exact Or.inr ⟨fun hv => by simp [hv.2.2] at hnode, _, rfl⟩
          · exact Or.inr ⟨fun hv => by simp [hv.2.2] at hnode, _, rfl⟩

/-- The three ways in which a write can end: it is refused before anything is made, the directories
cannot be made, or the file is added below them. -/
theorem create_stages (t : FileTree) (place : Place) (content : List UInt8) :
    (∃ fault, t.create place content = (.error fault, t)) ∨
    (∃ fault, (t.makeDirectories [] place.path.dropLast).1 = .error fault ∧
      t.create place content = (.error fault, (t.makeDirectories [] place.path.dropLast).2)) ∨
    ((t.makeDirectories [] place.path.dropLast).1 = .ok () ∧
      t.create place content =
        (t.makeDirectories [] place.path.dropLast).2.addFile place content) := by
  rw [create]
  split
  · exact Or.inl ⟨_, rfl⟩
  · split
    · exact Or.inl ⟨_, rfl⟩
    · rcases t.makeDirectories [] place.path.dropLast with ⟨fault | made, t₁⟩
      · exact Or.inr (Or.inl ⟨fault, rfl, rfl⟩)
      · exact Or.inr (Or.inr ⟨rfl, rfl⟩)

/-- The two ways in which a write can leave the files. -/
theorem create_cases (t : FileTree) (place : Place) (content : List UInt8) :
    (t.Admits place ∧ (t.create place content).1 = .ok () ∧
      ∀ q, (t.create place content).2.files.lookup q =
        if q = place.path then some content else t.files.lookup q) ∨
    ∃ fault, (t.create place content).1 = .error fault ∧
      (t.create place content).2.files = t.files := by
  have hfiles := files_makeDirectories t [] place.path.dropLast
  rcases t.create_stages place content with ⟨fault, hrefused⟩ | ⟨fault, -, hstopped⟩ | ⟨-, hmade⟩
  · rw [hrefused]
    exact Or.inr ⟨fault, rfl, rfl⟩
  · rw [hstopped]
    exact Or.inr ⟨fault, rfl, hfiles⟩
  · rw [hmade]
    rcases (t.makeDirectories [] place.path.dropLast).2.addFile_cases place content with
      ⟨hadmits, hadd⟩ | ⟨fault, hadd⟩
    · rw [hadd]
      refine Or.inl ⟨(admits_congr (lead_makeDirectories t [] _)).mp hadmits, rfl,
        fun q => ?_⟩
      rw [lookup_put, hfiles]
    · rw [hadd]
      exact Or.inr ⟨fault, rfl, hfiles⟩

theorem lead_create (t : FileTree) (place : Place) (content : List UInt8) :
    (t.create place content).2.lead = t.lead := by
  have hlead := lead_makeDirectories t [] place.path.dropLast
  rcases t.create_stages place content with ⟨fault, hrefused⟩ | ⟨fault, -, hstopped⟩ | ⟨-, hmade⟩
  · rw [hrefused]
  · rw [hstopped, hlead]
  · rw [hmade]
    rcases (t.makeDirectories [] place.path.dropLast).2.addFile_cases place content with
      ⟨-, hadd⟩ | ⟨fault, hadd⟩
    · rw [hadd]
      exact hlead
    · rw [hadd, hlead]

/-- Making directories from the root keeps the invariant. -/
theorem Shaped.makeDirectories_root (h : t.Shaped) (path : Path) :
    (t.makeDirectories [] path).2.Shaped :=
  h.makeDirectories path (fun _ hq hne => absurd (List.prefix_nil.mp hq) hne)
    fun _ hname => by cases hname

/-- The invariant is kept whether a write succeeds or fails. -/
theorem Shaped.create (h : t.Shaped) {place : Place} {dir : Path} {name : List Char}
    (hpath : place.path = dir ++ [name]) (content : List UInt8) :
    (t.create place content).2.Shaped := by
  have hmade := h.makeDirectories_root dir
  rcases t.create_stages place content with
    ⟨fault, hrefused⟩ | ⟨fault, -, hstopped⟩ | ⟨hok, hadded⟩
  · rw [hrefused]
    exact h
  · rw [hstopped, hpath, List.dropLast_concat]
    exact hmade
  · rw [hpath, List.dropLast_concat] at hok hadded
    have hdir : dir ∈ (t.makeDirectories [] dir).2.directories := mem_of_makeDirectories_ok hok
    rw [hadded]
    rcases hmade.addFile_cases hpath hdir content with
      ⟨⟨-, hshort, hnone⟩, hadd⟩ | ⟨-, fault, hadd⟩
    · rw [hadd, hpath]
      rw [hpath] at hnone
      exact hmade.put hdir hshort hnone content
    · rw [hadd]
      exact hmade

theorem Shaped.lookup_root (h : t.Shaped) : t.files.lookup [] = none := by
  rcases hl : t.files.lookup [] with - | content
  · rfl
  · exact absurd rfl (h.below ([], content) (mem_of_lookup hl)).1

/-- In a directory of its own, whose name is too long, nothing is written; nor is anything made if
the path of the directory is too long as well. -/
theorem Shaped.create_of_tooLong (h : t.Shaped) {place : Place} {n file : List Char}
    (hpath : place.path = [n, file]) (hnul : hasNul [n] = false) (hlong : isTooLong n = true)
    (content : List UInt8) : t.create place content =
      (.error .nameTooLong,
        if pathLimit < t.lead + place.parentBytes then t else t.enter []) := by
  have hmake : t.makeDirectories [] [n] = (.error .nameTooLong, t.enter []) := by
    rw [makeDirectories_cons h.lookup_root, if_pos hlong]
  rw [FileTree.create, hpath]
  simp only [List.dropLast, hnul, Bool.false_eq_true, if_false, hmake]
  split <;> rfl

/-- A way down ends where no file and no directory is. -/
theorem walk_of_free {here rest : Path} (hfree : ∀ q, q <+: here ++ rest → t.files.lookup q = none)
    (hfits : ∀ name ∈ rest, isTooLong name = false) (hdir : here ++ rest ∉ t.directories) :
    t.walk here rest = .error .missing := by
  have hlookup : t.files.lookup here = none := hfree here (List.prefix_append _ _)
  induction rest generalizing here with
  | nil =>
    rw [List.append_nil] at hdir
    rw [walk, node?_eq_none_iff.mpr ⟨hlookup, hdir⟩]
  | cons name rest ih =>
    have hsplit : here ++ name :: rest = here ++ [name] ++ rest := by simp
    rw [hsplit] at hfree hdir
    rw [walk, node?_of_lookup_none hlookup]
    split
    · rfl
    · next hnode => split at hnode <;> cases hnode
    · rw [if_neg (by simp [hfits name List.mem_cons_self])]
      exact ih hfree (fun n hn => hfits n (List.mem_cons_of_mem _ hn)) hdir
        (hfree _ (List.prefix_append _ _))

/-- What is not there is missing, if nothing else is in the way. -/
theorem read_of_free {place : Place} (hadmits : t.Admits place)
    (hfits : ∀ name ∈ place.path, isTooLong name = false)
    (hfree : ∀ q, q <+: place.path → t.files.lookup q = none) (hdir : place.path ∉ t.directories) :
    t.read place = .error .missing := by
  have hwalk : t.walk [] place.path = .error .missing := walk_of_free hfree hfits hdir
  rw [read, find]
  simp only [hadmits.noNul, hadmits.room, hwalk, Bool.false_eq_true, if_false]

/-- **A new file can be written where nothing is in the way.** -/
theorem Shaped.create_of_free (h : t.Shaped) {place : Place} {dir : Path} {name : List Char}
    (hpath : place.path = dir ++ [name]) (hadmits : t.Admits place)
    (hparent : place.parentBytes ≤ place.bytes + 1)
    (hfits : ∀ n ∈ dir ++ [name], isTooLong n = false)
    (hfree : ∀ q, q <+: dir ++ [name] → t.files.lookup q = none)
    (hdir : dir ++ [name] ∉ t.directories) (content : List UInt8) :
    ∃ t', t.create place content = (.ok (), t') ∧
      (∀ q, t'.files.lookup q = if q = dir ++ [name] then some content else t.files.lookup q) ∧
      ∀ d ∈ t'.directories, d ∈ t.directories ∨ d <+: dir := by
  have hmade := h.makeDirectories_root dir
  have hfiles := files_makeDirectories t [] dir
  have honly : ∀ d ∈ (t.makeDirectories [] dir).2.directories, d ∈ t.directories ∨ d <+: dir :=
    fun d hd => mem_makeDirectories hd
  have hok : (t.makeDirectories [] dir).1 = .ok () :=
    makeDirectories_of_free (fun q hq => hfree q (hq.trans (List.prefix_append _ _)))
      fun n hn => hfits n (List.mem_append_left _ hn)
  have hmem := mem_of_makeDirectories_ok hok
  have hnul : hasNul dir = false := by
    have hwhole := hadmits.noNul
    rw [hpath, hasNul, List.any_append, Bool.or_eq_false_iff] at hwhole
    exact hwhole.1
  have hroom : ¬ pathLimit < t.lead + place.parentBytes := by
    have hwhole := hadmits.room
    rw [isOverlong, decide_eq_false_iff_not] at hwhole
    omega
  rcases hmake : t.makeDirectories [] dir with ⟨fault | made, t₁⟩
  · rw [hmake] at hok
    cases hok
  · have hlead := lead_makeDirectories t [] dir
    rw [hmake] at hmade hfiles honly hmem hlead
    -- the place is still free: the directories just made are above it
    have hvacant : t₁.Vacant place name := by
      refine ⟨(admits_congr hlead).mpr hadmits, hfits name (by simp), ?_⟩
      rw [hpath]
      refine node?_eq_none_iff.mpr ⟨?_, fun hd => ?_⟩
      · rw [hfiles]
        exact hfree _ List.prefix_rfl
      · rcases honly _ hd with hd | hd
        · exact hdir hd
        · exact absurd hd.length_le (by simp)
    rcases hmade.addFile_cases hpath hmem content with ⟨-, hadd⟩ | ⟨hnot, -⟩
    · refine ⟨t₁.put (dir ++ [name]) content, ?_, fun q => ?_, honly⟩
      · rw [FileTree.create]
        simp only [hpath, List.dropLast_concat, hnul, hroom, Bool.false_eq_true, if_false, hmake]
        rw [hadd, hpath]
      · rw [lookup_put, hfiles]
    · exact absurd hvacant hnot

end FileTree

end ScriptRegistry.Store
