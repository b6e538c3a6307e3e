/-
ScriptRegistry/Proofs/Texts.lean

Texts under fresh keys.

The registry writes to fresh keys only, so that its tree is `Tidy`: each file
lies in the directory of an algorithm, and there are no other directories.
Whether a fresh key can be written then depends on nothing but the length of the
algorithm's name and on the path being free (`Tidy.writeText_cases`).

`Holds` says that a text stands where a record looks for it, with the digest
that the record has.  It only looks at the contents of the tree, so that it is
carried over any change that spares the path (`Holds.mono`).

What a call about any key does to the file at its place is told first
(`writeText_of_place`, `removeText_of_place`, `readText_eq_ok_iff`).
-/
import ScriptRegistry.Proofs.Components
import ScriptRegistry.Proofs.FileTree

namespace ScriptRegistry.Store

open Artifact

namespace FileTree

/-- The tree of a registry. -/
structure Tidy (t : FileTree) : Prop where
  sound : t.Sound
  shallow : ∀ d ∈ t.directories, d.length ≤ 1
  deep : ∀ p content, t.files.lookup p = some content → p.length = 2

theorem tidy_empty (root : Root) : (empty root.lead).Tidy where
  sound := ⟨shaped_empty root.lead, root.room⟩
  shallow d hd := by cases hd
  deep p content hp := by cases hp

/-- A text stands under a fresh key, and the reference to it is right. -/
def Holds (t : FileTree) (name : AlgorithmName) (version : Version) (role : Role) (ref : TextRef)
    (text : String) : Prop :=
  ∃ token, ref = ⟨Key.fresh name version role token, .ofText text⟩ ∧
    t.files.lookup (freshPath name version role token) = some (Text.encode text.toList)

variable {t : FileTree} {name : AlgorithmName} {version : Version} {role : Role} {token : Token}

/-- What a tree holds is held as long as the texts of the same name, version and role stay. -/
theorem Holds.mono {t' : FileTree} {ref : TextRef} {text : String}
    (h : t.Holds name version role ref text)
    (hstay : ∀ token content,
      t.files.lookup (freshPath name version role token) = some content →
        t'.files.lookup (freshPath name version role token) = some content) :
    t'.Holds name version role ref text := by
  obtain ⟨token, href, hfile⟩ := h
  exact ⟨token, href, hstay token _ hfile⟩

/-! ### Calls about a key -/

theorem writeText_of_place {key : Key} {place : Place} (h : placeOf? key = some place)
    (t : FileTree) (text : String) : t.writeText key text =
      ((t.create place (Text.encode text.toList)).1.mapError .file,
        (t.create place (Text.encode text.toList)).2) := by
  rw [writeText, h]

theorem removeText_of_place {key : Key} {place : Place} (h : placeOf? key = some place)
    (t : FileTree) : t.removeText key =
      ((t.remove place).1.mapError (faultAt key), (t.remove place).2) := by
  rw [removeText, h]

/-- A text is read from the file at the place of its key. -/
theorem readText_eq_ok_iff {key : Key} {place : Place} (h : placeOf? key = some place)
    {text : String} : t.readText key = .ok text ↔
      t.read place = .ok (Text.encode text.toList) := by
  rw [readText, h]
  dsimp only
  rcases t.read place with fault | content
  · simp
  · simp only [Except.ok.injEq]
    rcases hdecode : Text.decode content with fault | cs
    · simp only [reduceCtorEq, false_iff]
      rintro rfl
      rw [Text.decode_encode] at hdecode
      cases hdecode
    · rw [Text.decode_eq_ok_iff] at hdecode
      subst hdecode
      rw [Except.ok.injEq, Text.encode_inj, ← String.toList_inj, String.toList_ofList]

/-! ### Fresh places -/

theorem isTooLong_of_mem_freshPath (hshort : isTooLong name.text.toList = false) :
    ∀ n ∈ freshPath name version role token, isTooLong n = false := by
  intro n hn
  rcases List.mem_cons.mp hn with rfl | hn
  · exact hshort
  · rw [List.mem_singleton.mp hn]
    exact isTooLong_fileName

/-- A name in whose directory there is a file is not too long. -/
theorem Shaped.isTooLong_of_lookup (h : t.Shaped) {content : List UInt8}
    (hfile : t.files.lookup (freshPath name version role token) = some content) :
    isTooLong name.text.toList = false := by
  have hnode := node?_file_iff.mpr hfile
  refine h.fits (freshPath name version role token) ?_ _ List.mem_cons_self
  rw [hnode]
  exact Option.some_ne_none _

/-- Below the root of a registry there is room for a fresh key. -/
theorem Sound.admits_fresh (h : t.Sound) (hshort : isTooLong name.text.toList = false) :
    t.Admits (freshPlace name version role token) where
  noNul := hasNul_freshPath
  plain := rfl
  room := by
    have hroom := h.room
    have hbytes : Text.byteLength (Key.fresh name version role token).text.toList ≤ keyRoom :=
      byteLength_fresh_le hshort
    refine decide_eq_false ?_
    show ¬ pathLimit ≤ t.lead + Text.byteLength (Key.fresh name version role token).text.toList
    omega

/-! ### Reading and removing -/

/-- A text that is held is read. -/
theorem Tidy.readText_of_holds (h : t.Tidy) {ref : TextRef} {text : String}
    (hheld : t.Holds name version role ref text) : t.readText ref.key = .ok text := by
  obtain ⟨token, rfl, hfile⟩ := hheld
  have hadmits : t.Admits (freshPlace name version role token) :=
    h.sound.admits_fresh (h.sound.isTooLong_of_lookup hfile)
  exact (readText_eq_ok_iff placeOf?_fresh).mpr (h.sound.read_iff.mpr ⟨hadmits, hfile⟩)

theorem Tidy.drop (h : t.Tidy) (p : Path) : (t.drop p).Tidy where
  sound := h.sound.of_shaped (h.sound.drop p) rfl
  shallow := h.shallow
  deep q content hq := by
    rw [lookup_drop] at hq
    split at hq
    · cases hq
    · exact h.deep q content hq

/-- After a removal nothing stands under the key, whether there was a text or not. -/
theorem Tidy.removeText_fresh (h : t.Tidy) (name : AlgorithmName) (version : Version) (role : Role)
    (token : Token) : ∃ result t', t.removeText (Key.fresh name version role token) = (result, t') ∧
      t'.Tidy ∧ ∀ q, t'.files.lookup q
        = if q = freshPath name version role token then none else t.files.lookup q := by
  rw [removeText_of_place placeOf?_fresh]
  refine ⟨_, _, rfl, ?_⟩
  rcases hl : t.files.lookup (freshPath name version role token) with - | content
  · -- the removal fails, and there was nothing to remove
    obtain ⟨fault, hfail⟩ : ∃ fault, t.remove (freshPlace name version role token)
        = (.error fault, t) := remove_of_free hl
    rw [hfail]
    refine ⟨h, fun q => ?_⟩
    split
    · next hq => rw [hq, hl]
    · rfl
  · have hadmits : t.Admits (freshPlace name version role token) :=
      h.sound.admits_fresh (h.sound.isTooLong_of_lookup hl)
    rw [h.sound.remove_of_file hadmits hl]
    exact ⟨h.drop _, lookup_drop t _⟩

/-! ### Writing -/

/-- A tree with the same files and no deep directories is as tidy. -/
theorem Tidy.of_files (h : t.Tidy) {t' : FileTree} (hsound : t'.Sound) (hfiles : t'.files = t.files)
    (hshallow : ∀ d ∈ t'.directories, d.length ≤ 1) : t'.Tidy where
  sound := hsound
  shallow := hshallow
  deep p content hp := h.deep p content (by rwa [hfiles] at hp)

/-- Nothing is in the way of a fresh path that is free. -/
theorem Tidy.lookup_prefix (h : t.Tidy)
    (hfree : t.files.lookup (freshPath name version role token) = none) {q : Path}
    (hq : q <+: freshPath name version role token) : t.files.lookup q = none := by
  rcases hl : t.files.lookup q with - | content
  · rfl
  · -- files have paths of one length, so no file stands above another place
    have hlen : q.length = (freshPath name version role token).length := h.deep q content hl
    rw [hq.eq_of_length hlen, hfree] at hl
    cases hl

/-- Nothing is read under a fresh key whose path is free. -/
theorem Tidy.readText_of_free (h : t.Tidy) (hshort : isTooLong name.text.toList = false)
    (hfree : t.files.lookup (freshPath name version role token) = none) :
    t.readText (Key.fresh name version role token)
      = .error (.artifactNotFound (Key.fresh name version role token)) := by
  have hfits : ∀ n ∈ freshPath name version role token, isTooLong n = false :=
    isTooLong_of_mem_freshPath hshort
  have hdeep : freshPath name version role token ∉ t.directories :=
    fun hmem => absurd (h.shallow _ hmem) (by simp [freshPath])
  have hread : t.read (freshPlace name version role token) = .error .missing :=
    read_of_free (h.sound.admits_fresh hshort) hfits (fun q hq => h.lookup_prefix hfree hq) hdeep
  rw [readText, placeOf?_fresh]
  simp only [hread, faultAt]

/-- **The two ways in which a write to a free fresh key can end.** -/
theorem Tidy.writeText_cases (h : t.Tidy)
    (hfree : t.files.lookup (freshPath name version role token) = none) (text : String) :
    (isTooLong name.text.toList = true ∧ ∃ t', t'.Tidy ∧ t'.files = t.files ∧
      t.writeText (Key.fresh name version role token) text
        = (.error (.file .nameTooLong), t')) ∨
    (isTooLong name.text.toList = false ∧ ∃ t', t'.Tidy ∧
      (∀ q, t'.files.lookup q = if q = freshPath name version role token
        then some (Text.encode text.toList) else t.files.lookup q) ∧
      t.writeText (Key.fresh name version role token) text = (.ok (), t')) := by
  have hpath : (freshPlace name version role token).path
      = [name.text.toList] ++ [fileName version role token] := rfl
  rw [writeText_of_place placeOf?_fresh]
  by_cases hlong : isTooLong name.text.toList = true
  · have hparent : hasNul [name.text.toList] = false := by
      apply hasNul_of_isKeyChar
      intro n hn c hc
      rw [List.mem_singleton.mp hn] at hc
      exact isKeyChar_of_mem_name hc
    have henter : (t.enter []).Tidy := by
      refine h.of_files (h.sound.of_shaped ?_ (lead_enter t [])) (files_enter t [])
        fun d hd => ?_
      · exact h.sound.enter (fun q hq hne => absurd (List.prefix_nil.mp hq) hne)
          fun n hn => by cases hn
      · rcases eq_or_mem_of_mem_enter hd with rfl | hd
        · exact Nat.zero_le 1
        · exact h.shallow d hd
    rw [h.sound.create_of_tooLong hpath hparent hlong]
    -- the root itself is made, unless the path of the directory is too long as a whole
    split
    · exact Or.inl ⟨hlong, t, h, rfl, rfl⟩
    · exact Or.inl ⟨hlong, t.enter [], henter, files_enter t [], rfl⟩
  · have hshort : isTooLong name.text.toList = false := by simpa using hlong
    have hfits : ∀ n ∈ freshPath name version role token, isTooLong n = false :=
      isTooLong_of_mem_freshPath hshort
    have hdeep : freshPath name version role token ∉ t.directories :=
      fun hmem => absurd (h.shallow _ hmem) (by simp [freshPath])
    obtain ⟨t', hcreate, hlookup, honly⟩ := h.sound.create_of_free hpath
      (h.sound.admits_fresh hshort) (parentBytes_le placeOf?_fresh) hfits
      (fun q hq => h.lookup_prefix hfree hq) hdeep (Text.encode text.toList)
    have hshaped := h.sound.create hpath (Text.encode text.toList)
    have hlead := lead_create t (freshPlace name version role token)
      (Text.encode text.toList)
    rw [hcreate] at hshaped hlead ⊢
    refine Or.inr ⟨hshort, t', ⟨?_, fun d hd => ?_, fun p content hp => ?_⟩, hlookup, rfl⟩
    · exact h.sound.of_shaped hshaped hlead
    · rcases honly d hd with hd | hd
      · exact h.shallow d hd
      · exact hd.length_le
    · rw [hlookup] at hp
      split at hp
      · next heq => rw [heq]; rfl
      · exact h.deep p content hp

end FileTree

end ScriptRegistry.Store
