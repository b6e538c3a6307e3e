/-
ScriptRegistry/Proofs/Confinement.lean

What keys can reach, and that fresh keys do not meet.

A key that does not escape leads down from the root by at least one name.  A call about it
can end in two ways only (`writeText_cases`, `removeText_cases`): the file with these names
is put there or taken away, or all files stay as they are.  No other file is read or
changed (`Minds`), since directories hold no text and a path is walked to its own end.
Which of the two it is for a new text depends on how the key is written (`Admits`) and on
what is in the way of its file (`Clear`, `Shaped.writeText_ok_iff`).

A fresh key leads down by two names, that of the algorithm and that of the file, and
these tell all four parts of the key.

Main results: `confined` and `fresh_unambiguous`.
-/
import ScriptRegistry.Proofs.Components
import ScriptRegistry.Proofs.Texts

namespace ScriptRegistry.Store

open Artifact

/-! ### The directories on the way -/

namespace FileTree

variable {t : FileTree}

/-- A write makes directories on the way to its path only. -/
theorem mem_directories_create {place : Place} {content : List UInt8} (hne : place.path ≠ [])
    {d : Path} (hd : d ∈ (t.create place content).2.directories) :
    d ∈ t.directories ∨ d <+: place.path ∧ d ≠ place.path := by
  have hmade : d ∈ (t.makeDirectories [] place.path.dropLast).2.directories →
      d ∈ t.directories ∨ d <+: place.path ∧ d ≠ place.path := by
    intro hmem
    rcases mem_makeDirectories hmem with hold | hway
    · exact Or.inl hold
    · rw [List.nil_append] at hway
      refine Or.inr ⟨hway.trans (List.dropLast_prefix _), ?_⟩
      -- the last directory that is made is one name shorter than the path
      rintro rfl
      have hlength := hway.length_le
      have hpos := List.length_pos_iff.mpr hne
      rw [List.length_dropLast] at hlength
      omega
  rcases t.create_stages place content with ⟨fault, hrefused⟩ | ⟨fault, -, hstopped⟩ | ⟨-, hadded⟩
  · rw [hrefused] at hd
    exact Or.inl hd
  · rw [hstopped] at hd
    exact hmade hd
  · rw [hadded] at hd
    rcases (t.makeDirectories [] place.path.dropLast).2.addFile_cases place content with
      ⟨-, hadd⟩ | ⟨fault, hadd⟩
    · rw [hadd] at hd
      exact hmade hd
    · rw [hadd] at hd
      exact hmade hd

/-! ### When a file can be made -/

/-- Nothing is in the way of a new file: its names can be those of files, no file is at its path or
above it, and no directory at it. -/
structure Clear (t : FileTree) (path : Path) : Prop where
  fits : ∀ name ∈ path, isTooLong name = false
  way : ∀ q, q <+: path → t.files.lookup q = none
  free : path ∉ t.directories

/-- A file has been made only where nothing was in the way. -/
theorem Shaped.clear_of_create (h : t.Shaped) {place : Place} {dir : Path} {name : List Char}
    (hpath : place.path = dir ++ [name]) {content : List UInt8}
    (hok : (t.create place content).1 = .ok ()) : t.Clear (dir ++ [name]) := by
  have hmade := h.makeDirectories_root dir
  have hfiles := files_makeDirectories t [] dir
  have hstay : ∀ d ∈ t.directories, d ∈ (t.makeDirectories [] dir).2.directories :=
    fun d hd => mem_makeDirectories_of_mem hd
  rcases t.create_stages place content with
    ⟨fault, hrefused⟩ | ⟨fault, -, hstopped⟩ | ⟨hdone, hadded⟩
  · rw [hrefused] at hok
    cases hok
  · rw [hstopped] at hok
    cases hok
  · rw [hpath, List.dropLast_concat] at hdone hadded
    have hdir : dir ∈ (t.makeDirectories [] dir).2.directories := mem_of_makeDirectories_ok hdone
    rw [hadded] at hok
    rcases hmade.addFile_cases hpath hdir content with
      ⟨⟨-, hshort, hnone⟩, -⟩ | ⟨-, fault, hadd⟩
    · rw [hpath] at hnone
      obtain ⟨hfile, hfree⟩ := node?_eq_none_iff.mp hnone
      refine ⟨fun n hn => ?_, fun q hq => ?_, fun hd => hfree (hstay _ hd)⟩
      · rcases List.mem_append.mp hn with hn | hn
        · refine hmade.fits dir ?_ n hn
          rw [hmade.node?_directory hdir]
          exact Option.some_ne_none _
        · rwa [List.mem_singleton.mp hn]
      · -- above the file there are directories only
        rw [← hfiles]
        rcases List.prefix_concat_iff.mp hq with rfl | hq
        · exact hfile
        · exact hmade.lookup_directory (hmade.closed dir hdir q hq)
    · rw [hadd] at hok
      cases hok

/-- **A file can be made exactly where its place admits it and nothing is in the way.** -/
theorem Shaped.create_ok_iff (h : t.Shaped) {place : Place} (hne : place.path ≠ [])
    (hparent : place.parentBytes ≤ place.bytes + 1) (content : List UInt8) :
    (t.create place content).1 = .ok () ↔ t.Admits place ∧ t.Clear place.path := by
  obtain ⟨dir, name, hpath⟩ : ∃ dir name, place.path = dir ++ [name] := by
    rcases List.eq_nil_or_concat place.path with hnil | ⟨dir, name, hpath⟩
    · exact absurd hnil hne
    · exact ⟨dir, name, by rw [hpath, List.concat_eq_append]⟩
  constructor
  · intro hok
    rcases t.create_cases place content with ⟨hadmits, -⟩ | ⟨fault, herror, -⟩
    · rw [hpath]
      exact ⟨hadmits, h.clear_of_create hpath hok⟩
    · rw [herror] at hok
      cases hok
  · rintro ⟨hadmits, hclear⟩
    rw [hpath] at hclear
    obtain ⟨t', hcreate, -⟩ := h.create_of_free hpath hadmits hparent hclear.fits hclear.way
      hclear.free content
    rw [hcreate]

/-! ### Calls about a key -/

/-- What calls about a key do if it is refused: they say so, and nothing else happens. -/
structure Refuses (t : FileTree) (key : Key) : Prop where
  write : ∀ text, t.writeText key text = (.error (.escapesRoot key), t)
  remove : t.removeText key = (.error (.escapesRoot key), t)
  read : t.readText key = .error (.escapesRoot key)

theorem refuses_of_place {key : Key} (h : placeOf? key = none) (t : FileTree) :
    t.Refuses key where
  write text := by rw [writeText, h]
  remove := by rw [removeText, h]
  read := by rw [readText, h]

/-- **The two ways in which a text can be written.** -/
theorem writeText_cases (t : FileTree) (key : Key) (text : String) :
    (∃ place, placeOf? key = some place ∧ t.Admits place ∧
      (t.writeText key text).1 = .ok () ∧ ∀ q, (t.writeText key text).2.files.lookup q =
        if q = place.path then some (Text.encode text.toList) else t.files.lookup q) ∨
    ∃ fault, (t.writeText key text).1 = .error fault ∧
      (t.writeText key text).2.files = t.files := by
  rcases hplace : placeOf? key with - | place
  · rw [(refuses_of_place hplace t).write]
    exact Or.inr ⟨_, rfl, rfl⟩
  · rw [writeText_of_place hplace]
    rcases t.create_cases place (Text.encode text.toList) with
      ⟨hadmits, hok, hfiles⟩ | ⟨fault, herror, hfiles⟩
    · exact Or.inl ⟨place, rfl, hadmits, by rw [hok]; rfl, hfiles⟩
    · exact Or.inr ⟨.file fault, by rw [herror]; rfl, hfiles⟩

/-- **The two ways in which a text can be removed.** -/
theorem removeText_cases (t : FileTree) (key : Key) :
    (∃ place content, placeOf? key = some place ∧ t.Admits place ∧
      t.files.lookup place.path = some content ∧ t.removeText key = (.ok (), t.drop place.path)) ∨
    ∃ fault, t.removeText key = (.error fault, t) := by
  rcases hplace : placeOf? key with - | place
  · rw [(refuses_of_place hplace t).remove]
    exact Or.inr ⟨_, rfl⟩
  · rw [removeText_of_place hplace]
    rcases t.remove_cases place with ⟨content, hfind, hremove⟩ | ⟨fault, hremove⟩
    · obtain ⟨hadmits, hfile⟩ := find_file hfind
      exact Or.inl ⟨place, content, rfl, hadmits, hfile, by rw [hremove]; rfl⟩
    · exact Or.inr ⟨faultAt key fault, by rw [hremove]; rfl⟩

theorem Shaped.writeText (h : t.Shaped) (key : Key) (text : String) :
    (t.writeText key text).2.Shaped := by
  rcases hplace : placeOf? key with - | place
  · rw [(refuses_of_place hplace t).write]
    exact h
  · rw [writeText_of_place hplace]
    rcases List.eq_nil_or_concat place.path with hnil | ⟨dir, name, hpath⟩
    · exact absurd hnil (path_ne_nil hplace)
    rw [List.concat_eq_append] at hpath
    exact h.create hpath (Text.encode text.toList)

theorem lead_writeText (t : FileTree) (key : Key) (text : String) :
    (t.writeText key text).2.lead = t.lead := by
  rcases hplace : placeOf? key with - | place
  · rw [(refuses_of_place hplace t).write]
  · rw [writeText_of_place hplace]
    exact lead_create t place (Text.encode text.toList)

/-- A text can be written exactly where the place of its key admits a file and nothing is in the way
of it. -/
theorem Shaped.writeText_ok_iff (h : t.Shaped) {key : Key} {place : Place}
    (hplace : placeOf? key = some place) (text : String) :
    (t.writeText key text).1 = .ok () ↔ t.Admits place ∧ t.Clear place.path := by
  rw [← h.create_ok_iff (path_ne_nil hplace) (parentBytes_le hplace) (Text.encode text.toList),
    writeText_of_place hplace]
  rcases (t.create place (Text.encode text.toList)).1 with fault | made
  · exact iff_of_false (fun hok => by cases hok) (fun hok => by cases hok)
  · exact iff_of_true rfl rfl

/-- A text that can be written is read back. -/
theorem Shaped.writeText_of_clear (h : t.Shaped) {key : Key} {place : Place}
    (hplace : placeOf? key = some place) (hadmits : t.Admits place) (hclear : t.Clear place.path)
    (text : String) : ∃ t', t.writeText key text = (.ok (), t') ∧ t'.readText key = .ok text := by
  have hok : (t.writeText key text).1 = .ok () :=
    (h.writeText_ok_iff hplace text).mpr ⟨hadmits, hclear⟩
  refine ⟨(t.writeText key text).2, Prod.ext hok rfl, (readText_eq_ok_iff hplace).mpr ?_⟩
  rcases t.writeText_cases key text with ⟨place', hsame, -, -, hfiles⟩ | ⟨fault, herror, -⟩
  · obtain rfl : place = place' := Option.some.inj (hplace.symm.trans hsame)
    refine (h.writeText key text).read_iff.mpr ⟨?_, ?_⟩
    · exact (admits_congr (lead_writeText t key text)).mpr hadmits
    · rw [hfiles, if_pos rfl]
  · rw [hok] at herror
    cases herror

/-- A key is found to escape by none but the check of the key itself. -/
theorem ne_escapesRoot {key : Key} {place : Place} (h : placeOf? key = some place)
    (t : FileTree) (text : String) :
    (t.writeText key text).1 ≠ .error (.escapesRoot key) ∧
      (t.removeText key).1 ≠ .error (.escapesRoot key) ∧
      t.readText key ≠ .error (.escapesRoot key) := by
  have hfault : ∀ fault, faultAt key fault ≠ .escapesRoot key := by
    intro fault
    cases fault <;> simp [faultAt]
  rw [writeText_of_place h, removeText_of_place h, readText, h]
  dsimp only
  refine ⟨?_, ?_, ?_⟩
  · intro heq
    rcases hcreate : (t.create place (Text.encode text.toList)).1 with fault | made
    · rw [hcreate] at heq
      cases heq
    · rw [hcreate] at heq
      cases heq
  · intro heq
    rcases hremove : (t.remove place).1 with fault | removed
    · rw [hremove] at heq
      exact hfault fault (Except.error.inj heq)
    · rw [hremove] at heq
      cases heq
  · rcases t.read place with fault | content
    · simpa using hfault fault
    · dsimp only
      split <;> simp

/-- What calls about a key do otherwise: they read and change the file at a path and no other, and
make directories on the way there only. -/
structure Minds (t : FileTree) (key : Key) (path : Path) : Prop where
  write : ∀ text q, q ≠ path → (t.writeText key text).2.files.lookup q = t.files.lookup q
  directories : ∀ text, ∀ d ∈ (t.writeText key text).2.directories,
    d ∈ t.directories ∨ d <+: path ∧ d ≠ path
  remove : ∀ q, q ≠ path → (t.removeText key).2.files.lookup q = t.files.lookup q
  read : ∀ text, t.readText key = .ok text → t.files.lookup path = some (Text.encode text.toList)

theorem minds_of_place {key : Key} {place : Place} (h : placeOf? key = some place)
    (t : FileTree) : t.Minds key place.path where
  write text q hq := by
    rcases t.writeText_cases key text with ⟨place', hplace, -, -, hfiles⟩ | ⟨fault, -, hfiles⟩
    · obtain rfl := Option.some.inj (h.symm.trans hplace)
      rw [hfiles, if_neg hq]
    · rw [hfiles]
  directories text d hd := by
    rw [writeText_of_place h] at hd
    exact mem_directories_create (path_ne_nil h) hd
  remove q hq := by
    rcases t.removeText_cases key with ⟨place', content, hplace, -, -, hremove⟩ | ⟨fault, hremove⟩
    · obtain rfl := Option.some.inj (h.symm.trans hplace)
      rw [hremove, lookup_drop, if_neg hq]
    · rw [hremove]
  read text htext := (find_file (read_eq_ok_iff.mp ((readText_eq_ok_iff h).mp htext))).2

end FileTree

/-- **A key is refused, and nothing touched, exactly if it has no component, starts with a slash or
with the component ".", or has a component "..".  Every other key, joined to a root, has the
components of the root and behind them at least one name, all names, so that its normal form is that
of the root with these names below; and the file there is the only one that is read or changed.** -/
theorem confined (key : Key) :
    (∀ t : FileTree, (Escapes key → t.Refuses key) ∧
      (∀ text, (t.writeText key text).1 = .error (.escapesRoot key) ↔ Escapes key) ∧
      ((t.removeText key).1 = .error (.escapesRoot key) ↔ Escapes key) ∧
      (t.readText key = .error (.escapesRoot key) ↔ Escapes key)) ∧
    (¬ Escapes key → ∃ path : Path, path ≠ [] ∧ (∀ name ∈ path, IsPlainName name) ∧
      (∀ root : List Char,
        components (joined root key.text.toList) = components root ++ path.map .named ∧
        normal (joined root key.text.toList) = (normal root).below path) ∧
      ∀ t : FileTree, t.Minds key path) := by
  rw [← placeOf?_eq_none_iff]
  rcases hplace : placeOf? key with - | place
  · -- the key is refused before the tree is looked at
    refine ⟨fun t => ?_, fun hfine => absurd rfl hfine⟩
    have hrefuses := FileTree.refuses_of_place hplace t
    refine ⟨fun _ => hrefuses, fun text => ⟨fun _ => rfl, fun _ => ?_⟩,
      ⟨fun _ => rfl, fun _ => ?_⟩, ⟨fun _ => rfl, fun _ => hrefuses.read⟩⟩
    · rw [hrefuses.write]
    · rw [hrefuses.remove]
  · -- no fault of the tree is mistaken for an escape
    have hsome : ¬ some place = none := Option.some_ne_none place
    have hopening := opening_eq_nil (not_escapes hplace)
    constructor
    · intro t
      have hne := fun text => FileTree.ne_escapesRoot hplace t text
      exact ⟨fun hnone => absurd hnone hsome, fun text => iff_of_false (hne text).1 hsome,
        iff_of_false (hne "").2.1 hsome, iff_of_false (hne "").2.2 hsome⟩
    · intro _
      refine ⟨place.path, path_ne_nil hplace, fun name => isPlainName_of_mem_path hplace,
        fun root => ⟨?_, normal_joined hplace root⟩, FileTree.minds_of_place hplace⟩
      rw [components_joined hopening, components_of_placeOf? hplace]

/-! ### Fresh keys -/

/-- What a fresh key is made of. -/
structure KeyParts where
  name : AlgorithmName
  version : Version
  role : Role
  token : Token

namespace KeyParts

/-- The key that is made of some parts. -/
def key (p : KeyParts) : Key :=
  Key.fresh p.name p.version p.role p.token

/-- The name of the file that the key leads to. -/
def file (p : KeyParts) : List Char :=
  fileName p.version p.role p.token

theorem placeOf?_key (p : KeyParts) : placeOf? p.key =
    some ⟨[p.name.text.toList, p.file], .plain, Text.byteLength p.key.text.toList,
      extent [p.name.text.toList]⟩ :=
  placeOf?_fresh

theorem ext_of_path {p q : KeyParts}
    (h : [p.name.text.toList, p.file] = [q.name.text.toList, q.file]) : p = q := by
  obtain ⟨hname, hversion, hrole, htoken⟩ := freshPath_inj h
  obtain ⟨name, version, role, token⟩ := p
  subst hname hversion hrole htoken
  rfl

/-- A text can be written under a fresh key, and is read back, where its path is free, if the name
can be that of a directory and is not that of a file. -/
theorem writeText_of_free {t : FileTree} (h : t.Sound) {p : KeyParts}
    (hshort : isTooLong p.name.text.toList = false)
    (hdirectory : t.files.lookup [p.name.text.toList] = none)
    (hfree : t.node? [p.name.text.toList, p.file] = none) (text : String) :
    ∃ t', t.writeText p.key text = (.ok (), t') ∧ t'.readText p.key = .ok text := by
  obtain ⟨hfile, hnot⟩ := FileTree.node?_eq_none_iff.mp hfree
  refine h.writeText_of_clear p.placeOf?_key (h.admits_fresh hshort) ⟨?_, ?_, hnot⟩ text
  · exact FileTree.isTooLong_of_mem_freshPath hshort
  · -- on the way there are the root, the directory of the name, and the file itself
    intro q hq
    rcases List.prefix_cons_iff.mp hq with rfl | ⟨rest, rfl, hrest⟩
    · exact h.lookup_root
    · rcases List.prefix_cons_iff.mp hrest with rfl | ⟨rest', rfl, hnil⟩
      · exact hdirectory
      · rw [List.prefix_nil.mp hnil]
        exact hfile

end KeyParts

/-- **A fresh key tells its four parts, and so does the path it is joined to; it has two components,
the name and a file name that is never too long, and a text can be stored there wherever the name
can be a directory and the path is free.** -/
theorem fresh_unambiguous :
    (∀ p q : KeyParts, p.key = q.key → p = q) ∧
    (∀ (root : List Char) (p q : KeyParts),
      normal (joined root p.key.text.toList) = normal (joined root q.key.text.toList) → p = q) ∧
    ∀ p : KeyParts, placeOf? p.key =
        some ⟨[p.name.text.toList, p.file], .plain, Text.byteLength p.key.text.toList,
          extent [p.name.text.toList]⟩ ∧
      components p.key.text.toList = [.named p.name.text.toList, .named p.file] ∧
      Text.byteLength p.file ≤ nameLimit ∧
      ∀ t : FileTree, t.Sound → isTooLong p.name.text.toList = false →
        t.files.lookup [p.name.text.toList] = none →
        t.node? [p.name.text.toList, p.file] = none → ∀ text,
          ∃ t', t.writeText p.key text = (.ok (), t') ∧ t'.readText p.key = .ok text := by
  refine ⟨fun p q h => ?_, fun root p q h => ?_, fun p => ⟨p.placeOf?_key, ?_, ?_, ?_⟩⟩
  · have hplace := congrArg placeOf? h
    rw [p.placeOf?_key, q.placeOf?_key] at hplace
    exact KeyParts.ext_of_path (congrArg Place.path (Option.some.inj hplace))
  · rw [normal_joined p.placeOf?_key, normal_joined q.placeOf?_key] at h
    exact KeyParts.ext_of_path (List.append_cancel_left (congrArg Normal.names h))
  · exact components_of_placeOf? p.placeOf?_key
  · have hfits : isTooLong p.file = false := isTooLong_fileName
    simpa [isTooLong] using hfits
  · intro t hsound hshort hdirectory hfree
    exact KeyParts.writeText_of_free hsound hshort hdirectory hfree

end ScriptRegistry.Store
