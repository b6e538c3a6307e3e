/-
ScriptRegistry/Proofs/TextMap.lean

Stored texts as a map that is written once.

What calls have done to the texts can be told without files and directories: the last
create or delete that succeeded on some components says what stands there
(`lastText?`).  Different keys with the same components speak of the same text.

`Mirrors` ties a tree to such a history.  It is kept by every call, since a call that
fails leaves all files as they are and one that succeeds changes the file at its own path
(`Mirrors.after`); the directories that a failed create leaves behind are in no file's way
and only decide later creates.  From it follows what every call does next (`RefinesMap`).

Main result: `refinesMap_of_calls`.
-/
import ScriptRegistry.Proofs.Confinement
import ScriptRegistry.Store.Program

namespace ScriptRegistry

namespace Text

variable {separator : Char}

theorem joinSegments_concat {ss : List (List Char)} (h : ss ≠ []) (s : List Char) :
    joinSegments separator (ss ++ [s]) = joinSegments separator ss ++ separator :: s := by
  induction ss with
  | nil => exact absurd rfl h
  | cons first ss ih =>
    rcases ss with - | ⟨second, ss⟩
    · rfl
    · show first ++ separator :: joinSegments separator (second :: ss ++ [s]) =
        first ++ separator :: joinSegments separator (second :: ss) ++ separator :: s
      rw [ih (by simp), List.append_assoc, List.cons_append]

/-- A text ends with its last segment, and with the separator before it if there are more. -/
theorem separator_suffix {cs s : List Char} {ss : List (List Char)}
    (h : segments separator cs = ss ++ [s]) (hne : ss ≠ []) : separator :: s <:+ cs := by
  refine ⟨joinSegments separator ss, ?_⟩
  rw [← joinSegments_concat hne, ← h, joinSegments_segments]

end Text

namespace Store

open Artifact

/-! ### Keys that end in a name -/

/-- A key that does not ask for a directory: it ends neither in a slash nor in a slash and a dot. -/
def EndsInName (key : Key) : Prop :=
  ¬ ['/'] <:+ key.text.toList ∧ ¬ ['/', '.'] <:+ key.text.toList

theorem endsInName_of_concat {key : Key} {cs : List Char} {c : Char}
    (h : key.text.toList = cs ++ [c]) (hslash : c ≠ '/') (hdot : c ≠ '.') : EndsInName key := by
  rw [EndsInName, h]
  constructor
  · rintro ⟨front, heq⟩
    obtain ⟨-, hlast⟩ := List.append_inj' heq rfl
    exact hslash (List.singleton_inj.mp hlast).symm
  · rintro ⟨front, heq⟩
    have hsplit : (front ++ ['/']) ++ ['.'] = cs ++ [c] := by
      rw [List.append_assoc]
      exact heq
    obtain ⟨-, hlast⟩ := List.append_inj' hsplit rfl
    exact hdot (List.singleton_inj.mp hlast).symm

theorem endingOf_eq_plain {ss : List (List Char)} {s : List Char} (h : isSilent s = false) :
    endingOf (ss ++ [s]) = .plain := by
  have hlast : (ss ++ [s]).getLast? = some s := List.getLast?_concat
  rw [endingOf, hlast]
  split
  · next heq _ => rw [Option.some.inj heq] at h; cases h
  · next heq => rw [Option.some.inj heq] at h; cases h
  · next heq _ => rw [Option.some.inj heq] at h; cases h
  · rfl

/-- Such a key leads to a file. -/
theorem ending_eq_plain {key : Key} {place : Place} (h : placeOf? key = some place)
    (hend : EndsInName key) : place.ending = .plain := by
  rw [place_eq h]
  rcases List.eq_nil_or_concat (Text.segments '/' key.text.toList) with hnil | ⟨ss, s, hsegments⟩
  · exact absurd hnil (Text.segments_ne_nil _ _)
  rw [List.concat_eq_append] at hsegments
  rw [hsegments]
  apply endingOf_eq_plain
  rcases hsilent : isSilent s with - | -
  · rfl
  rcases ss with - | ⟨first, ss⟩
  · -- a single silent segment is a key that escapes
    rcases components_of_silent hsegments hsilent with hnone | hslash | hhere
    · exact absurd (Or.inl hnone) (not_escapes h)
    · exact absurd (Or.inr (Or.inl hslash)) (not_escapes h)
    · exact absurd (Or.inr (Or.inr (Or.inl hhere))) (not_escapes h)
  · have hsuffix := Text.separator_suffix hsegments (by simp)
    rcases isSilent_iff.mp hsilent with rfl | rfl
    · exact absurd hsuffix hend.1
    · exact absurd hsuffix hend.2

theorem map_named_inj {p q : Path} : p.map Component.named = q.map Component.named ↔ p = q :=
  List.map_inj_right fun _ _ heq => Component.named.inj heq

/-- A key whose components are names leads down by them. -/
theorem placeOf?_of_components {key : Key} {path : Path}
    (h : components key.text.toList = path.map .named) (hne : path ≠ []) :
    ∃ place, placeOf? key = some place ∧ place.path = path := by
  have hfine : ¬ Escapes key := by
    rintro (hnone | hslash | hhere | hup)
    · rw [h, List.map_eq_nil_iff] at hnone
      exact hne hnone
    · -- a slash in front would be a component of its own
      rcases path with - | ⟨name, path⟩
      · exact hne rfl
      · rw [components, opening, if_pos hslash] at h
        cases h
    · rcases path with - | ⟨name, path⟩
      · exact hne rfl
      · rw [h] at hhere
        cases hhere
    · rw [h] at hup
      simp at hup
  rcases hplace : placeOf? key with - | place
  · exact absurd (placeOf?_eq_none_iff.mp hplace) hfine
  · have hsame := components_of_placeOf? hplace
    rw [h] at hsame
    exact ⟨place, rfl, (map_named_inj.mp hsame).symm⟩

/-- A key that is not too long: with a number of bytes in front of it, it stays below the limit for
paths. -/
def FitsBelow (lead : Nat) (key : Key) : Prop :=
  lead + Text.byteLength key.text.toList < pathLimit

/-- A file can be at the place of a key that ends in a name, unless it holds NUL or is too long. -/
theorem FileTree.admits_iff {t : FileTree} {key : Key} {place : Place}
    (h : placeOf? key = some place) (hend : EndsInName key) :
    t.Admits place ↔ hasNul place.path = false ∧ FitsBelow t.lead key := by
  have hroom : t.isOverlong place.bytes = false ↔ FitsBelow t.lead key := by
    rw [isOverlong, bytes_of_placeOf? h, decide_eq_false_iff_not, FitsBelow, Nat.not_le]
  constructor
  · rintro ⟨hnul, -, hlength⟩
    exact ⟨hnul, hroom.mp hlength⟩
  · rintro ⟨hnul, hfits⟩
    exact ⟨hnul, ending_eq_plain h hend, hroom.mpr hfits⟩

/-- Under a key that is too long nothing is read or removed, whatever is there. -/
theorem FileTree.refused_of_overlong {t : FileTree} {key : Key} {place : Place}
    (h : placeOf? key = some place) (hnul : hasNul place.path = false)
    (hlong : ¬ FitsBelow t.lead key) :
    t.readText key = .error (.file .nameTooLong) ∧
      t.removeText key = (.error (.file .nameTooLong), t) := by
  have hroom : t.isOverlong place.bytes = true := by
    rw [isOverlong, bytes_of_placeOf? h, decide_eq_true_eq]
    exact Nat.not_lt.mp hlong
  have hfind : t.find place = .error .nameTooLong := by
    simp only [find, hnul, hroom, Bool.false_eq_true, if_false, if_true]
  constructor
  · rw [readText, h]
    simp only [read, hfind, faultAt]
  · rw [removeText, h]
    simp only [remove, hfind]
    rfl

/-! ### Calls and what they leave -/

/-- The tree after a call. -/
def FileTree.after (t : FileTree) : Call → FileTree
  | .writeText key text => (t.writeText key text).2
  | .removeText key => (t.removeText key).2
  | .readText _ => t
  | .latest _ => t
  | .find _ _ => t
  | .enroll _ _ => t
  | .remove _ _ => t
  | .newest => t
  | .drawToken => t
  | .readClock => t

/-- What a create or a delete that succeeds leaves at the components of its key: the text that was
stored, or no text. -/
def Call.outcome? (t : FileTree) : Call → Option (List Component × Option String)
  | .writeText key text => match (t.writeText key text).1 with
    | .ok () => some (components key.text.toList, some text)
    | .error _ => none
  | .removeText key => match (t.removeText key).1 with
    | .ok () => some (components key.text.toList, none)
    | .error _ => none
  | .readText _ => none
  | .latest _ => none
  | .find _ _ => none
  | .enroll _ _ => none
  | .remove _ _ => none
  | .newest => none
  | .drawToken => none
  | .readClock => none

/-- The successful creates and deletes among some calls, with what they leave. -/
def outcomes : FileTree → List Call → List (List Component × Option String)
  | _, [] => []
  | t, call :: calls => (call.outcome? t).toList ++ outcomes (t.after call) calls

/-- The text that the last of some outcomes on the given components has left. -/
def textLeft (log : List (List Component × Option String)) (cs : List Component) : Option String :=
  (log.reverse.lookup cs).join

/-- The text of the last successful create or delete on the given components among some calls below
a fresh root: none if it was a delete, or if there was none. -/
def lastText? (lead : Nat) (calls : List Call) : List Component → Option String :=
  textLeft (outcomes (.empty lead) calls)

theorem textLeft_concat (log : List (List Component × Option String)) (cs cs' : List Component)
    (text : Option String) :
    textLeft (log ++ [(cs', text)]) cs = if cs = cs' then text else textLeft log cs := by
  rw [textLeft, List.reverse_append, List.reverse_singleton, List.singleton_append, lookup_cons_eq]
  by_cases h : cs = cs' <;> simp [h, textLeft]

/-- What stands in the way of a new file: a text at its path, above it or below it, or a directory
at its path. -/
def Blocked (t : FileTree) (texts : List Component → Option String) (path : Path) : Prop :=
  (∃ q, (q <+: path ∨ path <+: q) ∧ texts (q.map .named) ≠ none) ∨ path ∈ t.directories

/-- A tree below a root does what a map from components to texts says, as long as keys fit. -/
structure RefinesMap (lead : Nat) (t : FileTree) (texts : List Component → Option String) :
    Prop where
  /-- The files are those of the texts, with their bytes. -/
  files : ∀ path, t.files.lookup path =
    (texts (path.map .named)).map fun text => Text.encode text.toList
  /-- No file is there twice. -/
  once : (t.files.map (·.1)).Nodup
  /-- What is read under a key that fits is the text at its components. -/
  read_iff : ∀ key, EndsInName key → ∀ text, t.readText key = .ok text ↔
    FitsBelow lead key ∧ texts (components key.text.toList) = some text
  /-- A text can be stored exactly if its key fits and is made of names that can be those of files,
  and nothing stands in the way. -/
  write_ok_iff : ∀ key, EndsInName key → ∀ text, (t.writeText key text).1 = .ok () ↔
    FitsBelow lead key ∧ ∃ path : Path, path ≠ [] ∧
      components key.text.toList = path.map .named ∧ hasNul path = false ∧
        (∀ name ∈ path, isTooLong name = false) ∧ ¬ Blocked t texts path
  /-- A text that is stored is the only one that changes. -/
  write_ok : ∀ key text, (t.writeText key text).1 = .ok () →
    ∀ path, (t.writeText key text).2.files.lookup path =
      if path.map .named = components key.text.toList then some (Text.encode text.toList)
      else t.files.lookup path
  /-- A text that is not stored leaves all files as they are. -/
  write_error : ∀ key text fault, (t.writeText key text).1 = .error fault →
    (t.writeText key text).2.files = t.files
  /-- A text can be removed exactly if its key fits and there is one. -/
  remove_ok_iff : ∀ key, EndsInName key → ((t.removeText key).1 = .ok () ↔
    FitsBelow lead key ∧ texts (components key.text.toList) ≠ none)
  /-- A text that is removed is the only one that changes. -/
  remove_ok : ∀ key, (t.removeText key).1 = .ok () →
    ∀ path, (t.removeText key).2.files.lookup path =
      if path.map .named = components key.text.toList then none else t.files.lookup path
  /-- A text that is not removed leaves all files as they are. -/
  remove_error : ∀ key fault, (t.removeText key).1 = .error fault →
    (t.removeText key).2.files = t.files

/-! ### Trees and histories -/

/-- A tree holds just the texts that a history has left, under the components of keys that could be
written. -/
structure Mirrors (lead : Nat) (t : FileTree) (log : List (List Component × Option String)) :
    Prop where
  shaped : t.Shaped
  lead_eq : t.lead = lead
  clean : ∀ path content, t.files.lookup path = some content → hasNul path = false
  files : ∀ path, t.files.lookup path =
    (textLeft log (path.map .named)).map fun text => Text.encode text.toList
  placed : ∀ e ∈ log, ∃ path : Path, path ≠ [] ∧ e.1 = path.map .named

theorem mirrors_empty (lead : Nat) : Mirrors lead (.empty lead) [] where
  shaped := FileTree.shaped_empty lead
  lead_eq := rfl
  clean path content h := by cases h
  files path := rfl
  placed e he := by cases he

namespace Mirrors

variable {lead : Nat} {t : FileTree} {log : List (List Component × Option String)}

/-- A tree with the same files below the same root mirrors the same history. -/
theorem of_files (h : Mirrors lead t log) {t' : FileTree} (hshaped : t'.Shaped)
    (hlead : t'.lead = t.lead) (hfiles : t'.files = t.files) :
    Mirrors lead t' log where
  shaped := hshaped
  lead_eq := hlead.trans h.lead_eq
  clean := by rw [hfiles]; exact h.clean
  files := by rw [hfiles]; exact h.files
  placed := h.placed

/-- One more outcome, and the file at its path set or taken away. -/
theorem concat (h : Mirrors lead t log) {t' : FileTree} {path : Path} {text : Option String}
    (hne : path ≠ []) (hnul : hasNul path = false) (hshaped : t'.Shaped)
    (hlead : t'.lead = t.lead) (hfiles : ∀ q, t'.files.lookup q =
      if q = path then text.map fun text => Text.encode text.toList else t.files.lookup q) :
    Mirrors lead t' (log ++ [(path.map .named, text)]) where
  shaped := hshaped
  lead_eq := hlead.trans h.lead_eq
  clean q content hq := by
    rw [hfiles] at hq
    split at hq
    · next hpath => rw [hpath]; exact hnul
    · exact h.clean q content hq
  files q := by
    rw [hfiles, textLeft_concat, h.files]
    by_cases hpath : q = path
    · simp [hpath]
    · rw [if_neg hpath, if_neg fun hsame => hpath (map_named_inj.mp hsame)]
  placed e he := by
    rcases List.mem_append.mp he with he | he
    · exact h.placed e he
    · rw [List.mem_singleton.mp he]
      exact ⟨path, hne, rfl⟩

theorem writeText (h : Mirrors lead t log) (key : Key) (text : String) :
    Mirrors lead (t.after (.writeText key text))
      (log ++ ((Call.writeText key text).outcome? t).toList) := by
  have hshaped : (t.after (.writeText key text)).Shaped := h.shaped.writeText key text
  have hlead : (t.after (.writeText key text)).lead = t.lead :=
    t.lead_writeText key text
  rcases t.writeText_cases key text with
    ⟨place, hplace, hadmits, hok, hfiles⟩ | ⟨fault, herror, hfiles⟩
  · have houtcome : (Call.writeText key text).outcome? t
        = some (place.path.map .named, some text) := by
      simp only [Call.outcome?, hok, components_of_placeOf? hplace]
    rw [houtcome]
    exact h.concat (path_ne_nil hplace) hadmits.noNul hshaped hlead hfiles
  · have houtcome : (Call.writeText key text).outcome? t = none := by
      simp only [Call.outcome?, herror]
    rw [houtcome, Option.toList_none, List.append_nil]
    exact h.of_files hshaped hlead hfiles

theorem removeText (h : Mirrors lead t log) (key : Key) :
    Mirrors lead (t.after (.removeText key))
      (log ++ ((Call.removeText key).outcome? t).toList) := by
  show Mirrors lead (t.removeText key).2 _
  rcases t.removeText_cases key with
    ⟨place, content, hplace, hadmits, -, hremove⟩ | ⟨fault, hremove⟩
  · have houtcome : (Call.removeText key).outcome? t = some (place.path.map .named, none) := by
      simp only [Call.outcome?, hremove, components_of_placeOf? hplace]
    rw [houtcome, hremove]
    exact h.concat (path_ne_nil hplace) hadmits.noNul (h.shaped.drop place.path) rfl
      (FileTree.lookup_drop t place.path)
  · have houtcome : (Call.removeText key).outcome? t = none := by
      simp only [Call.outcome?, hremove]
    rw [houtcome, Option.toList_none, List.append_nil, hremove]
    exact h

/-- **Every call keeps a tree in step with its history.** -/
theorem after (h : Mirrors lead t log) (call : Call) :
    Mirrors lead (t.after call) (log ++ (call.outcome? t).toList) := by
  cases call with
  | writeText key text => exact h.writeText key text
  | removeText key => exact h.removeText key
  | readText | latest | find | enroll | remove | newest | drawToken | readClock =>
    rw [Call.outcome?, Option.toList_none, List.append_nil]
    exact h

theorem foldl_after (h : Mirrors lead t log) (calls : List Call) :
    Mirrors lead (calls.foldl FileTree.after t) (log ++ outcomes t calls) := by
  induction calls generalizing t log with
  | nil => rwa [outcomes, List.append_nil]
  | cons call calls ih =>
    rw [outcomes, ← List.append_assoc]
    exact ih (h.after call)

/-! ### What a tree does next -/

/-- Only components of names have texts. -/
theorem path_of_textLeft (h : Mirrors lead t log) {cs : List Component}
    (htext : textLeft log cs ≠ none) :
    ∃ path : Path, path ≠ [] ∧ cs = path.map .named := by
  rcases hfound : log.reverse.lookup cs with - | text
  · rw [textLeft, hfound] at htext
    exact absurd rfl htext
  · obtain ⟨path, hne, hcs⟩ := h.placed _ (List.mem_reverse.mp (mem_of_lookup hfound))
    exact ⟨path, hne, hcs⟩

theorem lookup_eq_some_iff (h : Mirrors lead t log) {path : Path} {text : String} :
    t.files.lookup path = some (Text.encode text.toList) ↔
      textLeft log (path.map .named) = some text := by
  rw [h.files, Option.map_eq_some_iff]
  constructor
  · rintro ⟨text', htext, hsame⟩
    rw [Text.encode_inj, String.toList_inj] at hsame
    rw [htext, hsame]
  · intro htext
    exact ⟨text, htext, rfl⟩

theorem lookup_eq_none_iff (h : Mirrors lead t log) {path : Path} :
    t.files.lookup path = none ↔ textLeft log (path.map .named) = none := by
  rw [h.files, Option.map_eq_none_iff]

/-- A text that is there has a key that leads to it. -/
theorem exists_place (h : Mirrors lead t log) {key : Key}
    (htext : textLeft log (components key.text.toList) ≠ none) :
    ∃ place, placeOf? key = some place := by
  obtain ⟨path, hne, hcs⟩ := h.path_of_textLeft htext
  obtain ⟨place, hplace, -⟩ := placeOf?_of_components hcs hne
  exact ⟨place, hplace⟩

/-- A file that is there can be at its place, if the key fits. -/
theorem admits_of_file (h : Mirrors lead t log) {key : Key} {place : Place}
    (hplace : placeOf? key = some place) (hend : EndsInName key)
    (hfits : FitsBelow lead key) {content : List UInt8}
    (hfile : t.files.lookup place.path = some content) : t.Admits place := by
  rw [FileTree.admits_iff hplace hend, h.lead_eq]
  exact ⟨h.clean _ _ hfile, hfits⟩

theorem read_iff (h : Mirrors lead t log) {key : Key} (hend : EndsInName key)
    {text : String} : t.readText key = .ok text ↔
      FitsBelow lead key ∧ textLeft log (components key.text.toList) = some text := by
  rcases hplace : placeOf? key with - | place
  · rw [(FileTree.refuses_of_place hplace t).read]
    refine ⟨fun hok => (by cases hok), fun ⟨_, htext⟩ => ?_⟩
    -- components that have a text are names, and a key of names is not refused
    obtain ⟨place, hsome⟩ := h.exists_place (by rw [htext]; exact Option.some_ne_none _)
    rw [hplace] at hsome
    cases hsome
  · rw [FileTree.readText_eq_ok_iff hplace, components_of_placeOf? hplace,
      ← h.lookup_eq_some_iff, h.shaped.read_iff]
    constructor
    · rintro ⟨hadmits, hfile⟩
      rw [FileTree.admits_iff hplace hend, h.lead_eq] at hadmits
      exact ⟨hadmits.2, hfile⟩
    · rintro ⟨hfits, hfile⟩
      exact ⟨h.admits_of_file hplace hend hfits hfile, hfile⟩

theorem remove_ok_iff (h : Mirrors lead t log) {key : Key} (hend : EndsInName key) :
    (t.removeText key).1 = .ok () ↔
      FitsBelow lead key ∧ textLeft log (components key.text.toList) ≠ none := by
  constructor
  · intro hok
    rcases t.removeText_cases key with
      ⟨place, content, hplace, hadmits, hfile, -⟩ | ⟨fault, hremove⟩
    · rw [FileTree.admits_iff hplace hend, h.lead_eq] at hadmits
      rw [components_of_placeOf? hplace, ne_eq, ← h.lookup_eq_none_iff, hfile]
      exact ⟨hadmits.2, Option.some_ne_none content⟩
    · rw [hremove] at hok
      cases hok
  · rintro ⟨hfits, htext⟩
    obtain ⟨place, hplace⟩ := h.exists_place htext
    rw [components_of_placeOf? hplace, ne_eq, ← h.lookup_eq_none_iff, ← ne_eq,
      Option.ne_none_iff_exists'] at htext
    obtain ⟨content, hfile⟩ := htext
    have hadmits := h.admits_of_file hplace hend hfits hfile
    rw [FileTree.removeText_of_place hplace, h.shaped.remove_of_file hadmits hfile]
    rfl

/-- Nothing is in the way of a file exactly if nothing blocks its path. -/
theorem clear_iff (h : Mirrors lead t log) {path : Path} :
    t.Clear path ↔
      (∀ name ∈ path, isTooLong name = false) ∧ ¬ Blocked t (textLeft log) path := by
  constructor
  · rintro ⟨hfits, hway, hfree⟩
    refine ⟨hfits, ?_⟩
    rintro (⟨q, hq | hq, htext⟩ | hdir)
    · exact htext (h.lookup_eq_none_iff.mp (hway q hq))
    · rw [ne_eq, ← h.lookup_eq_none_iff, ← ne_eq, Option.ne_none_iff_exists'] at htext
      obtain ⟨content, hfile⟩ := htext
      -- above a file there are directories, and at the path there is none
      by_cases hsame : path = q
      · rw [← hsame, hway path List.prefix_rfl] at hfile
        cases hfile
      · exact hfree ((h.shaped.below _ (mem_of_lookup hfile)).2 path hq hsame)
    · exact hfree hdir
  · rintro ⟨hfits, hblocked⟩
    refine ⟨hfits, fun q hq => ?_, fun hdir => hblocked (Or.inr hdir)⟩
    rw [h.lookup_eq_none_iff]
    rcases htext : textLeft log (q.map .named) with - | text
    · rfl
    · refine absurd (Or.inl ⟨q, Or.inl hq, ?_⟩) hblocked
      rw [htext]
      exact Option.some_ne_none text

theorem write_ok_iff (h : Mirrors lead t log) {key : Key} (hend : EndsInName key)
    (text : String) : (t.writeText key text).1 = .ok () ↔
      FitsBelow lead key ∧ ∃ path : Path, path ≠ [] ∧
        components key.text.toList = path.map .named ∧ hasNul path = false ∧
          (∀ name ∈ path, isTooLong name = false) ∧ ¬ Blocked t (textLeft log) path := by
  constructor
  · intro hok
    rcases t.writeText_cases key text with ⟨place, hplace, -, -, -⟩ | ⟨fault, herror, -⟩
    · obtain ⟨hadmits, hclear⟩ := (h.shaped.writeText_ok_iff hplace text).mp hok
      rw [FileTree.admits_iff hplace hend, h.lead_eq] at hadmits
      exact ⟨hadmits.2, place.path, path_ne_nil hplace, components_of_placeOf? hplace,
        hadmits.1, h.clear_iff.mp hclear⟩
    · rw [herror] at hok
      cases hok
  · rintro ⟨hfits, path, hne, hcs, hnul, hclear⟩
    obtain ⟨place, hplace, rfl⟩ := placeOf?_of_components hcs hne
    refine (h.shaped.writeText_ok_iff hplace text).mpr ⟨?_, h.clear_iff.mpr hclear⟩
    rw [FileTree.admits_iff hplace hend, h.lead_eq]
    exact ⟨hnul, hfits⟩

/-- **A tree that mirrors a history does what the texts left by it say.** -/
theorem refinesMap (h : Mirrors lead t log) : RefinesMap lead t (textLeft log) where
  files := h.files
  once := h.shaped.distinct
  read_iff _ hend _ := h.read_iff hend
  write_ok_iff _ hend text := h.write_ok_iff hend text
  write_ok key text hok path := by
    rcases t.writeText_cases key text with ⟨place, hplace, -, -, hfiles⟩ | ⟨fault, herror, -⟩
    · simp only [hfiles, components_of_placeOf? hplace, map_named_inj]
    · rw [herror] at hok
      cases hok
  write_error key text fault herror := by
    rcases t.writeText_cases key text with ⟨place, -, -, hok, -⟩ | ⟨-, -, hfiles⟩
    · rw [hok] at herror
      cases herror
    · exact hfiles
  remove_ok_iff _ hend := h.remove_ok_iff hend
  remove_ok key hok path := by
    rcases t.removeText_cases key with ⟨place, content, hplace, -, -, hremove⟩ | ⟨fault, hremove⟩
    · simp only [hremove, FileTree.lookup_drop, components_of_placeOf? hplace, map_named_inj]
    · rw [hremove] at hok
      cases hok
  remove_error key fault herror := by
    rcases t.removeText_cases key with ⟨place, content, -, -, -, hremove⟩ | ⟨_, hremove⟩
    · rw [hremove] at herror
      cases herror
    · rw [hremove]

end Mirrors

/-- **Whatever calls were made since the root was fresh, the files below it do what the last
successful create or delete on each components says, under every key whose path is not too long;
under a longer one every call fails.** -/
theorem refinesMap_of_calls (lead : Nat) (calls : List Call) :
    RefinesMap lead (calls.foldl FileTree.after (.empty lead))
      (lastText? lead calls) := by
  have hmirrors : Mirrors lead (calls.foldl FileTree.after (.empty lead))
      ([] ++ outcomes (.empty lead) calls) := (mirrors_empty lead).foldl_after calls
  exact hmirrors.refinesMap

-- The keys "a/b" and "a//./b" speak of one text, and the first text stays.
example : lastText? 0 [.writeText ⟨"a/b"⟩ "x", .writeText ⟨"a//./b"⟩ "y"]
    [.named ['a'], .named ['b']] = some "x" := by decide

/-- The key "a/b" with more slashes behind the one that it needs. -/
def stretched (n : Nat) : Key :=
  ⟨String.ofList (['a'] ++ '/' :: (List.replicate n '/' ++ ['b']))⟩

theorem toList_stretched (n : Nat) :
    (stretched n).text.toList = ['a'] ++ '/' :: (List.replicate n '/' ++ ['b']) :=
  String.toList_ofList

theorem components_stretched (n : Nat) :
    components (stretched n).text.toList = ([['a'], ['b']] : Path).map .named := by
  rw [toList_stretched, components_replicate_slash (by simp)]
  decide

theorem endsInName_stretched (n : Nat) : EndsInName (stretched n) := by
  have hlast : (stretched n).text.toList = (['a'] ++ '/' :: List.replicate n '/') ++ ['b'] := by
    rw [toList_stretched]
    simp
  exact endsInName_of_concat hlast (by decide) (by decide)

theorem byteLength_stretched (n : Nat) : Text.byteLength (stretched n).text.toList = n + 3 := by
  rw [toList_stretched, Text.byteLength_of_ascii]
  · simp
  · intro c hc
    simp only [List.mem_append, List.mem_cons, List.mem_replicate, List.not_mem_nil, or_false] at hc
    rcases hc with rfl | rfl | ⟨-, rfl⟩ | rfl <;> decide

/-- What was stored under "a/b" is neither read nor removed under a key with the same components
that is too long. -/
theorem stretched_refused :
    let t := [Call.writeText ⟨"a/b"⟩ "x"].foldl FileTree.after (.empty 0)
    let key := stretched 4999
    EndsInName key ∧
      lastText? 0 [.writeText ⟨"a/b"⟩ "x"] (components key.text.toList) = some "x" ∧
      t.readText key = .error (.file .nameTooLong) ∧
      t.removeText key = (.error (.file .nameTooLong), t) := by
  intro t key
  obtain ⟨place, hplace, hpath⟩ := placeOf?_of_components (components_stretched 4999) (by simp)
  have hnul : hasNul place.path = false := by
    rw [hpath]
    decide
  have hlong : ¬ FitsBelow t.lead key := by
    rw [FitsBelow, byteLength_stretched]
    decide
  refine ⟨endsInName_stretched 4999, ?_, FileTree.refused_of_overlong hplace hnul hlong⟩
  rw [components_stretched]
  decide

end Store

end ScriptRegistry
