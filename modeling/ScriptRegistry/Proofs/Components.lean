/-
ScriptRegistry/Proofs/Components.lean

Paths as they are written and as they are read.

A path is written as a text and read as components (`components`).  A key is looked at
before it is joined to the storage root, and what is used is the joined text, so that the
check and the use read different texts.  They agree because components are read one after
the other: behind a slash the components of the key follow those of the root
(`components_joined`), and if all of them are names, each goes one step down.  Normal forms
(`normal`) say the same of paths in which ".." takes a step back.

`Escapes` tells the keys that are refused.  For all others `placeOf?` gives the names that
the key goes down by, and the number of bytes that it is written with.

Main results: `placeOf?_eq_none_iff`, `components_of_placeOf?`, `bytes_of_placeOf?` and
`normal_joined`.
-/
import ScriptRegistry.Proofs.Keys

namespace ScriptRegistry

namespace Text

variable {separator : Char}

/-- The first segment is empty if nothing stands before the first separator. -/
theorem head?_segments_eq_nil_iff {cs : List Char} :
    (segments separator cs).head? = some [] ↔ cs = [] ∨ cs.head? = some separator := by
  rcases cs with - | ⟨c, cs⟩
  · simp [segments]
  · rw [segments]
    by_cases hc : c = separator
    · simp [hc]
    · rcases hs : segments separator cs with - | ⟨s, ss⟩
      · exact absurd hs (segments_ne_nil separator cs)
      · simp [hc]

theorem not_mem_of_mem_segments {cs s : List Char} (h : s ∈ segments separator cs) :
    separator ∉ s := by
  induction cs generalizing s with
  | nil => simp_all [segments]
  | cons c cs ih =>
    rw [segments] at h
    by_cases hc : c = separator
    · rw [if_pos hc] at h
      rcases List.mem_cons.mp h with rfl | h
      · simp
      · exact ih h
    · rw [if_neg hc] at h
      rcases hs : segments separator cs with - | ⟨s', ss⟩
      · exact absurd hs (segments_ne_nil separator cs)
      · rw [hs] at h ih
        rcases List.mem_cons.mp h with rfl | h
        · have hrest := ih (List.mem_cons_self)
          simp [hrest, Ne.symm hc]
        · exact ih (List.mem_cons_of_mem _ h)

end Text

namespace Store

open Artifact

/-! ### Components -/

/-- A component of a written path. -/
inductive Component
  | root
  | here
  | up
  | named (name : List Char)
  deriving DecidableEq, Repr

/-- The component that a segment of its own is. -/
def Component.ofSegment (segment : List Char) : Component :=
  if segment = ['.', '.'] then .up else .named segment

/-- The components of a path below where it starts: silent segments say nothing. -/
def steps (text : List Char) : List Component :=
  ((Text.segments '/' text).filter (!isSilent ·)).map Component.ofSegment

/-- Where a path starts, if it says so: with a slash, or with a dot as its first segment. -/
def opening (text : List Char) : List Component :=
  if text.head? = some '/' then [.root]
  else if (Text.segments '/' text).head? = some ['.'] then [.here]
  else []

/-- The components of a path. -/
def components (text : List Char) : List Component :=
  opening text ++ steps text

/-- A key that is refused: it has no component, starts with a slash or with the component ".",
or goes up. -/
def Escapes (key : Key) : Prop :=
  components key.text.toList = [] ∨ key.text.toList.head? = some '/' ∨
    (components key.text.toList).head? = some .here ∨ .up ∈ components key.text.toList

/-- A name that is one step down: it is not empty, not "." or "..", and holds no slash. -/
structure IsPlainName (name : List Char) : Prop where
  ne_nil : name ≠ []
  ne_here : name ≠ ['.']
  ne_up : name ≠ ['.', '.']
  no_slash : '/' ∉ name

theorem isSilent_iff {segment : List Char} : isSilent segment = true ↔
    segment = [] ∨ segment = ['.'] := by
  simp [isSilent]

theorem ofSegment_eq_up_iff {segment : List Char} :
    Component.ofSegment segment = .up ↔ segment = ['.', '.'] := by
  rw [Component.ofSegment]
  split <;> simp_all

theorem up_mem_opening (text : List Char) : .up ∉ opening text := by
  rw [opening]
  split
  · simp
  · split <;> simp

theorem up_mem_components_iff {text : List Char} :
    .up ∈ components text ↔ ['.', '.'] ∈ Text.segments '/' text := by
  rw [components, List.mem_append, steps, List.mem_map]
  constructor
  · rintro (hopening | ⟨segment, hmem, hup⟩)
    · exact absurd hopening (up_mem_opening text)
    · rw [ofSegment_eq_up_iff] at hup
      exact hup ▸ (List.mem_filter.mp hmem).1
  · intro hmem
    exact Or.inr ⟨_, List.mem_filter.mpr ⟨hmem, by decide⟩, by decide⟩

/-- A path whose first segment says something has a component, and does not say where it starts. -/
theorem components_of_loud {text s : List Char} {ss : List (List Char)}
    (hsegments : Text.segments '/' text = s :: ss) (hloud : isSilent s = false) :
    opening text = [] ∧ ∃ rest, components text = Component.ofSegment s :: rest := by
  have hnil : s ≠ [] := by
    rintro rfl
    cases hloud
  have hdot : s ≠ ['.'] := by
    rintro rfl
    cases hloud
  have hhead : (Text.segments '/' text).head? = some s := by rw [hsegments]; rfl
  have hslash : text.head? ≠ some '/' := by
    intro hslash
    have hempty := Text.head?_segments_eq_nil_iff.mpr (Or.inr hslash)
    rw [hhead] at hempty
    exact hnil (Option.some.inj hempty)
  have hopening : opening text = [] := by
    rw [opening, if_neg hslash, hhead, if_neg]
    intro hsome
    exact hdot (Option.some.inj hsome)
  refine ⟨hopening, (ss.filter (!isSilent ·)).map Component.ofSegment, ?_⟩
  rw [components, hopening, steps, hsegments]
  simp [hloud]

/-- A path with a silent first segment says where it starts, or is empty. -/
theorem components_of_silent {text s : List Char} {ss : List (List Char)}
    (hsegments : Text.segments '/' text = s :: ss) (hsilent : isSilent s = true) :
    components text = [] ∨ text.head? = some '/' ∨ (components text).head? = some .here := by
  have hhead : (Text.segments '/' text).head? = some s := by rw [hsegments]; rfl
  rcases isSilent_iff.mp hsilent with rfl | rfl
  · rcases Text.head?_segments_eq_nil_iff.mp hhead with rfl | hslash
    · exact Or.inl rfl
    · exact Or.inr (Or.inl hslash)
  · by_cases hslash : text.head? = some '/'
    · exact Or.inr (Or.inl hslash)
    · refine Or.inr (Or.inr ?_)
      rw [components, opening, if_neg hslash, hhead, if_pos rfl]
      rfl

theorem placeOf?_eq (key : Key) : placeOf? key =
    if (Text.segments '/' key.text.toList).head?.any isSilent ||
        (Text.segments '/' key.text.toList).contains ['.', '.'] then none
    else some ⟨(Text.segments '/' key.text.toList).filter (!isSilent ·),
      endingOf (Text.segments '/' key.text.toList), Text.byteLength key.text.toList,
      extent (parentOf (Text.segments '/' key.text.toList))⟩ := rfl

/-- **The keys that lead nowhere are those that escape.** -/
theorem placeOf?_eq_none_iff {key : Key} : placeOf? key = none ↔ Escapes key := by
  rw [placeOf?_eq, Escapes, up_mem_components_iff]
  rcases hsegments : Text.segments '/' key.text.toList with - | ⟨s, ss⟩
  · exact absurd hsegments (Text.segments_ne_nil _ _)
  by_cases hsilent : isSilent s = true
  · have hstart := components_of_silent hsegments hsilent
    simp only [List.head?_cons, Option.any_some, hsilent, Bool.true_or, if_true, true_iff]
    rcases hstart with h | h | h
    · exact Or.inl h
    · exact Or.inr (Or.inl h)
    · exact Or.inr (Or.inr (Or.inl h))
  · have hloud : isSilent s = false := by simpa using hsilent
    obtain ⟨hopening, rest, hcomponents⟩ := components_of_loud hsegments hloud
    have hslash : key.text.toList.head? ≠ some '/' := by
      intro hslash
      rw [opening, if_pos hslash] at hopening
      cases hopening
    have hhere : Component.ofSegment s ≠ .here := by
      rw [Component.ofSegment]
      split <;> simp
    -- what remains of the four ways to escape is a segment that goes up
    simp only [List.head?_cons, Option.any_some, hloud, List.contains_eq_mem, Bool.false_or,
      decide_eq_true_eq, hcomponents, hslash, Option.some.injEq, hhere, reduceCtorEq, false_or]
    split <;> simp_all

theorem not_escapes {key : Key} {place : Place} (h : placeOf? key = some place) :
    ¬ Escapes key := by
  intro hescapes
  rw [placeOf?_eq_none_iff.mpr hescapes] at h
  cases h

/-- A key that does not escape does not say where it starts. -/
theorem opening_eq_nil {key : Key} (h : ¬ Escapes key) : opening key.text.toList = [] := by
  rcases hsegments : Text.segments '/' key.text.toList with - | ⟨s, ss⟩
  · exact absurd hsegments (Text.segments_ne_nil _ _)
  by_cases hsilent : isSilent s = true
  · rcases components_of_silent hsegments hsilent with hnil | hslash | hhere
    · exact absurd (Or.inl hnil) h
    · exact absurd (Or.inr (Or.inl hslash)) h
    · exact absurd (Or.inr (Or.inr (Or.inl hhere))) h
  · exact (components_of_loud hsegments (by simpa using hsilent)).1

theorem up_not_mem_segments {key : Key} (h : ¬ Escapes key) :
    ['.', '.'] ∉ Text.segments '/' key.text.toList := by
  intro hmem
  exact h (Or.inr (Or.inr (Or.inr (up_mem_components_iff.mpr hmem))))

theorem place_eq {key : Key} {place : Place} (h : placeOf? key = some place) :
    place = ⟨(Text.segments '/' key.text.toList).filter (!isSilent ·),
      endingOf (Text.segments '/' key.text.toList), Text.byteLength key.text.toList,
      extent (parentOf (Text.segments '/' key.text.toList))⟩ := by
  rw [placeOf?_eq] at h
  split at h
  · cases h
  · exact (Option.some.inj h).symm

/-- The names that a key goes down by are its components. -/
theorem components_of_placeOf? {key : Key} {place : Place} (h : placeOf? key = some place) :
    components key.text.toList = place.path.map .named := by
  rw [components, opening_eq_nil (not_escapes h), List.nil_append, steps, place_eq h]
  apply List.map_congr_left
  intro segment hsegment
  rw [Component.ofSegment, if_neg]
  rintro rfl
  exact up_not_mem_segments (not_escapes h) (List.mem_filter.mp hsegment).1

theorem path_ne_nil {key : Key} {place : Place} (h : placeOf? key = some place) :
    place.path ≠ [] := by
  intro hnil
  apply not_escapes h
  left
  rw [components_of_placeOf? h, hnil]
  rfl

theorem isPlainName_of_mem_path {key : Key} {place : Place} (h : placeOf? key = some place)
    {name : List Char} (hname : name ∈ place.path) : IsPlainName name := by
  rw [place_eq h, List.mem_filter] at hname
  obtain ⟨hsegment, hloud⟩ := hname
  refine ⟨?_, ?_, ?_, Text.not_mem_of_mem_segments hsegment⟩
  · rintro rfl
    cases hloud
  · rintro rfl
    cases hloud
  · rintro rfl
    exact up_not_mem_segments (not_escapes h) hsegment

/-! ### Bytes -/

theorem extent_append (a b : List (List Char)) : extent (a ++ b) = extent a + extent b := by
  induction a with
  | nil => exact (Nat.zero_add _).symm
  | cons component a ih => rw [List.cons_append, extent, extent, ih, ← Nat.add_assoc]

/-- The segments of a text have its bytes, and a slash behind the last of them. -/
theorem extent_segments (cs : List Char) :
    extent (Text.segments '/' cs) = Text.byteLength cs + 1 := by
  induction cs with
  | nil => rfl
  | cons c cs ih =>
    have hbytes : Text.byteLength (c :: cs) = Text.byteLength [c] + Text.byteLength cs :=
      Text.byteLength_append [c] cs
    rw [Text.segments]
    split
    · next hc =>
      have hslash : Text.byteLength [c] = 1 := by
        rw [hc]
        rfl
      show Text.byteLength [] + 1 + extent (Text.segments '/' cs) = _
      rw [ih, hbytes, hslash]
      exact (Nat.add_assoc 1 _ 1).symm
    · rcases hs : Text.segments '/' cs with - | ⟨s, ss⟩
      · exact absurd hs (Text.segments_ne_nil _ _)
      · have hfirst : Text.byteLength (c :: s) = Text.byteLength [c] + Text.byteLength s :=
          Text.byteLength_append [c] s
        have hrest : Text.byteLength s + 1 + extent ss = Text.byteLength cs + 1 := by
          rw [← ih, hs]
          rfl
        show Text.byteLength (c :: s) + 1 + extent ss = _
        omega

theorem trimEnd_isPrefix (ss : List (List Char)) : trimEnd ss <+: ss := by
  have hsuffix : ss.reverse.dropWhile isSilent <:+ ss.reverse := List.dropWhile_suffix _
  rwa [← List.reverse_prefix, List.reverse_reverse] at hsuffix

theorem parentOf_isPrefix (ss : List (List Char)) : parentOf ss <+: ss :=
  (trimEnd_isPrefix _).trans ((List.dropLast_prefix _).trans (trimEnd_isPrefix ss))

theorem bytes_of_placeOf? {key : Key} {place : Place} (h : placeOf? key = some place) :
    place.bytes = Text.byteLength key.text.toList := by
  rw [place_eq h]

/-- The directory of a place has no more bytes than the place, up to the slash behind it. -/
theorem parentBytes_le {key : Key} {place : Place} (h : placeOf? key = some place) :
    place.parentBytes ≤ place.bytes + 1 := by
  obtain ⟨rest, hrest⟩ := parentOf_isPrefix (Text.segments '/' key.text.toList)
  rw [place_eq h]
  show extent (parentOf _) ≤ Text.byteLength key.text.toList + 1
  rw [← extent_segments, ← congrArg extent hrest, extent_append]
  exact Nat.le_add_right _ _

/-! ### Joined paths -/

/-- A key joined to a root: a slash is put between them where none is, and a key that starts with
a slash takes the place of the root. -/
def joined (root key : List Char) : List Char :=
  if key.head? = some '/' then key
  else if root = [] ∨ root.getLast? = some '/' then root ++ key
  else root ++ '/' :: key

theorem steps_append_slash (a b : List Char) : steps (a ++ '/' :: b) = steps a ++ steps b := by
  rw [steps, Text.segments_append_separator, List.filter_append, List.map_append]
  rfl

theorem steps_concat_slash (a : List Char) : steps (a ++ ['/']) = steps a := by
  rw [steps_append_slash]
  exact List.append_nil _

/-- How a path starts is not changed by what stands behind a slash in it. -/
theorem opening_append_slash {a : List Char} (ha : a ≠ []) (b : List Char) :
    opening (a ++ '/' :: b) = opening a := by
  have hhead : (a ++ '/' :: b).head? = a.head? := by
    rw [List.head?_append, List.head?_eq_some_head ha]
    rfl
  have hfirst : (Text.segments '/' a ++ Text.segments '/' b).head? =
      (Text.segments '/' a).head? := by
    rw [List.head?_append, List.head?_eq_some_head (Text.segments_ne_nil _ _)]
    rfl
  rw [opening, opening, Text.segments_append_separator, hhead, hfirst]

/-- Slashes in a row are read as one. -/
theorem components_replicate_slash {a : List Char} (ha : a ≠ []) (n : Nat) (b : List Char) :
    components (a ++ '/' :: (List.replicate n '/' ++ b)) = components (a ++ '/' :: b) := by
  have hsteps : steps (List.replicate n '/' ++ b) = steps b := by
    induction n with
    | zero => rfl
    | succ n ih =>
      rw [List.replicate_succ, List.cons_append]
      exact (steps_append_slash [] _).trans ih
  rw [components, components, opening_append_slash ha, opening_append_slash ha,
    steps_append_slash, steps_append_slash, hsteps]

/-- The components of the key follow those of the root. -/
theorem components_joined {key : List Char} (hopening : opening key = []) (root : List Char) :
    components (joined root key) = components root ++ components key := by
  have hslash : key.head? ≠ some '/' := by
    intro hslash
    rw [opening, if_pos hslash] at hopening
    cases hopening
  have hkey : components key = steps key := by rw [components, hopening, List.nil_append]
  rw [joined, if_neg hslash, hkey]
  rcases List.eq_nil_or_concat root with rfl | ⟨front, last, rfl⟩
  · exact hkey
  rw [List.concat_eq_append]
  by_cases hlast : last = '/'
  · subst hlast
    rw [if_pos (by simp)]
    have hjoined : front ++ ['/'] ++ key = front ++ '/' :: key := by simp
    rw [hjoined, components, components, steps_append_slash, steps_concat_slash,
      ← List.append_assoc]
    -- a root that is just a slash is the only one that the slash itself opens
    rcases front with - | ⟨c, front⟩
    · rfl
    · rw [opening_append_slash (by simp), opening_append_slash (by simp)]
  · rw [if_neg (by simp [hlast]), components, components, steps_append_slash,
      opening_append_slash (by simp), List.append_assoc]

/-! ### Normal forms -/

/-- A path without detours: whether it starts at the root of all files, how many steps up it takes
before the first name, and its names. -/
structure Normal where
  absolute : Bool
  ups : Nat
  names : Path
  deriving DecidableEq, Repr

namespace Normal

/-- One component more.  A step up takes the last name back; above the root of all files there is
nothing to go up to. -/
def step (n : Normal) : Component → Normal
  | .root => ⟨true, 0, []⟩
  | .here => n
  | .up =>
    if n.names ≠ [] then { n with names := n.names.dropLast }
    else if n.absolute then n
    else { n with ups := n.ups + 1 }
  | .named name => { n with names := n.names ++ [name] }

/-- The names below a path. -/
def below (n : Normal) (path : Path) : Normal :=
  { n with names := n.names ++ path }

theorem foldl_step_named (n : Normal) (path : Path) :
    (path.map Component.named).foldl step n = n.below path := by
  induction path generalizing n with
  | nil => simp [below]
  | cons name path ih =>
    rw [List.map_cons, List.foldl_cons, ih]
    simp [below, step]

end Normal

/-- The normal form of a path. -/
def normal (text : List Char) : Normal :=
  (components text).foldl Normal.step ⟨false, 0, []⟩

/-- Names behind a root go down from it. -/
theorem normal_joined {key : Key} {place : Place} (h : placeOf? key = some place)
    (root : List Char) :
    normal (joined root key.text.toList) = (normal root).below place.path := by
  have hopening : opening key.text.toList = [] := opening_eq_nil (not_escapes h)
  rw [normal, components_joined hopening, components_of_placeOf? h, List.foldl_append,
    Normal.foldl_step_named]
  rfl

end Store

end ScriptRegistry
