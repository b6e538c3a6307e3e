/-
ScriptRegistry/Proofs/Keys.lean

Where the keys of new texts lead.

A fresh key has two components: the name of the algorithm and a file name made
of the role, the version and the token.  Both consist of characters that no part
of a path gives a meaning, so that the key leads to the file of that name in the
directory of the algorithm, and nothing of the four parts is lost on the way:
the role shows in the first character, the version stands before the hyphen, the
token after it.

Main results: `placeOf?_fresh`, `fileName_inj` and `isTooLong_fileName`.
-/
import ScriptRegistry.Proofs.Utf8
import ScriptRegistry.Store.Artifacts

namespace ScriptRegistry

namespace Text

/-! ### Segments -/

variable {separator : Char}

theorem segments_of_not_mem {cs : List Char} (h : separator ∉ cs) :
    segments separator cs = [cs] := by
  induction cs with
  | nil => rfl
  | cons c cs ih =>
    have hc : c ≠ separator := fun hc => h (by simp [hc])
    rw [segments, if_neg hc, ih fun hcs => h (List.mem_cons_of_mem _ hcs)]

/-- Segments are cut in front of a separator and behind it. -/
theorem segments_append_separator (a b : List Char) :
    segments separator (a ++ separator :: b) = segments separator a ++ segments separator b := by
  induction a with
  | nil => simp [segments]
  | cons c a ih =>
    rw [List.cons_append, segments, segments]
    by_cases hc : c = separator
    · simp [hc, ih]
    · rw [if_neg hc, if_neg hc, ih]
      rcases hs : segments separator a with - | ⟨s, ss⟩
      · exact absurd hs (segments_ne_nil separator a)
      · rfl

/-- A text without separator before the first one is the first segment. -/
theorem segments_append {cs : List Char} (h : separator ∉ cs) (rest : List Char) :
    segments separator (cs ++ separator :: rest) = cs :: segments separator rest := by
  rw [segments_append_separator, segments_of_not_mem h, List.singleton_append]

/-- Two texts that agree up to their first separator agree before it and behind it. -/
theorem append_separator_inj {a b a' b' : List Char} (ha : separator ∉ a) (ha' : separator ∉ a')
    (h : a ++ separator :: b = a' ++ separator :: b') : a = a' ∧ b = b' := by
  have hseg := congrArg (segments separator) h
  rw [segments_append ha, segments_append ha'] at hseg
  obtain ⟨rfl, -⟩ := List.cons.inj hseg
  exact ⟨rfl, (List.cons.inj (List.append_cancel_left h)).2⟩

end Text

/-! ### The characters of names, versions and tokens -/

/-- Whether a character may stand in a key, apart from the slash. -/
def isKeyChar (c : Char) : Bool :=
  isSlugChar c || c == '_' || c == '.'

theorem ne_slash_of_isKeyChar {c : Char} (h : isKeyChar c = true) : c ≠ '/' := by
  rintro rfl
  revert h
  decide

theorem ne_nul_of_isKeyChar {c : Char} (h : isKeyChar c = true) : c ≠ '\x00' := by
  rintro rfl
  revert h
  decide

theorem toNat_lt_of_isKeyChar {c : Char} (h : isKeyChar c = true) : c.toNat < 128 := by
  simp only [isKeyChar, isSlugChar, Bool.or_eq_true, Bool.and_eq_true, decide_eq_true_eq,
    beq_iff_eq, Char.le_def, UInt32.le_iff_toNat_le] at h
  rcases h with (((⟨-, h⟩ | ⟨-, h⟩) | rfl) | rfl) | rfl
  · exact Nat.lt_of_le_of_lt h (by decide)
  · exact Nat.lt_of_le_of_lt h (by decide)
  · decide
  · decide
  · decide

namespace AlgorithmName

theorem text_ne_nil (n : AlgorithmName) : n.text.toList ≠ [] := by
  have h := n.slug
  rw [isSlug, Bool.and_eq_true] at h
  intro hnil
  rw [hnil] at h
  exact absurd h.1 (by decide)

theorem isSlugChar_of_mem (n : AlgorithmName) {c : Char} (hc : c ∈ n.text.toList) :
    isSlugChar c = true := by
  have h := n.slug
  rw [isSlug, Bool.and_eq_true] at h
  exact List.all_eq_true.mp h.2 c hc

end AlgorithmName

namespace Version

theorem toList_render (v : Version) : v.render.toList = Nat.toDigits 10 v.number := by
  rw [render, Nat.toString_eq_repr, Nat.toList_repr]

theorem isDigit_of_mem_render (v : Version) {c : Char} (hc : c ∈ v.render.toList) :
    c.isDigit = true := by
  rw [toList_render] at hc
  exact Nat.isDigit_of_mem_toDigits (by decide) (by decide) hc

theorem length_render_le (v : Version) : v.render.toList.length ≤ 10 := by
  rw [toList_render]
  have hbound : v.number < 10 ^ 10 := Nat.lt_trans v.bounded (by decide)
  exact (Nat.length_toDigits_le_iff (by decide) (by decide)).mpr hbound

theorem render_inj {v w : Version} (h : v.render.toList = w.render.toList) : v = w := by
  rw [toList_render, toList_render] at h
  have hnum := congrArg (Nat.ofDigitChars 10 · 0) h
  simp only [Nat.ofDigitChars_ten_toDigits] at hnum
  obtain ⟨m, _, _⟩ := v
  obtain ⟨n, _, _⟩ := w
  obtain rfl : m = n := hnum
  rfl

end Version

theorem isSlugChar_of_isDigit {c : Char} (h : c.isDigit = true) : isSlugChar c = true := by
  have hc : ('0' ≤ c && c ≤ '9') = true := h
  rw [isSlugChar, hc]
  simp

namespace Artifact

theorem isSlugChar_of_isTokenChar {c : Char} (h : isTokenChar c = true) : isSlugChar c = true := by
  rw [isTokenChar, Bool.or_eq_true] at h
  rw [isSlugChar]
  rcases h with h | h
  · simp [h]
  · simp only [Bool.and_eq_true, decide_eq_true_eq] at h
    have hz : c ≤ 'z' := Char.le_trans h.2 (by decide)
    simp [h.1, hz]

/-! ### File names -/

/-- The last component of a fresh key. -/
def fileName (version : Version) (role : Role) (token : Token) : List Char :=
  role.mark.toList ++ version.render.toList ++ '-' :: token.digits ++ ['.', 'p', 'y']

variable {version : Version} {role : Role} {token : Token}

theorem isKeyChar_of_mem_fileName {c : Char} (hc : c ∈ fileName version role token) :
    isKeyChar c = true := by
  have hslug : isSlugChar c = true → isKeyChar c = true := fun h => by simp [isKeyChar, h]
  simp only [fileName, List.mem_append, List.mem_cons] at hc
  rcases hc with ((hc | hc) | rfl | hc) | hc
  · cases role
    · have hall : ∀ d ∈ Role.main.mark.toList, isKeyChar d = true := List.all_eq_true.mp rfl
      exact hall c hc
    · have hall : ∀ d ∈ Role.privacy.mark.toList, isKeyChar d = true := List.all_eq_true.mp rfl
      exact hall c hc
  · exact hslug (isSlugChar_of_isDigit (version.isDigit_of_mem_render hc))
  · decide
  · exact hslug (isSlugChar_of_isTokenChar (List.all_eq_true.mp token.hex c hc))
  · have hall : ∀ d ∈ ['.', 'p', 'y'], isKeyChar d = true := List.all_eq_true.mp rfl
    exact hall c (by simpa using hc)

theorem length_fileName_le : (fileName version role token).length ≤ 55 := by
  have hmark : role.mark.toList.length ≤ 9 := by cases role <;> decide
  have hversion := version.length_render_le
  have htoken := token.length_digits
  simp only [fileName, List.length_append, List.length_cons, List.length_nil]
  omega

/-- The file name tells role, version and token. -/
theorem fileName_inj {version' : Version} {role' : Role} {token' : Token}
    (h : fileName version role token = fileName version' role' token') :
    version = version' ∧ role = role' ∧ token = token' := by
  have hhead : role = role' := by
    have hfirst := congrArg List.head? h
    cases role <;> cases role' <;> first | rfl | simp [fileName, Role.mark] at hfirst
  subst hhead
  simp only [fileName, List.append_assoc, List.append_cancel_left_eq, List.cons_append] at h
  -- the first dash is the one behind the version, which has digits only
  have hdash : ∀ v : Version, '-' ∉ v.render.toList :=
    fun v hmem => absurd (v.isDigit_of_mem_render hmem) (by decide)
  obtain ⟨hversion, htail⟩ := Text.append_separator_inj (hdash _) (hdash _) h
  refine ⟨Version.render_inj hversion, rfl, ?_⟩
  obtain ⟨ds, _, _⟩ := token
  obtain ⟨ds', _, _⟩ := token'
  obtain rfl : ds = ds' := List.append_cancel_right htail
  rfl

theorem text_fresh (name : AlgorithmName) (version : Version) (role : Role) (token : Token) :
    (Key.fresh name version role token).text.toList
      = name.text.toList ++ '/' :: fileName version role token := by
  simp only [Key.fresh, fileName, String.toList_append, String.toList_ofList, List.append_assoc]
  rfl

end Artifact

namespace Store

open Artifact

/-! ### Places -/

/-- The path of a new text. -/
def freshPath (name : AlgorithmName) (version : Version) (role : Role) (token : Token) : Path :=
  [name.text.toList, fileName version role token]

/-- The place of a new text. -/
def freshPlace (name : AlgorithmName) (version : Version) (role : Role) (token : Token) : Place :=
  ⟨freshPath name version role token, .plain,
    Text.byteLength (Key.fresh name version role token).text.toList, extent [name.text.toList]⟩

variable {name : AlgorithmName} {version : Version} {role : Role} {token : Token}

theorem byteLength_of_isKeyChar {cs : List Char} (h : ∀ c ∈ cs, isKeyChar c = true) :
    Text.byteLength cs = cs.length :=
  Text.byteLength_of_ascii fun c hc => toNat_lt_of_isKeyChar (h c hc)

/-- A file name of a fresh key is never too long. -/
theorem isTooLong_fileName : isTooLong (fileName version role token) = false := by
  have hlen : (fileName version role token).length ≤ 55 := length_fileName_le
  have hlimit : nameLimit = 255 := rfl
  rw [isTooLong, byteLength_of_isKeyChar fun c hc => isKeyChar_of_mem_fileName hc]
  exact decide_eq_false (by omega)

/-- A key of the registry whose name can be that of a directory takes no more room than there is. -/
theorem byteLength_fresh_le (hshort : isTooLong name.text.toList = false) :
    Text.byteLength (Key.fresh name version role token).text.toList ≤ keyRoom := by
  have hname : Text.byteLength name.text.toList ≤ nameLimit := by simpa [isTooLong] using hshort
  have hfile : Text.byteLength (fileName version role token) ≤ 55 := by
    rw [byteLength_of_isKeyChar fun c hc => isKeyChar_of_mem_fileName hc]
    exact length_fileName_le
  have hslash : Text.byteLength ('/' :: fileName version role token) =
      1 + Text.byteLength (fileName version role token) := Text.byteLength_append ['/'] _
  rw [text_fresh, Text.byteLength_append, hslash, keyRoom]
  omega

theorem hasNul_of_isKeyChar {path : Path} (h : ∀ n ∈ path, ∀ c ∈ n, isKeyChar c = true) :
    hasNul path = false := by
  rw [hasNul, List.any_eq_false]
  intro n hn hmem
  exact ne_nul_of_isKeyChar (h n hn '\x00' (List.contains_iff_mem.mp hmem)) rfl

theorem isKeyChar_of_mem_name {c : Char} (hc : c ∈ name.text.toList) : isKeyChar c = true := by
  simp [isKeyChar, name.isSlugChar_of_mem hc]

theorem hasNul_freshPath : hasNul (freshPath name version role token) = false := by
  apply hasNul_of_isKeyChar
  intro n hn c hc
  rcases List.mem_cons.mp hn with rfl | hn
  · exact isKeyChar_of_mem_name hc
  · rw [List.mem_singleton.mp hn] at hc
    exact isKeyChar_of_mem_fileName hc

/-- A component that begins with a slug character names something of its own. -/
theorem isSilent_of_head {c : Char} {cs : List Char} (h : isSlugChar c = true) :
    isSilent (c :: cs) = false ∧ (c :: cs) ≠ ['.', '.'] := by
  have hdot : c ≠ '.' := by
    rintro rfl
    revert h
    decide
  exact ⟨by simp [isSilent, hdot], by simp [hdot]⟩

/-- **A fresh key leads to the file of its name in the directory of the algorithm.** -/
theorem placeOf?_fresh :
    placeOf? (Key.fresh name version role token)
      = some (freshPlace name version role token) := by
  have hslash : ∀ {cs : List Char}, (∀ c ∈ cs, isKeyChar c = true) → '/' ∉ cs :=
    fun h hmem => ne_slash_of_isKeyChar (h '/' hmem) rfl
  have hsegments : Text.segments '/' (Key.fresh name version role token).text.toList
      = freshPath name version role token := by
    rw [text_fresh, Text.segments_append (hslash fun c hc => isKeyChar_of_mem_name hc),
      Text.segments_of_not_mem (hslash fun c hc => isKeyChar_of_mem_fileName hc)]
    rfl
  have hname : isSilent name.text.toList = false ∧ name.text.toList ≠ ['.', '.'] := by
    rcases hcs : name.text.toList with - | ⟨c, cs⟩
    · exact absurd hcs name.text_ne_nil
    · exact isSilent_of_head (name.isSlugChar_of_mem (by rw [hcs]; exact List.mem_cons_self))
  have hfile : isSilent (fileName version role token) = false ∧
      fileName version role token ≠ ['.', '.'] := by
    cases role
    · exact isSilent_of_head (c := 'v') (by decide)
    · exact isSilent_of_head (c := 'p') (by decide)
  have hlast : (freshPath name version role token).getLast? = some (fileName version role token) :=
    rfl
  have hending : endingOf (freshPath name version role token) = .plain := by
    -- the last component is no slash or dot in disguise
    rw [endingOf, hlast]
    split
    · next heq _ => rw [Option.some.inj heq] at hfile; exact absurd hfile.1 (by decide)
    · next heq => rw [Option.some.inj heq] at hfile; exact absurd hfile.1 (by decide)
    · next heq _ => rw [Option.some.inj heq] at hfile; exact absurd hfile.1 (by decide)
    · rfl
  have hkeep : (freshPath name version role token).filter (!isSilent ·)
      = freshPath name version role token := by
    simp [freshPath, hname.1, hfile.1]
  have hplain : (freshPath name version role token).head?.any isSilent = false ∧
      (freshPath name version role token).contains ['.', '.'] = false := by
    simp [freshPath, hname.1, hname.2.symm, hfile.2.symm]
  have hparent : parentOf (freshPath name version role token) = [name.text.toList] := by
    simp [parentOf, trimEnd, freshPath, hname.1, hfile.1]
  simp only [placeOf?, hsegments, hending, hkeep, hparent, hplain.1, hplain.2, Bool.or_self,
    Bool.false_eq_true, if_false]
  rfl

/-- A key leads to the file at a path. -/
def LeadsTo (key : Key) (path : Path) : Prop :=
  ∃ place, placeOf? key = some place ∧ place.path = path ∧ place.ending = .plain

theorem leadsTo_fresh_iff {path : Path} :
    LeadsTo (Key.fresh name version role token) path
      ↔ path = freshPath name version role token := by
  constructor
  · rintro ⟨place, hplace, rfl, -⟩
    rw [placeOf?_fresh] at hplace
    cases hplace
    rfl
  · rintro rfl
    exact ⟨_, placeOf?_fresh, rfl, rfl⟩

/-- Texts of different algorithms, versions or roles never share a path. -/
theorem freshPath_inj {name' : AlgorithmName} {version' : Version} {role' : Role} {token' : Token}
    (h : freshPath name version role token = freshPath name' version' role' token') :
    name = name' ∧ version = version' ∧ role = role' ∧ token = token' := by
  obtain ⟨hname, hfile⟩ := List.cons.inj h
  obtain ⟨hversion, hrole, htoken⟩ := fileName_inj (List.cons.inj hfile).1
  obtain ⟨s, _⟩ := name
  obtain ⟨s', _⟩ := name'
  obtain rfl : s = s' := String.toList_inj.mp hname
  exact ⟨rfl, hversion, hrole, htoken⟩

end Store

end ScriptRegistry
