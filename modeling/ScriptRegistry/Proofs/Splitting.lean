/-
ScriptRegistry/Proofs/Splitting.lean

How a base list is cut into its entries, byte by byte.

An entry is a slice of the base list, from one byte to another.  The scan that finds
the slices keeps three things: how many brackets are open, the byte where the current
entry begins, and the slices before it.  Behind every prefix they stand for entries
that are complete and a text that is not (`Scanned`).  So no slice cuts a character
in two, the slices are the entries of the splitter, and commas between them give the
list back.

In the base list of a declaration brackets are nested once.  A cut through such a list
either leaves base lists on both sides or goes through a group (`Bases.cut`).  In the
first case no bracket is open there, in the second one is, and that decides which
commas separate entries.

Main results: `slices_eq_baseEntries`, `separatesAt_iff`, `MindsGroups.of_bases` and
`baseEntries_lossless`.
-/
import ScriptRegistry.Proofs.Declaration
import ScriptRegistry.Proofs.Utf8
import ScriptRegistry.Text.Segment

namespace ScriptRegistry

namespace Text

/-! ### Places in bytes -/

/-- Whether a place in the bytes of a text is at one of its ends or where a character begins. -/
def isCharBoundary (text : List Char) (i : Nat) : Bool :=
  i == 0 || i == byteLength text || (encode text)[i]?.any fun b => !isContinuation b

/-- The slice of a text from one byte to another; there is none if a place is inside a character
or the second place is before the first. -/
def slice? (text : List Char) (i j : Nat) : Option (List Char) :=
  if i ≤ j ∧ isCharBoundary text i = true ∧ isCharBoundary text j = true then
    (decode (((encode text).drop i).take (j - i))).toOption
  else none

theorem isCharBoundary_append (u v : List Char) :
    isCharBoundary (u ++ v) (byteLength u) = true := by
  rcases v with - | ⟨c, v⟩
  · simp [isCharBoundary]
  · obtain ⟨lead, tail, hc, hlead⟩ := exists_encodeChar_cons c
    have hbyte : (encode (u ++ c :: v))[byteLength u]? = some lead := by
      rw [encode_append, byteLength, List.getElem?_append_right le_rfl, Nat.sub_self, encode_cons,
        hc]
      rfl
    simp [isCharBoundary, hbyte, hlead]

/-- **A part of a text is its slice between the bytes where it begins and ends.** -/
theorem slice?_append (u w v : List Char) :
    slice? (u ++ (w ++ v)) (byteLength u) (byteLength u + byteLength w) = some w := by
  have hend := isCharBoundary_append (u ++ w) v
  rw [byteLength_append, List.append_assoc] at hend
  rw [slice?, if_pos ⟨Nat.le_add_right _ _, isCharBoundary_append u _, hend⟩, encode_append,
    encode_append, byteLength, List.drop_left, Nat.add_sub_cancel_left, byteLength, List.take_left,
    decode_encode]
  rfl

end Text

namespace Source

open Text

/-! ### The scan -/

/-- Where the scan of a base list stands: how many brackets are open, at which byte the current
entry begins, and from which byte to which the entries before it reach. -/
structure Scan where
  depth : Nat
  start : Nat
  closed : List (Nat × Nat)

/-- The scan before the first character. -/
def Scan.initial : Scan :=
  ⟨0, 0, []⟩

/-- The scan behind one more character, which begins at byte `i`. -/
def Scan.read (s : Scan) (i : Nat) (c : Char) : Scan :=
  if c = '(' then { s with depth := s.depth + 1 }
  else if c = ')' then { s with depth := s.depth - 1 }
  else if c = ',' ∧ s.depth = 0 then { s with start := i + 1, closed := s.closed ++ [(s.start, i)] }
  else s

/-- The characters of a text behind `i` bytes, each with the byte where it begins. -/
def charIndices (i : Nat) : List Char → List (Nat × Char)
  | [] => []
  | c :: cs => (i, c) :: charIndices (i + byteLength [c]) cs

/-- The scan behind a base list, or a beginning of one. -/
def scan (bases : List Char) : Scan :=
  (charIndices 0 bases).foldl (fun s (i, c) => s.read i c) .initial

/-- From which byte to which each entry of a base list reaches. -/
def entryPlaces (bases : List Char) : List (Nat × Nat) :=
  (scan bases).closed ++ [((scan bases).start, byteLength bases)]

/-- The slices at the places of the entries, if no place is inside a character. -/
def slices? (bases : List Char) : Option (List (List Char)) :=
  (entryPlaces bases).mapM fun place => slice? bases place.1 place.2

section Scan

variable {s : Scan} {i : Nat} {c : Char} {w u v : List Char}

theorem Scan.read_comma (h : s.depth = 0) :
    s.read i ',' = ⟨0, i + 1, s.closed ++ [(s.start, i)]⟩ := by
  rw [Scan.read, if_neg (by decide), if_neg (by decide), if_pos ⟨rfl, h⟩, h]

/-- Every other character only counts as a bracket. -/
theorem Scan.read_other (h : ¬ (c = ',' ∧ s.depth = 0)) :
    s.read i c = { s with depth := countBracket '(' ')' s.depth c } := by
  rw [Scan.read, countBracket, if_neg h]
  split
  · rfl
  · split <;> rfl

theorem charIndices_append (i : Nat) (u v : List Char) :
    charIndices i (u ++ v) = charIndices i u ++ charIndices (i + byteLength u) v := by
  induction u generalizing i with
  | nil => rfl
  | cons c u ih =>
    have hbytes : byteLength (c :: u) = byteLength [c] + byteLength u := byteLength_append [c] u
    rw [List.cons_append, charIndices, ih, charIndices, hbytes, Nat.add_assoc, List.cons_append]

theorem scan_concat (w : List Char) (c : Char) :
    scan (w ++ [c]) = (scan w).read (byteLength w) c := by
  rw [scan, charIndices_append, List.foldl_append, Nat.zero_add]
  rfl

/-- A slice is closed only by a comma outside of brackets. -/
theorem exists_of_mem_closed {k : Nat} (h : (i, k) ∈ (scan w).closed) :
    ∃ u v, w = u ++ ',' :: v ∧ byteLength u = k ∧ (scan u).depth = 0 := by
  induction w using List.reverseRecOn with
  | nil => exact absurd h List.not_mem_nil
  | append_singleton w c ih =>
    -- a slice that was there before stays where it is
    have hlater : (i, k) ∈ (scan w).closed →
        ∃ u v, w ++ [c] = u ++ ',' :: v ∧ byteLength u = k ∧ (scan u).depth = 0 := by
      intro hmem
      obtain ⟨u, v, rfl, hk, hdepth⟩ := ih hmem
      exact ⟨u, v ++ [c], by simp, hk, hdepth⟩
    rw [scan_concat] at h
    by_cases hcomma : c = ',' ∧ (scan w).depth = 0
    · obtain ⟨rfl, hdepth⟩ := hcomma
      rw [Scan.read_comma hdepth, List.mem_append, List.mem_singleton, Prod.mk.injEq] at h
      rcases h with h | ⟨-, rfl⟩
      · exact hlater h
      · exact ⟨w, [], rfl, rfl, hdepth⟩
    · rw [Scan.read_other hcomma] at h
      exact hlater h

end Scan

/-! ### Entries put together -/

/-- Entries with a comma behind each. -/
def withCommas (entries : List (List Char)) : List Char :=
  entries.flatMap (· ++ [','])

/-- From which byte to which each entry reaches, if commas separate them and the first one begins
at byte `i`. -/
def placesFrom (i : Nat) : List (List Char) → List (Nat × Nat)
  | [] => []
  | entry :: entries =>
    (i, i + byteLength entry) :: placesFrom (i + byteLength entry + 1) entries

section Entries

variable {entries : List (List Char)} {entry : List Char}

theorem withCommas_concat (entries : List (List Char)) (entry : List Char) :
    withCommas (entries ++ [entry]) = withCommas entries ++ entry ++ [','] := by
  simp [withCommas]

theorem placesFrom_append (i : Nat) (entries more : List (List Char)) :
    placesFrom i (entries ++ more)
      = placesFrom i entries ++ placesFrom (i + byteLength (withCommas entries)) more := by
  induction entries generalizing i with
  | nil => rfl
  | cons entry entries ih =>
    have hcomma : byteLength [','] = 1 := rfl
    have hbytes : byteLength (withCommas (entry :: entries))
        = byteLength entry + 1 + byteLength (withCommas entries) := by
      rw [withCommas, List.flatMap_cons, byteLength_append, byteLength_append, hcomma]
      rfl
    rw [List.cons_append, placesFrom, ih, placesFrom, hbytes, List.cons_append]
    simp only [Nat.add_assoc]

/-- At the places of entries that commas separate stand the entries. -/
theorem mapM_slice?_placesFrom (u : List Char) (entries : List (List Char)) :
    (placesFrom (byteLength u) entries).mapM
      (fun place => slice? (u ++ joinSegments ',' entries) place.1 place.2) = some entries := by
  induction entries generalizing u with
  | nil => rfl
  | cons entry entries ih =>
    rcases entries with - | ⟨next, entries⟩
    · have hslice := slice?_append u entry []
      rw [List.append_nil] at hslice
      simp [placesFrom, joinSegments, hslice]
    · -- the others are slices of the same text, behind the first one and its comma
      have hrest := ih (u ++ entry ++ [','])
      have hbytes : byteLength (u ++ entry ++ [',']) = byteLength u + byteLength entry + 1 := by
        rw [byteLength_append, byteLength_append]
        rfl
      have htext : u ++ entry ++ [','] ++ joinSegments ',' (next :: entries)
          = u ++ (entry ++ ',' :: joinSegments ',' (next :: entries)) := by
        simp
      rw [hbytes, htext] at hrest
      rw [placesFrom, joinSegments_cons _ _ (List.cons_ne_nil _ _), List.mapM_cons, slice?_append,
        hrest]
      rfl

theorem splitBases_comma (r cs : List Char) :
    splitBases 0 r (',' :: cs) = r.reverse :: splitBases 0 [] cs := by
  rw [splitBases, if_pos ⟨rfl, rfl⟩]

theorem splitBases_ne_nil (depth : Nat) (r cs : List Char) : splitBases depth r cs ≠ [] := by
  induction cs generalizing depth r with
  | nil => exact List.cons_ne_nil _ _
  | cons c cs ih =>
    by_cases hcomma : c = ',' ∧ depth = 0
    · obtain ⟨rfl, rfl⟩ := hcomma
      rw [splitBases_comma]
      exact List.cons_ne_nil _ _
    · rw [splitBases_cons hcomma]
      exact ih _ _

theorem joinSegments_splitBases (depth : Nat) (r cs : List Char) :
    joinSegments ',' (splitBases depth r cs) = r.reverse ++ cs := by
  induction cs generalizing depth r with
  | nil => exact (List.append_nil _).symm
  | cons c cs ih =>
    by_cases hcomma : c = ',' ∧ depth = 0
    · obtain ⟨rfl, rfl⟩ := hcomma
      rw [splitBases_comma, joinSegments_cons _ _ (splitBases_ne_nil _ _ _), ih]
      rfl
    · rw [splitBases_cons hcomma, ih, List.reverse_cons, List.append_assoc, List.singleton_append]

/-- **With commas between them, the entries are the base list.** -/
theorem joinSegments_baseEntries (bases : List Char) :
    joinSegments ',' (baseEntries bases) = bases :=
  joinSegments_splitBases 0 [] bases

end Entries

/-! ### What the scan has found -/

/-- Behind the text `w` the scan has closed the given entries, and `r` is what it has read of the
next one. -/
structure Scanned (w : List Char) (entries : List (List Char)) (r : List Char) : Prop where
  text : w = withCommas entries ++ r
  depth : (scan w).depth = openBehind '(' ')' w
  start : (scan w).start = byteLength (withCommas entries)
  closed : (scan w).closed = placesFrom 0 entries
  /-- The splitter has found the same. -/
  split : ∀ cs, baseEntries (w ++ cs) = entries ++ splitBases (scan w).depth r.reverse cs

section Scanned

variable {w r u v : List Char} {entries : List (List Char)} {c : Char}

theorem scanned_nil : Scanned [] [] [] where
  text := rfl
  depth := rfl
  start := rfl
  closed := rfl
  split := fun _ => rfl

theorem Scanned.byteLength_eq (h : Scanned w entries r) :
    byteLength w = byteLength (withCommas entries) + byteLength r := by
  rw [← byteLength_append, ← h.text]

/-- A comma outside of brackets closes the current entry. -/
theorem Scanned.comma (h : Scanned w entries r) (hdepth : (scan w).depth = 0) :
    Scanned (w ++ [',']) (entries ++ [r]) [] where
  text := by
    rw [withCommas_concat, List.append_nil, ← h.text]
  depth := by
    rw [scan_concat, Scan.read_comma hdepth, openBehind_concat, ← h.depth, hdepth]
    rfl
  start := by
    rw [scan_concat, Scan.read_comma hdepth, withCommas_concat, ← h.text, byteLength_append]
    rfl
  closed := by
    rw [scan_concat, Scan.read_comma hdepth, placesFrom_append, Nat.zero_add, h.closed, h.start,
      h.byteLength_eq]
    rfl
  split := by
    intro cs
    rw [List.append_assoc, h.split, scan_concat, Scan.read_comma hdepth, hdepth,
      List.singleton_append, splitBases_comma, List.reverse_reverse, List.append_assoc]
    rfl

/-- Every other character belongs to the current entry. -/
theorem Scanned.other (h : Scanned w entries r) (hother : ¬ (c = ',' ∧ (scan w).depth = 0)) :
    Scanned (w ++ [c]) entries (r ++ [c]) where
  text := by
    rw [← List.append_assoc, ← h.text]
  depth := by
    rw [scan_concat, Scan.read_other hother, openBehind_concat, ← h.depth]
  start := by
    rw [scan_concat, Scan.read_other hother, h.start]
  closed := by
    rw [scan_concat, Scan.read_other hother, h.closed]
  split := by
    intro cs
    rw [List.append_assoc, h.split, scan_concat, Scan.read_other hother, List.singleton_append,
      splitBases_cons hother, List.reverse_concat]

/-- Behind every text the scan has found entries and the beginning of one more. -/
theorem exists_scanned (w : List Char) : ∃ entries r, Scanned w entries r := by
  induction w using List.reverseRecOn with
  | nil => exact ⟨[], [], scanned_nil⟩
  | append_singleton w c ih =>
    obtain ⟨entries, r, h⟩ := ih
    by_cases hcomma : c = ',' ∧ (scan w).depth = 0
    · obtain ⟨rfl, hdepth⟩ := hcomma
      exact ⟨_, _, h.comma hdepth⟩
    · exact ⟨_, _, h.other hcomma⟩

theorem depth_scan (w : List Char) : (scan w).depth = openBehind '(' ')' w := by
  obtain ⟨entries, r, h⟩ := exists_scanned w
  exact h.depth

/-- Behind the text `u`, whatever follows, the splitter goes on with so many brackets open. -/
def GoesOnWith (u : List Char) (depth : Nat) : Prop :=
  ∃ entries r, ∀ v, baseEntries (u ++ v) = entries ++ splitBases depth r v

/-- The scan and the splitter count the same brackets. -/
theorem goesOnWith_depth_scan (u : List Char) : GoesOnWith u (scan u).depth := by
  obtain ⟨entries, r, h⟩ := exists_scanned u
  exact ⟨entries, r.reverse, h.split⟩

/-- **The scan finds the places of the entries.** -/
theorem entryPlaces_eq (bases : List Char) :
    entryPlaces bases = placesFrom 0 (baseEntries bases) := by
  obtain ⟨entries, r, h⟩ := exists_scanned bases
  have hentries : baseEntries bases = entries ++ [r] := by
    have hsplit := h.split []
    rwa [List.append_nil, splitBases, List.reverse_reverse] at hsplit
  rw [entryPlaces, hentries, placesFrom_append, h.closed, h.start, h.byteLength_eq, Nat.zero_add]
  rfl

/-- **The slices are the entries**; none of them cuts a character in two. -/
theorem slices_eq_baseEntries (bases : List Char) : slices? bases = some (baseEntries bases) := by
  have hslices := mapM_slice?_placesFrom [] (baseEntries bases)
  rw [List.nil_append, joinSegments_baseEntries] at hslices
  rw [slices?, entryPlaces_eq]
  exact hslices

/-- At byte `k` an entry ends, and the next one begins behind it. -/
def SeparatesAt (bases : List Char) (k : Nat) : Prop :=
  ∃ before i j after, entryPlaces bases = before ++ (i, k) :: (k + 1, j) :: after

/-- **A comma separates entries exactly if no bracket is open before it.** -/
theorem separatesAt_iff :
    SeparatesAt (u ++ ',' :: v) (byteLength u) ↔ (scan u).depth = 0 := by
  constructor
  · rintro ⟨before, i, j, after, hplaces⟩
    -- there is a slice behind it, so this one was closed by a comma
    have hmem : (i, byteLength u) ∈ (scan (u ++ ',' :: v)).closed := by
      have hclosed := congrArg List.dropLast hplaces
      rw [entryPlaces, List.dropLast_concat, List.dropLast_append_of_ne_nil (List.cons_ne_nil _ _),
        List.dropLast_cons_of_ne_nil (List.cons_ne_nil _ _)] at hclosed
      rw [hclosed]
      exact List.mem_append_right _ List.mem_cons_self
    obtain ⟨u', v', heq, hlength, hdepth⟩ := exists_of_mem_closed hmem
    obtain ⟨rfl, -⟩ := append_inj_of_byteLength heq hlength.symm
    exact hdepth
  · intro hdepth
    obtain ⟨entries, r, h⟩ := exists_scanned u
    obtain ⟨next, more, hrest⟩ := List.exists_cons_of_ne_nil (splitBases_ne_nil 0 [] v)
    have hentries : baseEntries (u ++ ',' :: v) = entries ++ r :: next :: more := by
      rw [h.split, hdepth, splitBases_comma, List.reverse_reverse, hrest]
    have hplaces : entryPlaces (u ++ ',' :: v) = placesFrom 0 entries
        ++ (byteLength (withCommas entries), byteLength u)
          :: placesFrom (byteLength u + 1) (next :: more) := by
      rw [entryPlaces_eq, hentries, placesFrom_append, Nat.zero_add, placesFrom, ← h.byteLength_eq]
    exact ⟨_, _, _, _, hplaces⟩

end Scanned

/-! ### Groups -/

/-- In the list `u ++ v`, the place behind `u` is inside a group in round brackets. -/
def InGroup (u v : List Char) : Prop :=
  ∃ front inner inner' rest, u = front ++ '(' :: inner ∧ v = inner' ++ ')' :: rest ∧
    Bases front ∧ Unbracketed inner ∧ Unbracketed inner' ∧ Bases rest

section Groups

variable {u v w inner : List Char}

theorem unbracketed_append_iff : Unbracketed (u ++ v) ↔ Unbracketed u ∧ Unbracketed v := by
  simp only [Unbracketed, List.mem_append, not_or]
  exact and_and_and_comm

/-- **A cut through a base list leaves base lists on both sides, or goes through a group.** -/
theorem Bases.cut (h : Bases (u ++ v)) : Bases u ∧ Bases v ∨ InGroup u v := by
  generalize hw : u ++ v = w at h
  induction h generalizing u with
  | nil =>
    obtain ⟨rfl, rfl⟩ := List.append_eq_nil_iff.mp hw
    exact Or.inl ⟨Bases.nil, Bases.nil⟩
  | @char c w ho hc h ih =>
    rcases u with - | ⟨d, u⟩
    · rw [List.nil_append] at hw
      exact Or.inl ⟨Bases.nil, hw ▸ Bases.char ho hc h⟩
    · obtain ⟨rfl, htail⟩ := List.cons.inj hw
      rcases ih htail with ⟨hu, hv⟩ | ⟨front, inner, inner', rest, rfl, rfl, hfront, hinside⟩
      · exact Or.inl ⟨Bases.char ho hc hu, hv⟩
      · exact Or.inr ⟨d :: front, inner, inner', rest, rfl, rfl, Bases.char ho hc hfront, hinside⟩
  | @group inner w hinner h ih =>
    rcases u with - | ⟨d, u⟩
    · rw [List.nil_append] at hw
      exact Or.inl ⟨Bases.nil, hw ▸ Bases.group hinner h⟩
    · obtain ⟨rfl, htail⟩ := List.cons.inj hw
      rcases List.append_eq_append_iff.mp htail with ⟨a, rfl, rfl⟩ | ⟨a, rfl, ha⟩
      · -- through this group
        obtain ⟨hu, ha⟩ := unbracketed_append_iff.mp hinner
        exact Or.inr ⟨[], u, a, w, rfl, rfl, Bases.nil, hu, ha, h⟩
      · rcases a with - | ⟨d, a⟩
        · -- right before the closing bracket
          rw [List.append_nil]
          exact Or.inr ⟨[], inner, [], w, rfl, ha.symm, Bases.nil, hinner,
            ⟨List.not_mem_nil, List.not_mem_nil⟩, h⟩
        · obtain ⟨rfl, rfl⟩ := List.cons.inj ha
          rcases ih rfl with ⟨ha, hv⟩ | ⟨front, inner', inner'', rest, rfl, rfl, hfront, hinside⟩
          · exact Or.inl ⟨Bases.group hinner ha, hv⟩
          · exact Or.inr ⟨'(' :: (inner ++ ')' :: front), inner', inner'', rest, by simp, rfl,
              Bases.group hinner hfront, hinside⟩

/-- What a base list opens it closes. -/
theorem Bases.openBehind_append (h : Bases w) (u : List Char) :
    openBehind '(' ')' (u ++ w) = openBehind '(' ')' u := by
  induction h generalizing u with
  | nil => rw [List.append_nil]
  | @char c w ho hc h ih =>
    have hw := ih (u ++ [c])
    rw [openBehind_concat, countBracket, if_neg ho, if_neg hc, List.append_assoc,
      List.singleton_append] at hw
    exact hw
  | @group inner w hinner h ih =>
    have hw := ih (u ++ ['('] ++ inner ++ [')'])
    rw [openBehind_concat, openBehind_append_of_not_mem _ hinner.1 hinner.2,
      openBehind_concat] at hw
    simpa [countBracket] using hw

/-- Behind a base list no bracket is open. -/
theorem Bases.depth_scan (h : Bases w) : (scan w).depth = 0 := by
  rw [Source.depth_scan]
  exact h.openBehind_append []

/-- Inside a group one bracket is open. -/
theorem InGroup.depth_scan (h : InGroup u v) : (scan u).depth = 1 := by
  obtain ⟨front, inner, -, -, rfl, -, hfront, hinner, -, -⟩ := h
  rw [← List.singleton_append, ← List.append_assoc, Source.depth_scan,
    openBehind_append_of_not_mem _ hinner.1 hinner.2, openBehind_concat, ← Source.depth_scan,
    hfront.depth_scan]
  rfl

end Groups

/-! ### Base lists of declarations -/

/-- The scan of a base list goes by the groups of the list. -/
structure MindsGroups (bases : List Char) : Prop where
  /-- At any time at most one bracket is open. -/
  depth_le : ∀ u v, bases = u ++ v → (scan u).depth ≤ 1
  /-- At the end none is. -/
  depth_end : (scan bases).depth = 0
  /-- A closing bracket finds one to close. -/
  closes : ∀ u v, bases = u ++ ')' :: v → 0 < (scan u).depth
  /-- The commas inside of groups separate no entries, and all others do. -/
  separates_iff : ∀ u v, bases = u ++ ',' :: v →
    (SeparatesAt bases (byteLength u) ↔ ¬ InGroup u (',' :: v))

/-- **In the base list of a declaration the commas outside of groups separate the entries.** -/
theorem MindsGroups.of_bases {bases : List Char} (h : Bases bases) : MindsGroups bases where
  depth_le := by
    rintro u v rfl
    rcases h.cut with ⟨hu, -⟩ | hgroup
    · exact hu.depth_scan.trans_le (Nat.zero_le 1)
    · exact hgroup.depth_scan.le
  depth_end := h.depth_scan
  closes := by
    rintro u v rfl
    rcases h.cut with ⟨-, hv⟩ | hgroup
    · -- no base list begins with a closing bracket
      cases hv with
      | char ho hc hv => exact absurd rfl hc
    · exact hgroup.depth_scan ▸ Nat.one_pos
  separates_iff := by
    rintro u v rfl
    rw [separatesAt_iff]
    rcases h.cut with ⟨hu, -⟩ | hgroup
    · have hout : ¬ InGroup u (',' :: v) := fun hgroup =>
        Nat.zero_ne_one (hu.depth_scan.symm.trans hgroup.depth_scan)
      exact iff_of_true hu.depth_scan hout
    · exact iff_of_false (hgroup.depth_scan ▸ Nat.one_ne_zero) (not_not_intro hgroup)

/-- The search for some class captures the base list at some site. -/
def Captured (bases : List Char) : Prop :=
  ∃ className s behind, isClassName className = true ∧
    declarationAt className s = some (bases, behind)

/-- What can be captured is exactly the base lists of declarations. -/
theorem captured_iff {bases : List Char} : Captured bases ↔ Bases bases := by
  constructor
  · rintro ⟨className, s, behind, hclass, hfound⟩
    obtain ⟨-, w, -, @⟨heading, g, -, hbases, -⟩⟩ :=
      (declarationAt_eq_some_iff (isName_of_isClassName hclass)).mp hfound
    exact hbases
  · intro hbases
    have hclass : isClassName "A" = true := by decide
    have hnone : IsBlanks [] := fun c hc => absurd hc List.not_mem_nil
    have hspace : IsBlanks [' '] := by simp [IsBlanks, isBlank]
    have hheading : Heading "A".toList "class A".toList :=
      Heading.heading hspace (List.cons_ne_nil _ _) hnone
    have hdecl := Declaration.declaration hheading hbases hnone
    generalize hw : "class A".toList ++ '(' :: (bases ++ ')' :: ([] ++ [':'])) = w at hdecl
    refine ⟨"A", .start w, ⟨behind none w, []⟩, hclass,
      (declarationAt_eq_some_iff (isName_of_isClassName hclass)).mpr
        ⟨?_, w, ⟨(List.append_nil w).symm, rfl⟩, hdecl⟩⟩
    -- a word begins at the start of a text
    rw [← hw]
    rfl

/-- Up to blanks, the entry is the name, or it ends in a dot and the name. -/
def NamedUpToBlanks (name entry : List Char) : Prop :=
  ∃ g₁ g₂, IsBlanks g₁ ∧ IsBlanks g₂ ∧
    (entry = g₁ ++ (name ++ g₂) ∨ ∃ front, entry = front ++ '.' :: (g₁ ++ (name ++ g₂)))

theorem endsIn_iff {name entry : List Char} (hdot : '.' ∉ name) (htrim : trim name = name) :
    EndsIn entry name ↔ NamedUpToBlanks name entry := by
  constructor
  · rintro ⟨front, last, rfl, hfront, -, hlast⟩
    obtain ⟨g₁, g₂, h₁, h₂, rfl⟩ := (trim_eq_iff htrim).mp hlast
    refine ⟨g₁, g₂, h₁, h₂, ?_⟩
    rcases hfront with rfl | ⟨f, rfl⟩
    · exact Or.inl rfl
    · exact Or.inr ⟨f, List.append_assoc _ _ _⟩
  · rintro ⟨g₁, g₂, h₁, h₂, hentry⟩
    have hlast : '.' ∉ g₁ ++ (name ++ g₂) := by
      simp only [List.mem_append, not_or]
      exact ⟨not_mem_of_isBlanks h₁ rfl, hdot, not_mem_of_isBlanks h₂ rfl⟩
    have hname := (trim_eq_iff htrim).mpr ⟨g₁, g₂, h₁, h₂, rfl⟩
    rcases hentry with rfl | ⟨front, rfl⟩
    · exact ⟨[], _, rfl, Or.inl rfl, hlast, hname⟩
    · exact ⟨front ++ ['.'], _, List.append_cons _ _ _, Or.inr ⟨front, rfl⟩, hlast, hname⟩

/-- **The splitter loses nothing and splits only outside of groups.**  Whatever the list, no slice
cuts a character in two, the slices are the entries, and with commas between them these give the
list back.  The scan counts brackets as the splitter does, and in the lists that can be captured,
which are the base lists of declarations, it goes by the groups.  A base class without dots and
without blanks around it is named exactly if an entry is its name, or ends in a dot and its name,
up to blanks. -/
theorem baseEntries_lossless (bases : List Char) :
    slices? bases = some (baseEntries bases) ∧
    joinSegments ',' (baseEntries bases) = bases ∧
    (∀ u v, bases = u ++ v → GoesOnWith u (scan u).depth) ∧
    (Captured bases ↔ Bases bases) ∧ (Captured bases → MindsGroups bases) ∧
    ∀ baseClass : String, '.' ∉ baseClass.toList → trim baseClass.toList = baseClass.toList →
      (namesBase bases baseClass = true ↔
        ∃ entry ∈ baseEntries bases, NamedUpToBlanks baseClass.toList entry) := by
  refine ⟨slices_eq_baseEntries bases, joinSegments_baseEntries bases,
    fun u _ _ => goesOnWith_depth_scan u, captured_iff,
    fun hcaptured => .of_bases (captured_iff.mp hcaptured), fun baseClass hdot htrim => ?_⟩
  rw [namesBase_iff]
  refine exists_congr fun entry => ?_
  rw [mem_baseEntries_iff, endsIn_iff hdot htrim]

-- Two letters of the first entry take two bytes each, and the group keeps its comma.
example : entryPlaces "Größe,m.Mixin(b, c)".toList = [(0, 7), (8, 21)] ∧
    baseEntries "Größe,m.Mixin(b, c)".toList = ["Größe".toList, "m.Mixin(b, c)".toList] := by
  decide

end Source

end ScriptRegistry
