/-
ScriptRegistry/Proofs/RecordSet.lean

The catalog as a finite set of records.

Names and shelves are the form in which a catalog keeps its records; what it does can be
told without them.  `RefinesSet` says so call by call: what is found, what may be
enrolled, what is removed and what is listed are all decided by the set of the records,
and the calls that change something add one record to the set or take one out.

The set can be read off because the index is sound: every record of a sound catalog is
found under its own name and version (`Sound.mem_records_iff`), so that two records of one
name and one version are the same.  A step lemma keeps the index sound (`Sound.after`); all
else follows from the index as it is, whatever calls have led there.

Main result: `refinesSet_of_calls`.
-/
import Mathlib.Data.Finset.Card
import ScriptRegistry.Proofs.Contention
import ScriptRegistry.Proofs.Correspondence

namespace ScriptRegistry.Store

/-! ### Sets of records -/

/-- The greatest version of a name among some records; none if there is no record of the name. -/
def IsLatest (records : Finset Record) (name : AlgorithmName) : Option Version → Prop
  | none => ∀ r ∈ records, r.name ≠ name
  | some v => (∃ r ∈ records, r.name = name ∧ r.version = v) ∧
      ∀ r ∈ records, r.name = name → r.version ≤ v

/-- The record that is asked for: at a version, or at the latest one of the name. -/
def IsAsked (records : Finset Record) (name : AlgorithmName) (version : Option Version)
    (r : Record) : Prop :=
  r ∈ records ∧ r.name = name ∧
    match version with
    | some v => r.version = v
    | none => IsLatest records name (some r.version)

/-- A version directly follows a latest one, and is 1 where there is none. -/
def Succeeds (v : Version) : Option Version → Prop
  | none => v.number = 1
  | some latest => v.number = latest.number + 1

theorem IsLatest.unique {records : Finset Record} {name : AlgorithmName} {a b : Option Version}
    (ha : IsLatest records name a) (hb : IsLatest records name b) : a = b := by
  rcases a with - | v <;> rcases b with - | w
  · rfl
  · obtain ⟨⟨r, hr, hname, -⟩, -⟩ := hb
    exact absurd hname (ha r hr)
  · obtain ⟨⟨r, hr, hname, -⟩, -⟩ := ha
    exact absurd hname (hb r hr)
  · obtain ⟨⟨r, hr, hname, rfl⟩, hmax⟩ := ha
    obtain ⟨⟨r', hr', hname', rfl⟩, hmax'⟩ := hb
    exact congrArg some (Std.le_antisymm (hmax' r hr hname) (hmax r' hr' hname'))

/-- Succession of numbers is the rule by which versions are assigned. -/
theorem succeeds_iff {v : Version} {latest : Option Version} :
    Succeeds v latest ↔ Version.following latest = .ok v := by
  constructor
  · intro h
    obtain ⟨n, hpos, hbound⟩ := v
    rcases latest with - | last
    · obtain rfl : n = 1 := h
      rfl
    · obtain rfl : n = last.number + 1 := h
      show last.next = _
      simp [Version.next, hbound]
  · intro h
    have hnumber := number_of_following h
    rcases latest with - | last <;> simpa [Succeeds] using hnumber

/-- Nothing follows the last of all versions. -/
theorem not_succeeds_of_last {v last : Version} (hlast : last.number + 1 = versionBound) :
    ¬ Succeeds v (some last) := by
  intro h
  have hnumber : v.number = last.number + 1 := h
  have hbound := v.bounded
  omega

namespace Catalog

variable {c : Catalog}

/-- The records of a catalog. -/
def records (c : Catalog) : Finset Record :=
  c.all.toFinset

/-- A catalog does what the set of its records says. -/
structure RefinesSet (c : Catalog) : Prop where
  /-- Names and versions ascend, every record stands under its own name and version, and no name
  has an empty shelf. -/
  index : c.Sound
  /-- A name and a version belong to one record. -/
  single : ∀ r ∈ c.records, ∀ r' ∈ c.records, r.name = r'.name → r.version = r'.version → r = r'
  /-- A record is taken in exactly if the caller expects the latest version of its name as it is
  and the record directly follows it. -/
  enroll_ok_iff : ∀ r expected, (c.enroll r expected).1 = .ok () ↔
    IsLatest c.records r.name expected ∧ Succeeds r.version expected
  /-- A record that is taken in is the only change, and is above all others of its name. -/
  enroll_ok : ∀ r expected, (c.enroll r expected).1 = .ok () →
    (c.enroll r expected).2.records = insert r c.records ∧
      ∀ r' ∈ c.records, r'.name = r.name → r'.version < r.version
  /-- A record that is not taken in changes nothing, and the caller is told the latest version. -/
  enroll_error : ∀ r expected fault, (c.enroll r expected).1 = .error fault →
    (c.enroll r expected).2 = c ∧ ∃ actual, IsLatest c.records r.name actual ∧
      fault = .versionConflict r.name expected actual
  /-- Behind the last of all versions nothing is taken in. -/
  enroll_exhausted : ∀ r expected last, IsLatest c.records r.name (some last) →
    last.number + 1 = versionBound → (c.enroll r expected).1 ≠ .ok ()
  /-- What is found is what is asked for. -/
  find_iff : ∀ name version r, c.find? name version = some r ↔ IsAsked c.records name version r
  /-- What is removed is what would be found. -/
  remove_answer : ∀ name version, (c.remove name version).1 = c.find? name version
  /-- Just what would be found is removed. -/
  remove_found : ∀ name version r, c.find? name version = some r →
    (c.remove name version).2.records = c.records.erase r
  /-- Where nothing would be found nothing changes. -/
  remove_missing : ∀ name version, c.find? name version = none → (c.remove name version).2 = c
  /-- The latest version is the greatest one. -/
  latest : ∀ name, IsLatest c.records name (c.latest? name)
  /-- Finding without a version finds the latest one. -/
  latest_eq_find : ∀ name, c.latest? name = (c.find? name none).map Record.version
  /-- The listing has just the names with a record, each with its latest version. -/
  newest_iff : ∀ row, row ∈ c.newest ↔ c.latest? row.name = some row.version
  /-- The names of the listing ascend. -/
  newest_ascending : c.newest.Pairwise fun a b => a.name.text < b.name.text
  /-- The size counts the records. -/
  size_eq : c.size = c.records.card
  /-- A catalog is empty exactly if its size is 0. -/
  isEmpty_iff : c.isEmpty = true ↔ c.size = 0

/-! ### Reading the set off the index -/

/-- A record belongs to the set exactly if it is found under its own name and version. -/
theorem Sound.mem_records_iff (h : c.Sound) {r : Record} :
    r ∈ c.records ↔ c.find? r.name (some r.version) = some r := by
  rw [records, List.mem_toFinset, mem_all_iff]
  exact ⟨h.find?_of_stored, stored_of_find?⟩

theorem Sound.find?_some_iff (h : c.Sound) {name : AlgorithmName} {v : Version} {r : Record} :
    c.find? name (some v) = some r ↔ r ∈ c.records ∧ r.name = name ∧ r.version = v := by
  rw [h.mem_records_iff]
  constructor
  · intro hr
    obtain ⟨hname, hfound⟩ := h.labelled hr
    rw [find?_some] at hr
    have hversion : r.version = v := ((h.shelf name).labelled (v, r) (mem_of_lookup hr)).2
    exact ⟨by rwa [hname], hname, hversion⟩
  · rintro ⟨hr, rfl, rfl⟩
    exact hr

theorem Sound.isLatest (h : c.Sound) (name : AlgorithmName) :
    IsLatest c.records name (c.latest? name) := by
  rcases hlatest : c.latest? name with - | v
  · rintro r hr rfl
    have hnone := find?_of_latest_none hlatest (some r.version)
    rw [h.mem_records_iff.mp hr] at hnone
    cases hnone
  · obtain ⟨r, hr⟩ := h.find?_latest hlatest
    refine ⟨⟨r, h.find?_some_iff.mp hr⟩, ?_⟩
    rintro r' hr' rfl
    rcases h.le_latest hlatest (h.mem_records_iff.mp hr') with heq | hlt
    · exact Std.le_of_eq heq
    · exact Nat.le_of_lt hlt

theorem Sound.isLatest_iff (h : c.Sound) {name : AlgorithmName} {version : Option Version} :
    IsLatest c.records name version ↔ c.latest? name = version := by
  constructor
  · intro hversion
    exact (h.isLatest name).unique hversion
  · rintro rfl
    exact h.isLatest name

theorem Sound.find?_iff (h : c.Sound) {name : AlgorithmName} {version : Option Version}
    {r : Record} : c.find? name version = some r ↔ IsAsked c.records name version r := by
  rcases version with - | v
  · rw [find?_none, Option.bind_eq_some_iff]
    constructor
    · rintro ⟨v, hlatest, hr⟩
      obtain ⟨hmem, hname, rfl⟩ := h.find?_some_iff.mp hr
      exact ⟨hmem, hname, h.isLatest_iff.mpr hlatest⟩
    · rintro ⟨hmem, hname, hlatest⟩
      exact ⟨r.version, h.isLatest_iff.mp hlatest, h.find?_some_iff.mpr ⟨hmem, hname, rfl⟩⟩
  · exact h.find?_some_iff

theorem Sound.latest?_eq_find (h : c.Sound) (name : AlgorithmName) :
    c.latest? name = (c.find? name none).map Record.version := by
  rw [find?_none]
  rcases hlatest : c.latest? name with - | v
  · rfl
  · obtain ⟨r, hr⟩ := h.find?_latest hlatest
    obtain ⟨-, -, rfl⟩ := h.find?_some_iff.mp hr
    simp [hr]

/-- No record is counted twice. -/
theorem Sound.size_eq_card (h : c.Sound) : c.size = c.records.card := by
  have hnodup : c.all.Nodup := by
    apply h.pairwise_all.imp
    rintro r _ hdiffer rfl
    exact hdiffer ⟨rfl, rfl⟩
  rw [records, List.toFinset_card_of_nodup hnodup]
  simp [size, all, List.length_flatMap]

theorem Sound.isEmpty_iff (h : c.Sound) : c.isEmpty = true ↔ c.size = 0 := by
  rw [isEmpty, List.isEmpty_iff, size, List.length_eq_zero_iff, List.flatMap_eq_nil_iff]
  constructor
  · intro hnil
    simp [hnil]
  · intro hall
    -- a first shelf would have to be empty
    rcases hshelves : c.shelves with - | ⟨e, rest⟩
    · rfl
    · have hmem : e ∈ c.shelves := by simp [hshelves]
      exact absurd (hall e hmem) (h.inhabited e hmem)

/-! ### Changing the set -/

theorem Sound.records_add (h : c.Sound) {r : Record} (hn : c.IsNext r) :
    (c.add r).records = insert r c.records := by
  ext r'
  rw [(h.add hn).mem_records_iff, find?_add h hn, Finset.mem_insert, h.mem_records_iff]
  split
  · next hsame =>
    rw [Option.some.injEq, eq_comm]
    -- at the place of the new record there was none before
    have hfree := h.find?_following hn
    rw [hsame.1, hsame.2, hfree]
    simp
  · next hdiffer =>
    refine ⟨Or.inr, fun hr' => hr'.resolve_left ?_⟩
    rintro rfl
    exact hdiffer ⟨rfl, rfl⟩

theorem Sound.records_drop (h : c.Sound) {r : Record} (hr : r ∈ c.records) :
    (c.drop r.name r.version).records = c.records.erase r := by
  ext r'
  rw [(h.drop _ _).mem_records_iff, find?_drop, Finset.mem_erase, h.mem_records_iff]
  split
  · next hsame =>
    rw [hsame.1, hsame.2, h.mem_records_iff.mp hr]
    simp only [reduceCtorEq, Option.some.injEq, false_iff, not_and]
    intro hne heq
    exact hne heq.symm
  · next hdiffer =>
    refine ⟨fun hr' => ⟨?_, hr'⟩, fun hr' => hr'.2⟩
    rintro rfl
    exact hdiffer ⟨rfl, rfl⟩

/-- **A sound catalog does what the set of its records says.** -/
theorem Sound.refinesSet (h : c.Sound) : c.RefinesSet where
  index := h
  single r hr r' hr' hname hversion := by
    rw [h.mem_records_iff] at hr hr'
    rw [hname, hversion, hr'] at hr
    exact (Option.some.inj hr).symm
  enroll_ok_iff r expected := by
    rw [h.isLatest_iff, succeeds_iff]
    rcases h.enroll_cases r expected with ⟨hlatest, hn, henroll⟩ | ⟨hnot, henroll⟩
    · rw [henroll, ← hlatest]
      exact ⟨fun _ => ⟨rfl, hn⟩, fun _ => rfl⟩
    · rw [henroll]
      refine ⟨fun hok => (by cases hok), fun ⟨hlatest, hn⟩ => ?_⟩
      have hnext : c.IsNext r := by rwa [IsNext, hlatest]
      exact absurd ⟨hlatest, hnext⟩ hnot
  enroll_ok r expected hok := by
    rcases h.enroll_cases r expected with ⟨-, hn, henroll⟩ | ⟨-, henroll⟩
    · rw [henroll]
      refine ⟨h.records_add hn, fun r' hr' hname => ?_⟩
      have hfound := h.mem_records_iff.mp hr'
      rw [hname, find?_some] at hfound
      exact of_decide_eq_true (h.before_next hn _ (mem_of_lookup hfound))
    · rw [henroll] at hok
      cases hok
  enroll_error r expected fault herror := by
    rcases h.enroll_cases r expected with ⟨-, -, henroll⟩ | ⟨-, henroll⟩
    · rw [henroll] at herror
      cases herror
    · rw [henroll] at herror ⊢
      cases herror
      exact ⟨rfl, _, h.isLatest r.name, rfl⟩
  enroll_exhausted r expected last hlast hbound hok := by
    rcases h.enroll_cases r expected with ⟨-, hn, -⟩ | ⟨-, henroll⟩
    · rw [IsNext, h.isLatest_iff.mp hlast] at hn
      exact not_succeeds_of_last hbound (succeeds_iff.mpr hn)
    · rw [henroll] at hok
      cases hok
  find_iff _ _ _ := h.find?_iff
  remove_answer name version := by
    rcases h.remove_cases name version with ⟨hnone, hremove⟩ | ⟨r, hr, -, hremove⟩
    · rw [hremove, hnone]
    · rw [hremove, hr]
  remove_found name version r hr := by
    rcases h.remove_cases name version with ⟨hnone, -⟩ | ⟨r', hr', hname, hremove⟩
    · rw [hnone] at hr
      cases hr
    · obtain rfl : r' = r := Option.some.inj (hr'.symm.trans hr)
      rw [hremove, ← hname]
      exact h.records_drop (h.find?_iff.mp hr).1
  remove_missing name version hnone := by
    rcases h.remove_cases name version with ⟨-, hremove⟩ | ⟨r, hr, -, -⟩
    · rw [hremove]
    · rw [hnone] at hr
      cases hr
  latest := h.isLatest
  latest_eq_find := h.latest?_eq_find
  newest_iff := h.mem_newest
  newest_ascending := h.pairwise_newest
  size_eq := h.size_eq_card
  isEmpty_iff := h.isEmpty_iff

/-! ### Calls -/

/-- A call keeps the index sound. -/
theorem Sound.after (h : c.Sound) (call : Call) : (c.after call).Sound := by
  cases call with
  | enroll r expected =>
    show (c.enroll r expected).2.Sound
    rcases h.enroll_cases r expected with ⟨-, hn, henroll⟩ | ⟨-, henroll⟩
    · rw [henroll]
      exact h.add hn
    · rw [henroll]
      exact h
  | remove name version =>
    show (c.remove name version).2.Sound
    rcases h.remove_cases name version with ⟨-, hremove⟩ | ⟨r, -, -, hremove⟩
    · rw [hremove]
      exact h
    · rw [hremove]
      exact h.drop name r.version
  | latest | find | newest | writeText | readText | removeText | drawToken | readClock => exact h

theorem Sound.foldl_after (h : c.Sound) (calls : List Call) :
    (calls.foldl Catalog.after c).Sound := by
  induction calls generalizing c with
  | nil => exact h
  | cons call calls ih => exact ih (h.after call)

/-- **Whatever calls were made since it was empty, a catalog does what the set of its records
says.** -/
theorem refinesSet_of_calls (calls : List Call) :
    (calls.foldl Catalog.after Catalog.empty).RefinesSet := by
  have hsound : (calls.foldl Catalog.after Catalog.empty).Sound :=
    sound_empty.foldl_after calls
  exact hsound.refinesSet

end Catalog

end ScriptRegistry.Store
