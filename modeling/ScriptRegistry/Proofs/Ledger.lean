/-
ScriptRegistry/Proofs/Ledger.lean

What a registry is about, without files, digests and order.

A ledger has for every name the versions that are stored, each with its draft and
the time at which it was stored.  `Ledger.serve` answers every request from the
ledger alone: a version is assigned behind the latest one, an entry never
changes, and a removal takes one entry out.  Two limits of the store show: the
numbers of versions end, and a name may be too long to be a directory.
-/
import ScriptRegistry.Proofs.Catalog
import ScriptRegistry.Proofs.Program
import ScriptRegistry.Store.FileTree

namespace ScriptRegistry.Store

/-! ### Requests -/

/-- A request to the store. -/
inductive Request
  | change (errand : Errand)
  | list
  | retrieve (name : AlgorithmName) (version : Option Version)

/-- What was stored as a version, and when. -/
structure Entry where
  draft : Draft
  storedAt : Time.Moment
  deriving DecidableEq

/-- An entry as it is read back. -/
def Entry.retrieved (e : Entry) (v : Version) : Retrieved where
  name := e.draft.name
  version := v
  description := e.draft.description
  main := ⟨e.draft.main.source, e.draft.main.className, e.draft.main.reducer⟩
  privacy := e.draft.privacy.map fun script => ⟨script.source, script.className⟩
  createdAt := e.storedAt

/-- What a request comes to. -/
inductive Outcome
  | change (result : Except StoreError (Version × Entry))
  | listing (latest : AlgorithmName → Option Version)
  | retrieved (result : Except StoreError (Version × Entry))

/-! ### The order of versions -/

instance : Std.IsLinearOrder Version where
  le_refl a := Nat.le_refl a.number
  le_trans _ _ _ hab hbc := Nat.le_trans hab hbc
  le_antisymm a b hab hba := by
    obtain ⟨m, _, _⟩ := a
    obtain ⟨n, _, _⟩ := b
    obtain rfl : m = n := Nat.le_antisymm hab hba
    rfl
  le_total a b := Nat.le_total a.number b.number

instance : Max Version := ⟨fun a b => if a ≤ b then b else a⟩

theorem version_max_eq (a b : Version) : max a b = if a ≤ b then b else a := rfl

instance : Std.LawfulOrderMax Version where
  max_eq_or a b := by
    rw [version_max_eq]
    split
    · exact Or.inr rfl
    · exact Or.inl rfl
  max_le_iff a b c := by
    rw [version_max_eq]
    split
    · next h => exact ⟨fun hc => ⟨Nat.le_trans h hc, hc⟩, fun hc => hc.2⟩
    · next h => exact ⟨fun ha => ⟨ha, Nat.le_trans (Nat.le_of_not_le h) ha⟩, fun ha => ha.1⟩

/-! ### Ledgers -/

/-- For every name its versions with what was stored, in no particular order. -/
abbrev Ledger := AlgorithmName → List (Version × Entry)

namespace Ledger

/-- Nothing is stored. -/
def empty : Ledger := fun _ => []

/-- The entry at a version of a name. -/
def find? (l : Ledger) (name : AlgorithmName) (v : Version) : Option Entry :=
  (l name).lookup v

/-- The greatest version of a name. -/
def latest? (l : Ledger) (name : AlgorithmName) : Option Version :=
  ((l name).map (·.1)).max?

/-- The ledger in which a name has the given entries. -/
def set (l : Ledger) (name : AlgorithmName) (entries : List (Version × Entry)) : Ledger :=
  fun other => if other = name then entries else l other

/-- The entry that is asked for: at a version, or at the latest one. -/
def seek (l : Ledger) (name : AlgorithmName) : Option Version → Except StoreError (Version × Entry)
  | some v => match l.find? name v with
    | some e => .ok (v, e)
    | none => .error (.versionNotFound name v)
  | none => match (l.latest? name).bind fun v => (l.find? name v).map (v, ·) with
    | some found => .ok found
    | none => .error (.notFound name)

/-- Stores a draft behind the latest version of its name. -/
def publish (l : Ledger) (now : Time.Moment) (draft : Draft) :
    Except StoreError (Version × Entry) × Ledger :=
  match Version.following (l.latest? draft.name) with
  | .error fault => (.error (.input fault), l)
  | .ok v =>
    if isTooLong draft.name.text.toList then (.error (.file .nameTooLong), l)
    else (.ok (v, ⟨draft, now⟩), l.set draft.name ((v, ⟨draft, now⟩) :: l draft.name))

/-- Does an errand. -/
def change (l : Ledger) (now : Time.Moment) : Errand → Except StoreError (Version × Entry) × Ledger
  | .create draft => match l.latest? draft.name with
    | some _ => (.error (.alreadyExists draft.name), l)
    | none => l.publish now draft
  | .update draft _ => match l.latest? draft.name with
    | some _ => l.publish now draft
    | none => (.error (.notFound draft.name), l)
  | .delete name version => match l.seek name version with
    | .ok (v, e) => (.ok (v, e), l.set name (eraseKey v (l name)))
    | .error absent => (.error absent, l)

/-- Answers a request. -/
def serve (l : Ledger) (now : Time.Moment) : Request → Outcome × Ledger
  | .change errand => (.change (l.change now errand).1, (l.change now errand).2)
  | .list => (.listing l.latest?, l)
  | .retrieve name version => (.retrieved (l.seek name version), l)

/-- Answers requests one after the other, each at its time. -/
def serveAll : Ledger → List (Time.Moment × Request) → List Outcome × Ledger
  | l, [] => ([], l)
  | l, (now, request) :: rest =>
    ((l.serve now request).1 :: ((l.serve now request).2.serveAll rest).1,
      ((l.serve now request).2.serveAll rest).2)

/-! ### Entries and the latest version -/

variable {l : Ledger} {name : AlgorithmName}

theorem find?_set (l : Ledger) (name other : AlgorithmName) (entries : List (Version × Entry))
    (v : Version) : (l.set name entries).find? other v
      = if other = name then entries.lookup v else l.find? other v := by
  rw [find?, set]
  by_cases h : other = name <;> simp [h, find?]

/-- A new entry is found at its own place and changes no other. -/
theorem find?_set_cons (l : Ledger) (name other : AlgorithmName) (v w : Version) (e : Entry) :
    (l.set name ((v, e) :: l name)).find? other w
      = if other = name ∧ w = v then some e else l.find? other w := by
  rw [find?_set]
  by_cases hname : other = name
  · subst hname
    rw [if_pos rfl, lookup_cons_eq, find?]
    by_cases hw : w = v <;> simp [hw]
  · rw [if_neg hname, if_neg fun hb => hname hb.1]

/-- An entry that is taken out leaves its place and no other. -/
theorem find?_set_eraseKey (l : Ledger) (name other : AlgorithmName) (v w : Version) :
    (l.set name (eraseKey v (l name))).find? other w
      = if other = name ∧ w = v then none else l.find? other w := by
  rw [find?_set]
  by_cases hname : other = name
  · subst hname
    rw [if_pos rfl, lookup_eraseKey, find?]
    by_cases hw : w = v <;> simp [hw]
  · rw [if_neg hname, if_neg fun hb => hname hb.1]

/-- The versions of a name are those at which there is an entry. -/
theorem mem_versions_iff {v : Version} :
    v ∈ (l name).map (·.1) ↔ (l.find? name v).isSome = true := by
  rw [find?, List.lookup_isSome_iff, List.mem_map]
  constructor
  · rintro ⟨e, he, rfl⟩
    exact ⟨e, he, beq_self_eq_true _⟩
  · rintro ⟨e, he, hv⟩
    exact ⟨e, he, (eq_of_beq hv).symm⟩

/-- The latest version is the greatest one with an entry. -/
theorem latest?_eq_some_iff {v : Version} :
    l.latest? name = some v ↔ (l.find? name v).isSome = true ∧
      ∀ w, (l.find? name w).isSome = true → w ≤ v := by
  rw [latest?, List.max?_eq_some_iff]
  simp only [mem_versions_iff]

theorem latest?_eq_none_iff : l.latest? name = none ↔ ∀ v, l.find? name v = none := by
  rw [latest?, List.max?_eq_none_iff, List.map_eq_nil_iff]
  constructor
  · intro hnil v
    rw [find?, hnil]
    rfl
  · intro hnone
    rcases hl : l name with - | ⟨⟨v, e⟩, rest⟩
    · rfl
    · have hfirst := hnone v
      rw [find?, hl, List.lookup_cons_self] at hfirst
      cases hfirst

/-! ### Changes -/

/-- Where a draft is not published, nothing changes. -/
theorem publish_cases (l : Ledger) (now : Time.Moment) (draft : Draft) :
    (∃ fault, l.publish now draft = (.error fault, l)) ∨
      ∃ v, Version.following (l.latest? draft.name) = .ok v ∧ l.publish now draft
        = (.ok (v, ⟨draft, now⟩), l.set draft.name ((v, ⟨draft, now⟩) :: l draft.name)) := by
  rw [publish]
  rcases Version.following (l.latest? draft.name) with fault | v
  · exact Or.inl ⟨_, rfl⟩
  · by_cases hlong : isTooLong draft.name.text.toList = true
    · exact Or.inl ⟨_, if_pos hlong⟩
    · exact Or.inr ⟨v, rfl, if_neg hlong⟩

/-- A change that is refused is no change. -/
theorem change_error {now : Time.Moment} {errand : Errand} {fault : StoreError}
    (h : (l.change now errand).1 = .error fault) : (l.change now errand).2 = l := by
  have hpublish : ∀ draft, (l.publish now draft).1 = .error fault →
      (l.publish now draft).2 = l := by
    intro draft hfault
    rcases l.publish_cases now draft with ⟨_, heq⟩ | ⟨v, -, heq⟩
    · rw [heq]
    · rw [heq] at hfault
      cases hfault
  cases errand with
  | create draft =>
    rw [change] at h ⊢
    split at h
    · rfl
    · exact hpublish draft h
  | update draft attempts =>
    rw [change] at h ⊢
    split at h
    · exact hpublish draft h
    · rfl
  | delete name version =>
    rw [change] at h ⊢
    split at h
    · cases h
    · rfl

/-- What an errand stores, it stores in a new entry behind the latest one. -/
theorem change_ok {now : Time.Moment} {errand : Errand} {draft : Draft}
    (herrand : errand.draft? = some draft) {v : Version} {e : Entry}
    (h : (l.change now errand).1 = .ok (v, e)) :
    Version.following (l.latest? draft.name) = .ok v ∧ e = ⟨draft, now⟩ ∧
      (l.change now errand).2 = l.set draft.name ((v, e) :: l draft.name) := by
  have hpublish : (l.publish now draft).1 = .ok (v, e) →
      Version.following (l.latest? draft.name) = .ok v ∧ e = ⟨draft, now⟩ ∧
        (l.publish now draft).2 = l.set draft.name ((v, e) :: l draft.name) := by
    intro hok
    rcases l.publish_cases now draft with ⟨_, heq⟩ | ⟨v', hv, heq⟩
    · rw [heq] at hok
      cases hok
    · rw [heq] at hok ⊢
      cases hok
      exact ⟨hv, rfl, rfl⟩
  cases errand with
  | create draft' =>
    cases herrand
    rw [change] at h ⊢
    split at h
    · cases h
    · exact hpublish h
  | update draft' attempts =>
    cases herrand
    rw [change] at h ⊢
    split at h
    · exact hpublish h
    · cases h
  | delete name version => cases herrand

/-- A removal changes no entry that stays. -/
theorem find?_change_delete {now : Time.Moment} {target other : AlgorithmName}
    {version : Option Version} {w : Version} {e : Entry}
    (h : (l.change now (.delete target version)).2.find? other w = some e) :
    l.find? other w = some e := by
  rw [change] at h
  split at h
  · rw [find?_set_eraseKey] at h
    split at h
    · cases h
    · exact h
  · exact h

/-! ### Names that can be directories -/

/-- No name with an entry is too long to be a directory. -/
def Short (l : Ledger) : Prop :=
  ∀ name v e, l.find? name v = some e → isTooLong name.text.toList = false

theorem short_empty : empty.Short :=
  fun _ _ _ he => by cases he

/-- What is published has a name that can be a directory. -/
theorem isTooLong_of_publish {now : Time.Moment} {draft : Draft} {found : Version × Entry}
    (h : (l.publish now draft).1 = .ok found) : isTooLong draft.name.text.toList = false := by
  rw [publish] at h
  split at h
  · cases h
  · split at h
    · cases h
    · next hshort => exact Bool.eq_false_iff.mpr hshort

theorem isTooLong_of_change {now : Time.Moment} {errand : Errand} {draft : Draft}
    (herrand : errand.draft? = some draft) {found : Version × Entry}
    (h : (l.change now errand).1 = .ok found) : isTooLong draft.name.text.toList = false := by
  cases errand with
  | create draft' =>
    cases herrand
    rw [change] at h
    split at h
    · cases h
    · exact isTooLong_of_publish h
  | update draft' attempts =>
    cases herrand
    rw [change] at h
    split at h
    · exact isTooLong_of_publish h
    · cases h
  | delete name version => cases herrand

/-- **No change enters a name that is too long to be a directory.** -/
theorem Short.change (h : l.Short) (now : Time.Moment) (errand : Errand) :
    (l.change now errand).2.Short := by
  intro name v e he
  rcases hresult : (l.change now errand).1 with fault | ⟨v', e'⟩
  · rw [change_error hresult] at he
    exact h name v e he
  · rcases hdraft : errand.draft? with - | draft
    · cases errand with
      | delete target version => exact h name v e (find?_change_delete he)
      | _ => cases hdraft
    · obtain ⟨-, -, hset⟩ := change_ok hdraft hresult
      rw [hset, find?_set_cons] at he
      split at he
      · next hnew =>
        rw [hnew.1]
        exact isTooLong_of_change hdraft hresult
      · exact h name v e he

theorem Short.of_latest (h : l.Short) {v : Version} (hv : l.latest? name = some v) :
    isTooLong name.text.toList = false := by
  obtain ⟨e, he⟩ := Option.isSome_iff_exists.mp (latest?_eq_some_iff.mp hv).1
  exact h name v e he

/-- What the creation of a name comes to that is free. -/
theorem change_create {now : Time.Moment} {draft : Draft} (h : l.latest? draft.name = none) :
    (l.change now (.create draft)).1 =
      if isTooLong draft.name.text.toList then .error (.file .nameTooLong)
      else .ok (.first, ⟨draft, now⟩) := by
  rw [change, h]
  simp only [publish, h, Version.following]
  split <;> rfl

/-- What an update of a name comes to that is in use. -/
theorem Short.change_update (h : l.Short) {now : Time.Moment} {draft : Draft} {attempts : Nat}
    {v : Version} (hv : l.latest? draft.name = some v) :
    (l.change now (.update draft attempts)).1
      = (v.next.mapError .input).map fun next => (next, ⟨draft, now⟩) := by
  rw [Ledger.change, hv]
  simp only [publish, hv, Version.following, h.of_latest hv]
  cases v.next with
  | error fault => rfl
  | ok next => rfl

end Ledger

end ScriptRegistry.Store
