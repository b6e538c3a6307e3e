/-
ScriptRegistry/Proofs/Refinement.lean

A backend with nobody else acting is a ledger.

`Backend.Models` ties the two together: at each version of each name there is a
record exactly where the ledger has an entry, the record shows what the entry
says, its texts stand where it looks for them, and there is no file that belongs
to no record.  The last part is what lets a version be published again after
everything above it was deleted: the paths of a version without record are free,
whatever token is drawn.

Each operation has one lemma: the answer is the one of the ledger and the
invariant holds again.  `answers_follow_ledger` is the induction over a run.

Main result: `Backend.answers_follow_ledger`.
-/
import Mathlib.Data.List.Forall2
import ScriptRegistry.Proofs.Backend
import ScriptRegistry.Proofs.Ledger

namespace ScriptRegistry.Store

open Artifact

/-! ### Optional parts -/

section Rel

variable {α β : Type} {R S : α → β → Prop} {x : Option α} {y : Option β}

theorem exists_of_rel_some {a : α} (h : Option.Rel R (some a) y) : ∃ b, y = some b ∧ R a b := by
  cases h with
  | some hab => exact ⟨_, rfl, hab⟩

theorem eq_none_of_rel_none (h : Option.Rel R none y) : y = none := by
  cases h
  rfl

theorem rel_imp (h : Option.Rel R x y) (himp : ∀ a b, x = some a → y = some b → R a b → S a b) :
    Option.Rel S x y := by
  cases h with
  | none => exact Option.Rel.none
  | some hab => exact Option.Rel.some (himp _ _ rfl rfl hab)

end Rel

/-! ### Answers -/

/-- A record shows what was stored as its version. -/
structure Shows (r : Record) (v : Version) (e : Entry) : Prop where
  name : r.name = e.draft.name
  version : r.version = v
  description : r.description = e.draft.description
  className : r.main.className = e.draft.main.className
  reducer : r.main.reducer = e.draft.main.reducer
  digest : r.main.artifact.digest = .ofText e.draft.main.source
  privacy : Option.Rel (fun (p : RecordPrivacy) (s : PrivacyScript) =>
    p.className = s.className ∧ p.artifact.digest = .ofText s.source) r.privacy e.draft.privacy
  createdAt : r.createdAt = e.storedAt

/-- A record is answered where the ledger has an entry, and the same error elsewhere. -/
inductive ShowsResult : Except StoreError Record → Except StoreError (Version × Entry) → Prop
  | ok {r : Record} {v : Version} {e : Entry} (h : Shows r v e) : ShowsResult (.ok r) (.ok (v, e))
  | error (e : StoreError) : ShowsResult (.error e) (.error e)

/-- What a request is answered with. -/
inductive Reply
  | change (result : Except StoreError Record)
  | listing (result : Except StoreError (List Latest))
  | retrieved (result : Except StoreError Retrieved)

/-- A reply says what the ledger says; a listing has a row for each name with its
latest version, in the order of the names. -/
def Reply.Follows : Reply → Outcome → Prop
  | .change result, .change outcome => ShowsResult result outcome
  | .listing result, .listing latest => ∃ rows, result = .ok rows ∧
      rows.Pairwise (fun a b => a.name.text < b.name.text) ∧
      ∀ row, row ∈ rows ↔ latest row.name = some row.version
  | .retrieved result, .retrieved outcome => result = outcome.map fun (v, e) => e.retrieved v
  | _, _ => False

namespace Backend

/-- Answers a request at a time. -/
def serve (b : Backend) (now : Time.Moment) : Request → Reply × Backend
  | .change errand =>
    let (result, b) := { b with now := now }.run errand.program
    (.change result, b)
  | .list =>
    let (result, b) := { b with now := now }.run Store.list.run
    (.listing result, b)
  | .retrieve name version =>
    let (result, b) := { b with now := now }.run (Store.retrieve name version).run
    (.retrieved result, b)

/-- Answers requests one after the other, each at its time. -/
def serveAll : Backend → List (Time.Moment × Request) → List Reply × Backend
  | b, [] => ([], b)
  | b, (now, request) :: rest =>
    ((b.serve now request).1 :: ((b.serve now request).2.serveAll rest).1,
      ((b.serve now request).2.serveAll rest).2)

end Backend

/-! ### The invariant -/

/-- The texts of a record stand where it looks for them. -/
structure FileTree.Keeps (t : FileTree) (r : Record) (e : Entry) : Prop where
  main : t.Holds r.name r.version .main r.main.artifact e.draft.main.source
  privacy : Option.Rel (fun (p : RecordPrivacy) (s : PrivacyScript) =>
    t.Holds r.name r.version .privacy p.artifact s.source) r.privacy e.draft.privacy

/-- The backend holds what the ledger says, and no more. -/
structure Backend.Models (b : Backend) (l : Ledger) : Prop where
  records : b.records.Sound
  files : b.files.Tidy
  entries : ∀ name v, Option.Rel (fun r e => Shows r v e ∧ b.files.Keeps r e)
    (b.records.find? name (some v)) (l.find? name v)
  owned : ∀ q content, b.files.files.lookup q = some content →
    ∃ r, b.records.find? r.name (some r.version) = some r ∧ ∃ key ∈ r.keys, LeadsTo key q

/-- The keys of a record whose texts are kept are fresh ones of its name and version. -/
theorem FileTree.Keeps.fresh {t : FileTree} {r : Record} {e : Entry} (h : t.Keeps r e) :
    ∀ key ∈ r.keys, ∃ role token, key = Key.fresh r.name r.version role token := by
  obtain ⟨⟨token, hmain, -⟩, hprivacy⟩ := h
  intro key hkey
  rcases List.mem_cons.mp hkey with rfl | hkey
  · exact ⟨.main, token, by rw [hmain]⟩
  · rcases hp : r.privacy with - | p
    · rw [hp] at hkey
      cases hkey
    · rw [hp] at hkey hprivacy
      obtain ⟨s, -, token', href, -⟩ := exists_of_rel_some hprivacy
      have hkey' : key = p.artifact.key := List.mem_singleton.mp hkey
      exact ⟨.privacy, token', by rw [hkey', href]⟩

theorem FileTree.Keeps.mono {t t' : FileTree} {r : Record} {e : Entry} (h : t.Keeps r e)
    (hstay : ∀ role token content,
      t.files.lookup (freshPath r.name r.version role token) = some content →
        t'.files.lookup (freshPath r.name r.version role token) = some content) :
    t'.Keeps r e where
  main := h.main.mono (hstay .main)
  privacy := rel_imp h.privacy fun _ _ _ _ hheld => hheld.mono (hstay .privacy)

namespace Backend

variable {b : Backend} {l : Ledger}

theorem models_fresh (tokens : Nat → Token) (now : Time.Moment) (root : Root) :
    (fresh tokens now root).Models Ledger.empty where
  records := Catalog.sound_empty
  files := FileTree.tidy_empty root
  entries _ _ := Option.Rel.none
  owned q content hq := by cases hq

theorem Models.at (h : b.Models l) (now : Time.Moment) :
    ({ b with now := now } : Backend).Models l :=
  ⟨h.records, h.files, h.entries, h.owned⟩

/-- Behind a record there is an entry. -/
theorem Models.entry (h : b.Models l) {name : AlgorithmName} {v : Version} {r : Record}
    (hr : b.records.find? name (some v) = some r) :
    ∃ e, l.find? name v = some e ∧ Shows r v e ∧ b.files.Keeps r e := by
  have hrel := h.entries name v
  rw [hr] at hrel
  exact exists_of_rel_some hrel

/-- Without a record there is no entry. -/
theorem Models.no_entry (h : b.Models l) {name : AlgorithmName} {v : Version}
    (hr : b.records.find? name (some v) = none) : l.find? name v = none := by
  have hrel := h.entries name v
  rw [hr] at hrel
  exact eq_none_of_rel_none hrel

/-- The latest versions agree. -/
theorem Models.latest (h : b.Models l) (name : AlgorithmName) :
    b.records.latest? name = l.latest? name := by
  symm
  rcases hv : b.records.latest? name with - | v
  · exact Ledger.latest?_eq_none_iff.mpr fun v => h.no_entry (Catalog.find?_of_latest_none hv _)
  · obtain ⟨r, hr⟩ := h.records.find?_latest hv
    obtain ⟨e, he, -⟩ := h.entry hr
    refine Ledger.latest?_eq_some_iff.mpr ⟨by rw [he]; rfl, fun w hw => ?_⟩
    rcases hr' : b.records.find? name (some w) with - | r'
    · rw [h.no_entry hr'] at hw
      cases hw
    · rcases h.records.le_latest hv hr' with rfl | hlt
      · exact Nat.le_refl _
      · exact Nat.le_of_lt hlt

/-- The keys of a record lead to paths of its own name and version. -/
theorem Models.eq_of_leads (h : b.Models l) {r : Record} {name : AlgorithmName} {v : Version}
    (hr : b.records.find? name (some v) = some r) {key : Key} (hkey : key ∈ r.keys)
    {name' : AlgorithmName} {v' : Version} {role : Role} {token : Token}
    (hlead : LeadsTo key (freshPath name' v' role token)) : name' = r.name ∧ v' = r.version := by
  obtain ⟨e, -, -, hkeeps⟩ := h.entry hr
  obtain ⟨role', token', rfl⟩ := hkeeps.fresh key hkey
  obtain ⟨hname, hversion, -⟩ := freshPath_inj (leadsTo_fresh_iff.mp hlead)
  exact ⟨hname, hversion⟩

/-- The paths of a version without record are free. -/
theorem Models.free (h : b.Models l) {name : AlgorithmName} {v : Version}
    (hr : b.records.find? name (some v) = none) (role : Role) (token : Token) :
    b.files.files.lookup (freshPath name v role token) = none := by
  rcases hl : b.files.files.lookup (freshPath name v role token) with - | content
  · rfl
  · -- a file there would belong to a record of this very version
    obtain ⟨r, hfound, key, hkey, hlead⟩ := h.owned _ content hl
    obtain ⟨rfl, rfl⟩ := h.eq_of_leads hfound hkey hlead
    rw [hr] at hfound
    cases hfound

/-! ### Changes that keep the invariant -/

/-- Files may come and go as long as what the records look for is the same. -/
theorem Models.of_files (h : b.Models l) {files : FileTree} (htidy : files.Tidy)
    (hfiles : files.files = b.files.files) (drawn : Nat) :
    ({ b with files := files, drawn := drawn } : Backend).Models l where
  records := h.records
  files := htidy
  entries name v := rel_imp (h.entries name v) fun r e _ _ hre =>
    ⟨hre.1, hre.2.mono fun role token content hq => by rwa [hfiles]⟩
  owned q content hq := by
    rw [hfiles] at hq
    exact h.owned q content hq

/-- The texts of a new record are written and nothing else is. -/
structure Written (b : Backend) (r : Record) (e : Entry) (files : FileTree) : Prop where
  shows : Shows r r.version e
  keeps : files.Keeps r e
  tidy : files.Tidy
  old : ∀ q content, b.files.files.lookup q = some content → files.files.lookup q = some content
  new : ∀ q content, files.files.lookup q = some content →
    b.files.files.lookup q = some content ∨ ∃ key ∈ r.keys, LeadsTo key q

/-- A new record with its texts is a new entry. -/
theorem Models.add (h : b.Models l) {r : Record} {e : Entry} {files : FileTree}
    (hnext : b.records.IsNext r) (hw : b.Written r e files) (drawn : Nat) :
    ({ b with records := b.records.add r, files := files, drawn := drawn } : Backend).Models
      (l.set r.name ((r.version, e) :: l r.name)) where
  records := h.records.add hnext
  files := hw.tidy
  entries name v := by
    rw [Ledger.find?_set_cons]
    show Option.Rel _ ((b.records.add r).find? name (some v)) _
    rw [Catalog.find?_add h.records hnext]
    by_cases hnew : name = r.name ∧ v = r.version
    · rw [if_pos hnew, if_pos hnew, hnew.2]
      exact Option.Rel.some ⟨hw.shows, hw.keeps⟩
    · rw [if_neg hnew, if_neg hnew]
      exact rel_imp (h.entries name v) fun r' e' _ _ hre =>
        ⟨hre.1, hre.2.mono fun role token content hq => hw.old _ content hq⟩
  owned q content hq := by
    show ∃ r', (b.records.add r).find? r'.name (some r'.version) = some r' ∧ _
    rcases hw.new q content hq with hq | hkey
    · obtain ⟨r', hr', hlead⟩ := h.owned q content hq
      refine ⟨r', ?_, hlead⟩
      rw [Catalog.find?_add h.records hnext, if_neg, hr']
      -- the place of the new record was free
      rintro ⟨hname, hversion⟩
      have hfree := h.records.find?_following hnext
      rw [← hname, ← hversion, hr'] at hfree
      cases hfree
    · refine ⟨r, ?_, hkey⟩
      rw [Catalog.find?_add h.records hnext, if_pos ⟨rfl, rfl⟩]

/-- Without a record and its texts there is an entry less. -/
theorem Models.drop (h : b.Models l) {name : AlgorithmName} {v : Version} {r : Record}
    (hr : b.records.find? name (some v) = some r) {files : FileTree} (htidy : files.Tidy)
    (hgone : ∀ q, (∃ key ∈ r.keys, LeadsTo key q) → files.files.lookup q = none)
    (hstay : ∀ q, (∀ key ∈ r.keys, ¬ LeadsTo key q) →
      files.files.lookup q = b.files.files.lookup q) :
    ({ b with records := b.records.drop name v, files := files } : Backend).Models
      (l.set name (eraseKey v (l name))) where
  records := h.records.drop name v
  files := htidy
  entries other w := by
    rw [Ledger.find?_set_eraseKey]
    show Option.Rel _ ((b.records.drop name v).find? other (some w)) _
    rw [Catalog.find?_drop]
    by_cases hsame : other = name ∧ w = v
    · rw [if_pos hsame, if_pos hsame]
      exact Option.Rel.none
    · rw [if_neg hsame, if_neg hsame]
      refine rel_imp (h.entries other w) fun r' e' hr' _ hre =>
        ⟨hre.1, hre.2.mono fun role token content hq => ?_⟩
      rw [hstay _ ?_, hq]
      -- the keys of the record taken out lead to its own paths only
      intro key hkey hlead
      obtain ⟨hname, hversion⟩ := h.eq_of_leads hr hkey hlead
      obtain ⟨hother, -⟩ := h.records.labelled hr'
      obtain ⟨hrname, -⟩ := h.records.labelled hr
      obtain ⟨e, -, hshows, -⟩ := h.entry hr
      exact hsame ⟨by rw [← hother, hname, hrname],
        by rw [← hre.1.version, hversion, hshows.version]⟩
  owned q content hq := by
    show ∃ r', (b.records.drop name v).find? r'.name (some r'.version) = some r' ∧ _
    by_cases hlead : ∃ key ∈ r.keys, LeadsTo key q
    · rw [hgone q hlead] at hq
      cases hq
    · rw [hstay q fun key hkey hl => hlead ⟨key, hkey, hl⟩] at hq
      obtain ⟨r', hr', hown⟩ := h.owned q content hq
      refine ⟨r', ?_, hown⟩
      rw [Catalog.find?_drop, if_neg, hr']
      -- the owner of a file that is left is not the record taken out
      rintro ⟨hname, hversion⟩
      rw [hname, hversion, hr] at hr'
      obtain rfl := Option.some.inj hr'
      exact hlead hown

/-! ### Operations -/

/-- The version that a draft is published as. -/
theorem run_following {draft : Draft} {result : Except InputError Version}
    (hv : Version.following (b.records.latest? draft.name) = result) :
    Program.run answer (ExceptT.mk (.done ((Version.following
        (b.records.latest? draft.name)).mapError StoreError.input)) : Operation Version).run b
      = (result.mapError .input, b) := by
  rw [hv]
  rfl

/-- The record of a draft whose texts are written. -/
def recordOf (draft : Draft) (v : Version) (main : TextRef) (privacy : Option RecordPrivacy)
    (now : Time.Moment) : Record where
  name := draft.name
  version := v
  description := draft.description
  main := ⟨main, draft.main.className, draft.main.reducer⟩
  privacy := privacy
  createdAt := now

/-- The two writes, the main text first, write the texts of the record. -/
theorem written_recordOf {draft : Draft} {v : Version} {token : Token} {files₁ files : FileTree}
    {privacy : Option RecordPrivacy} (htidy : files.Tidy)
    (hfree : b.files.files.lookup (freshPath draft.name v .main token) = none)
    (hmain : ∀ q, files₁.files.lookup q = if q = freshPath draft.name v .main token
      then some (Text.encode draft.main.source.toList) else b.files.files.lookup q)
    (hheld : Option.Rel (fun (p : RecordPrivacy) (s : PrivacyScript) => p.className = s.className ∧
      files.Holds draft.name v .privacy p.artifact s.source) privacy draft.privacy)
    (hold : ∀ q content, files₁.files.lookup q = some content →
      files.files.lookup q = some content)
    (hnew : ∀ q content, files.files.lookup q = some content →
      files₁.files.lookup q = some content ∨ ∃ p, privacy = some p ∧ LeadsTo p.artifact.key q) :
    b.Written (recordOf draft v ⟨Key.fresh draft.name v .main token, .ofText draft.main.source⟩
      privacy b.now) ⟨draft, b.now⟩ files where
  shows := by
    refine ⟨rfl, rfl, rfl, rfl, rfl, rfl, ?_, rfl⟩
    refine rel_imp hheld fun p script _ _ hp => ⟨hp.1, ?_⟩
    obtain ⟨token, href, -⟩ := hp.2
    rw [href]
  keeps := by
    refine ⟨⟨token, rfl, hold _ _ ?_⟩, rel_imp hheld fun p script _ _ hp => hp.2⟩
    exact (hmain _).trans (if_pos rfl)
  tidy := htidy
  old q content hq := by
    refine hold q content ((hmain q).trans ((if_neg ?_).trans hq))
    rintro rfl
    rw [hfree] at hq
    cases hq
  new q content hq := by
    rcases hnew q content hq with hq | ⟨p, hp, hlead⟩
    · rw [hmain] at hq
      split at hq
      · next heq => exact Or.inr ⟨_, List.mem_cons_self, leadsTo_fresh_iff.mpr heq⟩
      · exact Or.inl hq
    · refine Or.inr ⟨p.artifact.key, List.mem_cons_of_mem _ ?_, hlead⟩
      subst hp
      exact List.mem_singleton.mpr rfl

/-- Where there is a next version and the name can be a directory, a draft is stored. -/
theorem Models.run_publish_ok (h : b.Models l) {draft : Draft} {v : Version}
    (hv : Version.following (b.records.latest? draft.name) = .ok v)
    (hshort : isTooLong draft.name.text.toList = false) :
    ∃ r files drawn, r.name = draft.name ∧ r.version = v ∧
      b.Written r ⟨draft, b.now⟩ files ∧
      Program.run answer (publish draft (b.records.latest? draft.name)).run b
        = (.ok r, { b with records := b.records.add r, files := files, drawn := drawn }) := by
  have hfree := h.free (h.records.find?_following hv)
  rcases h.files.writeText_cases (hfree .main (b.tokens b.drawn)) draft.main.source with
    ⟨hlong, -⟩ | ⟨-, files₁, htidy₁, hlookup₁, hwrite₁⟩
  · rw [hshort] at hlong
    cases hlong
  · have hmain := run_writeScript hwrite₁
    -- the main text lies beside the paths of the privacy script
    have hfree₁ : ∀ token, files₁.files.lookup (freshPath draft.name v .privacy token) = none := by
      intro token
      have hrole : freshPath draft.name v .privacy token
          ≠ freshPath draft.name v .main (b.tokens b.drawn) := by
        intro heq
        cases (freshPath_inj heq).2.2.1
      rw [hlookup₁, if_neg hrole, hfree]
    obtain ⟨privacy, files, drawn, htidy, hheld, hold, hnew, hprivacy⟩ :=
      writePrivacy_of_free (b := { b with files := files₁, drawn := b.drawn + 1 }) htidy₁ draft
        ⟨Key.fresh draft.name v .main (b.tokens b.drawn), .ofText draft.main.source⟩ hshort hfree₁
    have hw := written_recordOf htidy (hfree .main _) hlookup₁ hheld hold hnew
    refine ⟨_, files, drawn, rfl, rfl, hw, ?_⟩
    have hclock : Program.run answer (ExceptT.lift (Program.call .readClock) :
        Operation Time.Moment).run { b with files := files, drawn := drawn }
        = (.ok b.now, { b with files := files, drawn := drawn }) := rfl
    have hnext : b.records.IsNext (recordOf draft v ⟨Key.fresh draft.name v .main
        (b.tokens b.drawn), .ofText draft.main.source⟩ privacy b.now) := hv
    -- nobody has come in between, so the latest version is still the one expected
    rcases h.records.enroll_cases _ (b.records.latest? draft.name) with ⟨-, -, he⟩ | ⟨hnot, -⟩
    · have henroll := run_enroll (b := { b with files := files, drawn := drawn }) he
      rw [Store.publish, Program.run_bind_ok (run_following hv), Program.run_bind_ok hmain,
        Program.run_bind_ok hprivacy, Program.run_bind_ok hclock]
      exact Program.run_bind_ok (Program.run_catch_ok henroll _) _
    · exact absurd ⟨rfl, hnext⟩ hnot

/-- The records after a change: it is made if the operation succeeds. -/
def settle (change : Record → Catalog) (records : Catalog) : Except StoreError Record → Catalog
  | .ok r => change r
  | .error _ => records

/-- An operation that is to make a change ends with the answer and the state of a ledger. -/
structure Settles (b : Backend) (change : Record → Catalog)
    (outcome : Except StoreError (Version × Entry) × Ledger)
    (after : Except StoreError Record × Backend) : Prop where
  shows : ShowsResult after.1 outcome.1
  models : after.2.Models outcome.2
  records : after.2.records = settle change b.records after.1

/-- A draft is published as the ledger says; the latest version is never in dispute. -/
theorem Models.run_publish (h : b.Models l) (draft : Draft) :
    ∃ result b', Program.run answer (publish draft (b.records.latest? draft.name)).run b
        = (result, b') ∧
      b.Settles b.records.add (l.publish b.now draft) (result, b') ∧
      ∀ name expected actual, result ≠ .error (.versionConflict name expected actual) := by
  rcases hv : Version.following (b.records.latest? draft.name) with fault | v
  · -- the numbers of versions have ended
    have hledger : l.publish b.now draft = (.error (.input fault), l) := by
      rw [Ledger.publish, ← h.latest, hv]
    rw [hledger, Store.publish, Program.run_bind_error (run_following hv)]
    exact ⟨_, _, rfl, ⟨ShowsResult.error _, h, rfl⟩, fun _ _ _ hne => by cases hne⟩
  · rcases hlong : isTooLong draft.name.text.toList with - | -
    · obtain ⟨r, files, drawn, hname, hversion, hw, hrun⟩ := h.run_publish_ok hv hlong
      have hledger : l.publish b.now draft = (.ok (v, ⟨draft, b.now⟩),
          l.set draft.name ((v, ⟨draft, b.now⟩) :: l draft.name)) := by
        rw [Ledger.publish, ← h.latest, hv]
        exact if_neg (by simp [hlong])
      have hnext : b.records.IsNext r := by
        rw [Catalog.IsNext, hname, hversion]
        exact hv
      have hmodels := h.add hnext hw drawn
      rw [hname, hversion] at hmodels
      have hshows := hw.shows
      rw [hversion] at hshows
      rw [hledger, hrun]
      exact ⟨_, _, rfl, ⟨ShowsResult.ok hshows, hmodels, rfl⟩, fun _ _ _ hne => by cases hne⟩
    · -- the name is too long to be a directory
      have hledger : l.publish b.now draft = (.error (.file .nameTooLong), l) := by
        rw [Ledger.publish, ← h.latest, hv]
        exact if_pos hlong
      have hfree := h.free (h.records.find?_following hv) .main (b.tokens b.drawn)
      rcases h.files.writeText_cases hfree draft.main.source with
        ⟨-, files, htidy, hfiles, hwrite⟩ | ⟨hshort, -⟩
      · rw [hledger, Store.publish, Program.run_bind_ok (run_following hv),
          Program.run_bind_error (run_writeScript hwrite)]
        exact ⟨_, _, rfl, ⟨ShowsResult.error _, h.of_files htidy hfiles (b.drawn + 1), rfl⟩,
          fun _ _ _ hne => by cases hne⟩
      · rw [hlong] at hshort
        cases hshort

/-- Asking for the latest version changes nothing. -/
theorem run_latest (name : AlgorithmName) :
    Program.run answer (latest name).run b = (.ok (b.records.latest? name), b) := rfl

/-- What is done about a lost race does not matter, as no race is lost. -/
theorem Models.catch_publish (h : b.Models l) {draft : Draft} {expected : Option Version}
    (hlatest : b.records.latest? draft.name = expected) {handler : StoreError → Operation Record}
    (hthrow : ∀ e, (∀ name expected actual, e ≠ .versionConflict name expected actual) →
      handler e = throw e) :
    b.Settles b.records.add (l.publish b.now draft)
      (b.run (tryCatch (Store.publish draft expected) handler).run) := by
  subst hlatest
  obtain ⟨result, b', hrun, hsettles, hquiet⟩ := h.run_publish draft
  rw [run]
  rcases result with e | r
  · have hrethrow : handler e = throw e :=
      hthrow e fun name expected actual heq => hquiet name expected actual (by rw [heq])
    rw [Program.run_catch_error hrun, hrethrow]
    exact hsettles
  · rw [Program.run_catch_ok hrun]
    exact hsettles

theorem Models.create (h : b.Models l) (draft : Draft) :
    b.Settles b.records.add (l.change b.now (.create draft)) (b.run (create draft).run) := by
  rw [Ledger.change, ← h.latest, run, Store.create, Program.run_bind_ok (run_latest _)]
  rcases hlatest : b.records.latest? draft.name with - | v
  · apply h.catch_publish hlatest
    intro e hne
    cases e with
    | versionConflict name expected actual => exact absurd rfl (hne name expected actual)
    | _ => rfl
  · exact ⟨ShowsResult.error _, h, rfl⟩

/-- An update is done at the first attempt. -/
theorem Models.updateOnce (h : b.Models l) (draft : Draft)
    (again : StoreError → Operation Record) (attempts : Nat) :
    b.Settles b.records.add (l.change b.now (.update draft attempts))
      (b.run (updateOnce draft again).run) := by
  rw [Ledger.change, ← h.latest, run, Store.updateOnce, Program.run_bind_ok (run_latest _)]
  rcases hlatest : b.records.latest? draft.name with - | v
  · exact ⟨ShowsResult.error _, h, rfl⟩
  · show b.Settles _ _ (Program.run answer (tryCatch (Store.publish draft (some v)) _).run b)
    apply h.catch_publish hlatest
    intro e hne
    cases e with
    | versionConflict name expected actual => exact absurd rfl (hne name expected actual)
    | _ => rfl

theorem Models.update (h : b.Models l) (draft : Draft) (attempts : Nat) :
    b.Settles b.records.add (l.change b.now (.update draft attempts))
      (b.run (update draft attempts).run) := by
  rw [Store.update]
  cases attempts - 1 with
  | zero => exact h.updateOnce draft _ attempts
  | succ left => exact h.updateOnce draft _ attempts

/-- The record that is asked for is the one of the entry that is asked for. -/
theorem Models.seek (h : b.Models l) (name : AlgorithmName) (version : Option Version) :
    (b.records.find? name version = none ∧ l.seek name version = .error (absence name version)) ∨
      ∃ r e, b.records.find? name version = some r ∧ l.seek name version = .ok (r.version, e) ∧
        Shows r r.version e ∧ b.files.Keeps r e := by
  cases version with
  | some v =>
    rcases hr : b.records.find? name (some v) with - | r
    · exact Or.inl ⟨rfl, by rw [Ledger.seek, h.no_entry hr]; rfl⟩
    · obtain ⟨e, he, hshows, hkeeps⟩ := h.entry hr
      obtain rfl := hshows.version
      exact Or.inr ⟨r, e, rfl, by rw [Ledger.seek, he], hshows, hkeeps⟩
  | none =>
    rw [Catalog.find?_none, Ledger.seek, ← h.latest]
    rcases hv : b.records.latest? name with - | v
    · exact Or.inl ⟨rfl, rfl⟩
    · obtain ⟨r, hr⟩ := h.records.find?_latest hv
      obtain ⟨e, he, hshows, hkeeps⟩ := h.entry hr
      obtain rfl := hshows.version
      refine Or.inr ⟨r, e, hr, ?_, hshows, hkeeps⟩
      simp only [Option.bind_some, he, Option.map_some]

theorem Models.delete (h : b.Models l) (name : AlgorithmName) (version : Option Version) :
    b.Settles (fun r => b.records.drop r.name r.version) (l.change b.now (.delete name version))
      (b.run (delete name version).run) := by
  rcases h.records.remove_cases name version with ⟨hnone, hremove⟩ | ⟨r, hr, hname, hremove⟩
  · rcases h.seek name version with ⟨-, hseek⟩ | ⟨r, e, hr, -⟩
    · rw [Ledger.change, hseek, run, Store.delete, Program.run_bind_ok (run_remove hremove)]
      exact ⟨ShowsResult.error _, h, rfl⟩
    · rw [hnone] at hr
      cases hr
  · rcases h.seek name version with ⟨hnone, -⟩ | ⟨r', e, hr', hseek, hshows, hkeeps⟩
    · rw [hnone] at hr
      cases hr
    · obtain rfl : r' = r := Option.some.inj (hr'.symm.trans hr)
      obtain ⟨-, hfound⟩ := h.records.labelled hr
      have hkeys : ∀ key ∈ r'.keys, ∃ name version role token,
          key = Key.fresh name version role token := by
        intro key hkey
        obtain ⟨role, token, hfresh⟩ := hkeeps.fresh key hkey
        exact ⟨_, _, role, token, hfresh⟩
      obtain ⟨files, htidy, hgone, hstay, hdrop⟩ := run_dropTexts
        (b := { b with records := b.records.drop name r'.version }) h.files hkeys
      rw [Ledger.change, hseek, run, Store.delete, Program.run_bind_ok (run_remove hremove)]
      show b.Settles _ _ (Program.run answer (dropTexts r'.keys >>= _).run _)
      rw [Program.run_bind_ok hdrop]
      refine ⟨ShowsResult.ok hshows, h.drop hfound htidy hgone hstay, ?_⟩
      show b.records.drop name r'.version = b.records.drop r'.name r'.version
      rw [hname]

/-- The texts that a record refers to are those of its entry. -/
theorem retrieved_eq {r : Record} {e : Entry} (h : Shows r r.version e) :
    (⟨r.name, r.version, r.description,
        ⟨e.draft.main.source, r.main.className, r.main.reducer⟩,
        e.draft.privacy.map fun s => ⟨s.source, s.className⟩, r.createdAt⟩ : Retrieved)
      = e.retrieved r.version := by
  rw [h.name, h.description, h.className, h.reducer, h.createdAt]
  rfl

/-- A record is read back as its entry, and nothing changes. -/
theorem Models.run_retrieve (h : b.Models l) (name : AlgorithmName) (version : Option Version) :
    Program.run answer (Store.retrieve name version).run b
      = ((l.seek name version).map fun (v, e) => e.retrieved v, b) := by
  have hfind : Program.run answer (find name version).run b
      = (.ok (b.records.find? name version), b) := rfl
  rw [Store.retrieve, Program.run_bind_ok hfind]
  rcases h.seek name version with ⟨hnone, hseek⟩ | ⟨r, e, hr, hseek, hshows, hkeeps⟩
  · rw [hnone, hseek]
    rfl
  · rw [hr, hseek]
    show Program.run answer (readIntact r.main.artifact >>= _).run b = _
    rw [Program.run_bind_ok (run_readIntact h.files hkeeps.main)]
    have hend : (Except.ok (ε := StoreError) (r.version, e)).map (fun (v, e) => e.retrieved v)
        = .ok (e.retrieved r.version) := rfl
    rw [hend, ← retrieved_eq hshows]
    -- record and entry agree on whether there is a privacy script
    have hclass := hshows.privacy
    have hheld := hkeeps.privacy
    rcases hp : r.privacy with - | p
    · rw [hp] at hclass
      rw [eq_none_of_rel_none hclass]
      rfl
    · rw [hp] at hclass hheld
      obtain ⟨s, hs, hname, -⟩ := exists_of_rel_some hclass
      obtain ⟨s', hs', hkept⟩ := exists_of_rel_some hheld
      obtain rfl := Option.some.inj (hs.symm.trans hs')
      have hread := Program.run_bind_ok (run_readIntact h.files hkept) fun code =>
        (pure (some ⟨code, p.className⟩) : Operation (Option RetrievedPrivacy))
      rw [hs, Option.map_some, ← hname]
      exact Program.run_bind_ok hread _

/-- What an errand makes of the records if it succeeds. -/
def changed (b : Backend) : Errand → Record → Catalog
  | .create _, r => b.records.add r
  | .update _ _, r => b.records.add r
  | .delete _ _, r => b.records.drop r.name r.version

theorem Models.change (h : b.Models l) (errand : Errand) :
    b.Settles (b.changed errand) (l.change b.now errand) (b.run errand.program) := by
  cases errand with
  | create draft => exact h.create draft
  | update draft attempts => exact h.update draft attempts
  | delete name version => exact h.delete name version

/-- A record that is stored is the next one of its name. -/
theorem Settles.isNext (h : b.Models l) {errand : Errand} {draft : Draft}
    (herrand : errand.draft? = some draft) {change : Record → Catalog} {r : Record} {b' : Backend}
    (hsettles : b.Settles change (l.change b.now errand) (.ok r, b')) :
    r.name = draft.name ∧ b.records.IsNext r := by
  have hshows := hsettles.shows
  generalize hledger : l.change b.now errand = outcome at hshows
  obtain ⟨answer, l'⟩ := outcome
  cases hshows with
  | @ok _ v e hr =>
    obtain ⟨hnext, rfl, -⟩ := Ledger.change_ok herrand (congrArg Prod.fst hledger)
    refine ⟨hr.name, ?_⟩
    rw [Catalog.IsNext, h.latest, hr.name, hr.version]
    exact hnext

/-- **One request is answered as the ledger answers it.** -/
theorem Models.serve (h : b.Models l) (now : Time.Moment) (request : Request) :
    (b.serve now request).1.Follows (l.serve now request).1 ∧
      (b.serve now request).2.Models (l.serve now request).2 := by
  have hnow := h.at now
  cases request with
  | change errand => exact ⟨(hnow.change errand).shows, (hnow.change errand).models⟩
  | list =>
    refine ⟨⟨b.records.newest, rfl, h.records.pairwise_newest, fun row => ?_⟩, hnow⟩
    rw [h.records.mem_newest, h.latest]
  | retrieve name version =>
    have hrun := hnow.run_retrieve name version
    rw [Backend.serve, Backend.run, hrun]
    exact ⟨rfl, hnow⟩

theorem Models.serveAll (h : b.Models l) (requests : List (Time.Moment × Request)) :
    List.Forall₂ Reply.Follows (b.serveAll requests).1 (l.serveAll requests).1 ∧
      (b.serveAll requests).2.Models (l.serveAll requests).2 := by
  induction requests generalizing b l with
  | nil => exact ⟨List.Forall₂.nil, h⟩
  | cons timed requests ih =>
    obtain ⟨now, request⟩ := timed
    obtain ⟨hreply, hmodels⟩ := h.serve now request
    obtain ⟨hreplies, hend⟩ := ih hmodels
    exact ⟨List.Forall₂.cons hreply hreplies, hend⟩

/-- **Every run from a fresh backend is answered as the empty ledger answers it**,
and in the end the records and the files are those of the ledger, whatever tokens
are drawn, whatever the clock shows at each request and wherever the root is. -/
theorem answers_follow_ledger (tokens : Nat → Token) (start : Time.Moment) (root : Root)
    (requests : List (Time.Moment × Request)) :
    List.Forall₂ Reply.Follows ((fresh tokens start root).serveAll requests).1
        (Ledger.empty.serveAll requests).1 ∧
      ((fresh tokens start root).serveAll requests).2.Models (Ledger.empty.serveAll requests).2 :=
  (models_fresh tokens start root).serveAll requests

end Backend

end ScriptRegistry.Store
