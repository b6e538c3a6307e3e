/-
ScriptRegistry/Proofs/Correspondence.lean

The files below the root are those of the stored records.

What a backend models says where a text of a record stands, and that no file is
without a record.  Since the keys of different records lead to different paths,
the list of the files is that of the keys, each once (`Models.corresponds`); and
since the ledger tells the contents, a request that leaves the ledger and the
records as they are leaves the files as they are (`Models.files_perm`).

A command of a session is either idle or an errand, and an errand that fails is
no change of the ledger, so that nothing more has to be said about any single
way of failing.

Main result: `Service.session_corresponds`.
-/
import Mathlib.Data.List.Nodup
import ScriptRegistry.Proofs.Session

namespace ScriptRegistry.Store

open Artifact

/-! ### All records -/

namespace Catalog

/-- All records, shelf by shelf. -/
def all (c : Catalog) : List Record :=
  c.shelves.flatMap fun shelf => shelf.2.map (·.2)

variable {c : Catalog}

theorem mem_all_iff {r : Record} : r ∈ c.all ↔ c.Stored r := by
  simp only [all, Stored, List.mem_flatMap, List.mem_map]
  refine exists_congr fun e => and_congr_right fun _ => ⟨?_, ?_⟩
  · rintro ⟨⟨v, r⟩, hmem, rfl⟩
    exact ⟨v, hmem⟩
  · rintro ⟨v, hmem⟩
    exact ⟨(v, r), hmem, rfl⟩

/-- What is found is stored. -/
theorem stored_of_find? {name : AlgorithmName} {v : Version} {r : Record}
    (h : c.find? name (some v) = some r) : c.Stored r := by
  rw [find?_some, shelf] at h
  rcases hs : c.shelves.lookup name with - | s
  · rw [hs] at h
    cases h
  · rw [hs] at h
    exact ⟨(name, s), mem_of_lookup hs, v, mem_of_lookup h⟩

/-- No two records have the same name and the same version. -/
theorem Sound.pairwise_all (h : c.Sound) :
    c.all.Pairwise fun r r' => ¬ (r.name = r'.name ∧ r.version = r'.version) := by
  have hlabel : ∀ e ∈ c.shelves, ∀ f ∈ e.2, f.2.name = e.1 ∧ f.2.version = f.1 :=
    fun e he f hf => (h.shelves e he).labelled f hf
  refine List.pairwise_flatMap.mpr ⟨fun e he => ?_, ?_⟩
  · refine List.pairwise_map.mpr ((h.shelves e he).ascending.imp_of_mem ?_)
    rintro f f' hf hf' hlt ⟨-, hversion⟩
    rw [(hlabel e he f hf).2, (hlabel e he f' hf').2] at hversion
    exact strictTotal_version.ne hlt hversion
  · refine h.ascending.imp_of_mem fun {e e'} he he' hlt => ?_
    rintro _ hr _ hr' ⟨hname, -⟩
    obtain ⟨f, hf, rfl⟩ := List.mem_map.mp hr
    obtain ⟨f', hf', rfl⟩ := List.mem_map.mp hr'
    rw [(hlabel e he f hf).1, (hlabel e' he' f' hf').1] at hname
    exact strictTotal_name.ne hlt hname

end Catalog

/-! ### Files and keys -/

/-- A file is found under its path. -/
theorem FileTree.Sound.lookup_of_mem {t : FileTree} (h : t.Sound) {q : Path} {content : List UInt8}
    (hq : (q, content) ∈ t.files) : t.files.lookup q = some content := by
  obtain ⟨content', hlookup⟩ : ∃ content', t.files.lookup q = some content' := by
    rw [← Option.isSome_iff_exists, List.lookup_isSome_iff]
    exact ⟨(q, content), hq, beq_self_eq_true q⟩
  have heq := List.inj_on_of_nodup_map h.distinct (mem_of_lookup hlookup) hq rfl
  rw [hlookup, (Prod.mk.inj heq).2]

/-- A path written out is the key that leads there. -/
theorem render_freshPath (name : AlgorithmName) (version : Version) (role : Role) (token : Token) :
    (freshPath name version role token).render = (Key.fresh name version role token).text := by
  rw [← String.toList_inj, text_fresh, Path.render, String.toList_ofList]
  rfl

/-- The text of a key leads where the key leads. -/
theorem path_eq_of_leads {key key' : Key} {q q' : Path} (hlead : LeadsTo key q)
    (hlead' : LeadsTo key' q') (htext : key.text = key'.text) : q = q' := by
  obtain ⟨text⟩ := key
  obtain ⟨text'⟩ := key'
  obtain rfl : text = text' := htext
  obtain ⟨place, hplace, rfl, -⟩ := hlead
  obtain ⟨place', hplace', rfl, -⟩ := hlead'
  rw [hplace] at hplace'
  rw [Option.some.inj hplace']

variable {t t' : FileTree} {r : Record} {e : Entry}

/-- A text that is held stands where its key leads. -/
theorem FileTree.Holds.lookup {name : AlgorithmName} {version : Version} {role : Role}
    {ref : TextRef} {text : String} (h : t.Holds name version role ref text) {q : Path}
    (hlead : LeadsTo ref.key q) : t.files.lookup q = some (Text.encode text.toList) := by
  obtain ⟨token, rfl, hfile⟩ := h
  rw [leadsTo_fresh_iff.mp hlead, hfile]

/-- The entry behind a record tells what its files hold. -/
theorem FileTree.Keeps.lookup_eq (h : t.Keeps r e) (h' : t'.Keeps r e) {key : Key}
    (hkey : key ∈ r.keys) {q : Path} (hlead : LeadsTo key q) :
    ∃ content, t.files.lookup q = some content ∧ t'.files.lookup q = some content := by
  rcases List.mem_cons.mp hkey with rfl | hkey
  · exact ⟨_, h.main.lookup hlead, h'.main.lookup hlead⟩
  · rcases hp : r.privacy with - | p
    · rw [hp] at hkey
      cases hkey
    · have hheld := h.privacy
      have hheld' := h'.privacy
      rw [hp] at hheld hheld' hkey
      obtain rfl : key = p.artifact.key := List.mem_singleton.mp hkey
      obtain ⟨s, hs, hheld⟩ := exists_of_rel_some hheld
      obtain ⟨s', hs', hheld'⟩ := exists_of_rel_some hheld'
      obtain rfl := Option.some.inj (hs.symm.trans hs')
      exact ⟨_, hheld.lookup hlead, hheld'.lookup hlead⟩

/-- The keys of a record lead to different files. -/
theorem FileTree.Keeps.nodup_keys (h : t.Keeps r e) : r.keys.Nodup := by
  refine List.nodup_cons.mpr ⟨fun hmem => ?_, ?_⟩
  · rcases hp : r.privacy with - | p
    · rw [hp] at hmem
      cases hmem
    · have hheld := h.privacy
      rw [hp] at hheld hmem
      obtain ⟨s, -, token, href, -⟩ := exists_of_rel_some hheld
      obtain ⟨token', hmain, -⟩ := h.main
      have hsame : r.main.artifact.key = p.artifact.key := List.mem_singleton.mp hmem
      rw [hmain, href] at hsame
      -- one role would be the other
      have hpath : freshPath r.name r.version .main token'
          = freshPath r.name r.version .privacy token :=
        path_eq_of_leads (leadsTo_fresh_iff.mpr rfl) (leadsTo_fresh_iff.mpr rfl)
          (congrArg Key.text hsame)
      cases (freshPath_inj hpath).2.2.1
  · rcases r.privacy with - | p
    · exact List.nodup_nil
    · exact List.nodup_singleton _

namespace Backend

variable {b b' : Backend} {l : Ledger}

/-- The files below the root are those that the stored records refer to, each once. -/
structure Corresponds (b : Backend) : Prop where
  exact : b.files.listing.Perm (b.records.all.flatMap fun r => r.keys.map (·.text))
  once : b.files.listing.Nodup

/-- A key of a stored record leads to a file, which is listed under the key. -/
theorem Models.file_of_key (h : b.Models l) {r : Record} (hr : b.records.Stored r) {key : Key}
    (hkey : key ∈ r.keys) :
    ∃ role token content, key = Key.fresh r.name r.version role token ∧
      b.files.files.lookup (freshPath r.name r.version role token) = some content := by
  obtain ⟨e, -, -, hkeeps⟩ := h.entry (h.records.find?_of_stored hr)
  obtain ⟨role, token, rfl⟩ := hkeeps.fresh key hkey
  obtain ⟨content, hfile, -⟩ := hkeeps.lookup_eq hkeeps hkey (leadsTo_fresh_iff.mpr rfl)
  exact ⟨role, token, content, rfl, hfile⟩

/-- A file is listed under the key of a stored record that leads to it. -/
theorem Models.key_of_file (h : b.Models l) {q : Path} {content : List UInt8}
    (hq : (q, content) ∈ b.files.files) :
    ∃ r, b.records.Stored r ∧ ∃ key ∈ r.keys, LeadsTo key q ∧ q.render = key.text := by
  obtain ⟨r, hr, key, hkey, hlead⟩ := h.owned q content (h.files.sound.lookup_of_mem hq)
  have hstored := Catalog.stored_of_find? hr
  obtain ⟨role, token, -, rfl, -⟩ := h.file_of_key hstored hkey
  refine ⟨r, hstored, _, hkey, hlead, ?_⟩
  rw [leadsTo_fresh_iff.mp hlead, render_freshPath]

theorem Models.nodup_listing (h : b.Models l) : b.files.listing.Nodup := by
  refine List.Nodup.map_on ?_ (List.Nodup.of_map _ h.files.sound.distinct)
  rintro ⟨q, content⟩ hq ⟨q', content'⟩ hq' hrender
  obtain ⟨-, -, key, -, hlead, htext⟩ := h.key_of_file hq
  obtain ⟨-, -, key', -, hlead', htext'⟩ := h.key_of_file hq'
  obtain rfl : q = q' := path_eq_of_leads hlead hlead' (by rw [← htext, ← htext']; exact hrender)
  exact List.inj_on_of_nodup_map h.files.sound.distinct hq hq' rfl

theorem Models.nodup_keys (h : b.Models l) :
    (b.records.all.flatMap fun r => r.keys.map (·.text)).Nodup := by
  refine List.nodup_flatMap.mpr ⟨fun r hr => ?_, ?_⟩
  · obtain ⟨e, -, -, hkeeps⟩ := h.entry (h.records.find?_of_stored (Catalog.mem_all_iff.mp hr))
    refine hkeeps.nodup_keys.map fun key key' htext => ?_
    obtain ⟨text⟩ := key
    exact congrArg Key.mk htext
  · -- a common key would lead to files of two versions
    refine h.records.pairwise_all.imp_of_mem fun {r r'} hr hr' hdiffer text htext htext' => ?_
    obtain ⟨key, hkey, rfl⟩ := List.mem_map.mp htext
    obtain ⟨key', hkey', hsame⟩ := List.mem_map.mp htext'
    obtain ⟨role, token, -, rfl, -⟩ := h.file_of_key (Catalog.mem_all_iff.mp hr) hkey
    obtain ⟨role', token', -, rfl, -⟩ := h.file_of_key (Catalog.mem_all_iff.mp hr') hkey'
    have hpath := path_eq_of_leads (leadsTo_fresh_iff.mpr rfl) (leadsTo_fresh_iff.mpr rfl) hsame
    obtain ⟨hname, hversion, -⟩ := freshPath_inj hpath
    exact hdiffer ⟨hname.symm, hversion.symm⟩

/-- **A backend that models a ledger has exactly the files that its records refer to.** -/
theorem Models.corresponds (h : b.Models l) : b.Corresponds where
  once := h.nodup_listing
  exact := by
    refine (List.perm_ext_iff_of_nodup h.nodup_listing h.nodup_keys).mpr fun text => ?_
    constructor
    · intro htext
      obtain ⟨⟨q, content⟩, hq, rfl⟩ := List.mem_map.mp htext
      obtain ⟨r, hr, key, hkey, -, hrender⟩ := h.key_of_file hq
      exact List.mem_flatMap.mpr ⟨r, Catalog.mem_all_iff.mpr hr,
        List.mem_map.mpr ⟨key, hkey, hrender.symm⟩⟩
    · intro htext
      obtain ⟨r, hr, htext⟩ := List.mem_flatMap.mp htext
      obtain ⟨key, hkey, rfl⟩ := List.mem_map.mp htext
      obtain ⟨role, token, content, rfl, hfile⟩ :=
        h.file_of_key (Catalog.mem_all_iff.mp hr) hkey
      exact List.mem_map.mpr ⟨_, mem_of_lookup hfile, render_freshPath _ _ _ _⟩

/-- What stands in one of two backends with the same ledger and records stands in the
other. -/
theorem Models.lookup_of_models (h : b.Models l) (h' : b'.Models l)
    (hrecords : b'.records = b.records) {q : Path} {content : List UInt8}
    (hq : b.files.files.lookup q = some content) : b'.files.files.lookup q = some content := by
  obtain ⟨r, hr, key, hkey, hlead⟩ := h.owned q content hq
  obtain ⟨e, he, -, hkeeps⟩ := h.entry hr
  rw [← hrecords] at hr
  obtain ⟨e', he', -, hkeeps'⟩ := h'.entry hr
  obtain rfl := Option.some.inj (he.symm.trans he')
  obtain ⟨content', hfile, hfile'⟩ := hkeeps.lookup_eq hkeeps' hkey hlead
  rw [hfile', ← hq, hfile]

/-- **Ledger and records determine the files with their contents.** -/
theorem Models.files_perm (h : b.Models l) (h' : b'.Models l) (hrecords : b'.records = b.records) :
    b'.files.files.Perm b.files.files := by
  have hnodup := List.Nodup.of_map _ h.files.sound.distinct
  have hnodup' := List.Nodup.of_map _ h'.files.sound.distinct
  refine (List.perm_ext_iff_of_nodup hnodup' hnodup).mpr fun ⟨q, content⟩ => ?_
  constructor
  · intro hq
    exact mem_of_lookup
      (h'.lookup_of_models h hrecords.symm (h'.files.sound.lookup_of_mem hq))
  · intro hq
    exact mem_of_lookup (h.lookup_of_models h' hrecords (h.files.sound.lookup_of_mem hq))

/-- An errand that fails leaves the records and the ledger as they are. -/
theorem Models.change_error (h : b.Models l) {errand : Errand} {fault : StoreError}
    (hfault : (b.run errand.program).1 = .error fault) :
    (b.run errand.program).2.Models l ∧ (b.run errand.program).2.records = b.records := by
  obtain ⟨hshows, hmodels, hrecords⟩ := h.change errand
  rw [hfault] at hshows hrecords
  have hledger : (l.change b.now errand).1 = .error fault := by
    generalize (l.change b.now errand).1 = outcome at hshows
    cases hshows with
    | error => rfl
  rw [Ledger.change_error hledger] at hmodels
  exact ⟨hmodels, hrecords⟩

end Backend

end ScriptRegistry.Store

namespace ScriptRegistry.Web

open Store (Backend Ledger)

/-- Whether an answer is an error. -/
def Answer.isError : Answer → Bool
  | .record (.error _) => true
  | .listing (.error _) => true
  | .retrieved (.error _) => true
  | _ => false

variable {b : Backend} {l : Ledger}

/-- A command keeps to a ledger, and to the same one and the same records if it fails. -/
theorem models_attend (h : b.Models l) (settings : Settings) (now : Time.Moment)
    (command : Command) :
    ∃ l', ((Service.ofSettings settings).attend b now command).2.Models l' ∧
      (((Service.ofSettings settings).attend b now command).1.isError = true →
        l' = l ∧ ((Service.ofSettings settings).attend b now command).2.records = b.records) := by
  have hnow := h.at now
  have hcarried := carried_attend h settings now command
  generalize (Service.ofSettings settings).attend b now command = after at hcarried
  cases hcarried with
  | idle answer => exact ⟨l, hnow, fun _ => ⟨rfl, rfl⟩⟩
  | errand errand hdraft =>
    rcases hresult : (({ b with now := now } : Backend).run errand.program).1 with fault | r
    · obtain ⟨hmodels, hrecords⟩ := hnow.change_error hresult
      exact ⟨l, hmodels, fun _ => ⟨rfl, hrecords⟩⟩
    · exact ⟨_, (hnow.change errand).models, fun herror => by cases herror⟩

/-- **After every session on a fresh backend the files below the root are exactly those of
the stored records, each once, and a command that is answered with an error then
changes neither the records nor the files.** -/
theorem Service.session_corresponds (settings : Settings) (tokens : Nat → Artifact.Token)
    (start : Time.Moment) (root : Store.Root) (commands : List (Time.Moment × Command)) :
    let service := Service.ofSettings settings
    let b := (service.session (.fresh tokens start root) commands).2
    b.Corresponds ∧ ∀ now command, (service.attend b now command).1.isError = true →
      (service.attend b now command).2.records = b.records ∧
        (service.attend b now command).2.files.files.Perm b.files.files := by
  intro service b
  obtain ⟨l, hvouching⟩ := (Vouching.fresh settings tokens start root).session commands
  have h : b.Models l := hvouching.models
  refine ⟨h.corresponds, fun now command herror => ?_⟩
  obtain ⟨l', hmodels, hsame⟩ := models_attend h settings now command
  obtain ⟨rfl, hrecords⟩ := hsame herror
  exact ⟨hrecords, h.files_perm hmodels hrecords⟩

end ScriptRegistry.Web
