/-
ScriptRegistry/Proofs/Backend.lean

What the parts of operations do on a backend.

One equation a part: from what the tree of files answers to the result and the
backend that is left.  Operations are put together from these by the equations
of `Program`; none of them is opened again.

Main results: `run_writeScript`, `writePrivacy_of_free`, `run_dropTexts` and
`run_readIntact`.
-/
import ScriptRegistry.Proofs.Program
import ScriptRegistry.Proofs.Texts
import ScriptRegistry.Store.Backend

namespace ScriptRegistry.Store

open Artifact

namespace Backend

variable {b : Backend}

theorem answer_writeText {key : Key} {text : String} {result : Except StoreError Unit}
    {files : FileTree} (h : b.files.writeText key text = (result, files)) :
    b.answer (.writeText key text) = (result, { b with files := files }) := by
  rw [answer, h]

theorem answer_removeText {key : Key} {result : Except StoreError Unit} {files : FileTree}
    (h : b.files.removeText key = (result, files)) :
    b.answer (.removeText key) = (result, { b with files := files }) := by
  rw [answer, h]

theorem run_enroll {r : Record} {expected : Option Version} {result : Except StoreError Unit}
    {records : Catalog} (h : b.records.enroll r expected = (result, records)) :
    Program.run answer (enroll r expected).run b = (result, { b with records := records }) := by
  show b.answer (.enroll r expected) = _
  rw [answer, h]

theorem run_remove {name : AlgorithmName} {version : Option Version} {found : Option Record}
    {records : Catalog} (h : b.records.remove name version = (found, records)) :
    Program.run answer (remove name version).run b
      = (.ok found, { b with records := records }) := by
  show b.answer (.remove name version) = _
  rw [answer, h]

/-- A text is written under a key with the next token. -/
theorem run_writeScript {name : AlgorithmName} {version : Version} {role : Role} {source : String}
    {result : Except StoreError Unit} {files : FileTree}
    (h : b.files.writeText (Key.fresh name version role (b.tokens b.drawn)) source
      = (result, files)) :
    Program.run answer (writeScript name version role source).run b
      = (result.map fun _ =>
            ⟨Key.fresh name version role (b.tokens b.drawn), .ofText source⟩,
          { b with files := files, drawn := b.drawn + 1 }) := by
  have hdraw : Program.run answer (ExceptT.lift (Program.call .drawToken) :
      Operation Token).run b = (.ok (b.tokens b.drawn), { b with drawn := b.drawn + 1 }) := rfl
  have hwrite : Program.run answer (ExceptT.mk (Program.call (.writeText
        (Key.fresh name version role (b.tokens b.drawn)) source)) : Operation Unit).run
      { b with drawn := b.drawn + 1 }
      = (result, { b with files := files, drawn := b.drawn + 1 }) :=
    answer_writeText (b := { b with drawn := b.drawn + 1 }) h
  rw [writeScript, Program.run_bind_ok hdraw]
  rcases result with e | u
  · rw [Program.run_bind_error hwrite]
    rfl
  · rw [Program.run_bind_ok hwrite]
    rfl

/-- Texts are dropped one by one; what is not there is passed over. -/
theorem run_dropTexts (h : b.files.Tidy) {keys : List Key}
    (hkeys : ∀ key ∈ keys, ∃ name version role token, key = Key.fresh name version role token) :
    ∃ files, files.Tidy ∧
      (∀ q, (∃ key ∈ keys, LeadsTo key q) → files.files.lookup q = none) ∧
      (∀ q, (∀ key ∈ keys, ¬ LeadsTo key q) → files.files.lookup q = b.files.files.lookup q) ∧
      Program.run answer (dropTexts keys).run b = (.ok (), { b with files := files }) := by
  induction keys generalizing b with
  | nil =>
    refine ⟨b.files, h, ?_, fun q _ => rfl, rfl⟩
    rintro q ⟨key, hkey, -⟩
    cases hkey
  | cons key keys ih =>
    obtain ⟨name, version, role, token, rfl⟩ := hkeys key List.mem_cons_self
    obtain ⟨result, t, hremove, htidy, hlookup⟩ := h.removeText_fresh name version role token
    have hcall : Program.run answer (ExceptT.lift (Program.call (.removeText
          (Key.fresh name version role token))) : Operation (Except StoreError Unit)).run b
        = (.ok result, { b with files := t }) := by
      rw [Program.run_lift]
      show (Except.ok (b.answer _).1, (b.answer _).2) = _
      rw [answer_removeText hremove]
    obtain ⟨files, hfiles, hgone, hstay, hrun⟩ := ih (b := { b with files := t }) htidy
      fun k hk => hkeys k (List.mem_cons_of_mem _ hk)
    refine ⟨files, hfiles, fun q hq => ?_, fun q hq => ?_, ?_⟩
    · -- a path is freed by the last key that leads to it
      by_cases hrest : ∃ key ∈ keys, LeadsTo key q
      · exact hgone q hrest
      · obtain ⟨k, hk, hlead⟩ := hq
        rcases List.mem_cons.mp hk with rfl | hk
        · rw [hstay q fun k hk hlead => hrest ⟨k, hk, hlead⟩]
          exact (hlookup q).trans (if_pos (leadsTo_fresh_iff.mp hlead))
        · exact absurd ⟨k, hk, hlead⟩ hrest
    · rw [hstay q fun k hk => hq k (List.mem_cons_of_mem _ hk)]
      have hne : q ≠ freshPath name version role token :=
        fun heq => hq _ List.mem_cons_self (leadsTo_fresh_iff.mpr heq)
      exact (hlookup q).trans (if_neg hne)
    · rw [dropTexts, Program.run_bind_ok hcall]
      exact hrun

/-- A text that is held passes the check of its digest. -/
theorem run_readIntact (h : b.files.Tidy) {name : AlgorithmName} {version : Version} {role : Role}
    {ref : TextRef} {text : String} (hheld : b.files.Holds name version role ref text) :
    Program.run answer (readIntact ref).run b = (.ok text, b) := by
  have hread : Program.run answer (ExceptT.mk (Program.call (.readText ref.key)) :
      Operation String).run b = (.ok text, b) := by
    show (b.files.readText ref.key, b) = _
    rw [h.readText_of_holds hheld]
  have hdigest : Digest.ofText text = ref.digest := by
    obtain ⟨token, rfl, -⟩ := hheld
    rfl
  rw [readIntact, Program.run_bind_ok hread, if_pos hdigest]
  rfl

/-- Where its paths are free, the privacy script of a draft is stored. -/
theorem writePrivacy_of_free (h : b.files.Tidy) (draft : Draft) {version : Version} (main : TextRef)
    (hshort : isTooLong draft.name.text.toList = false)
    (hfree : ∀ token,
      b.files.files.lookup (freshPath draft.name version .privacy token) = none) :
    ∃ privacy files drawn, files.Tidy ∧
      Option.Rel (fun (p : RecordPrivacy) (s : PrivacyScript) => p.className = s.className ∧
        files.Holds draft.name version .privacy p.artifact s.source) privacy draft.privacy ∧
      (∀ q content, b.files.files.lookup q = some content →
        files.files.lookup q = some content) ∧
      (∀ q content, files.files.lookup q = some content →
        b.files.files.lookup q = some content ∨
          ∃ p, privacy = some p ∧ LeadsTo p.artifact.key q) ∧
      Program.run answer (writePrivacy draft version main).run b
        = (.ok privacy, { b with files := files, drawn := drawn }) := by
  rcases hscript : draft.privacy with - | script
  · refine ⟨none, b.files, b.drawn, h, Option.Rel.none, fun q content hq => hq,
      fun q content hq => Or.inl hq, ?_⟩
    rw [writePrivacy, hscript]
    rfl
  · rcases h.writeText_cases (hfree (b.tokens b.drawn)) script.source with
      ⟨hlong, -⟩ | ⟨-, files, htidy, hlookup, hwrite⟩
    · rw [hshort] at hlong
      cases hlong
    · refine ⟨some ⟨⟨Key.fresh draft.name version .privacy (b.tokens b.drawn),
          .ofText script.source⟩, script.className⟩, files, b.drawn + 1, htidy,
        Option.Rel.some ⟨rfl, b.tokens b.drawn, rfl, ?_⟩, fun q content hq => ?_,
        fun q content hq => ?_, ?_⟩
      · rw [hlookup, if_pos rfl]
      · rw [hlookup, if_neg, hq]
        -- an old file cannot stand at a path that was free
        rintro rfl
        rw [hfree] at hq
        cases hq
      · rw [hlookup] at hq
        split at hq
        · next heq => exact Or.inr ⟨_, rfl, leadsTo_fresh_iff.mpr heq⟩
        · exact Or.inl hq
      · have hrun := Program.run_bind_ok (run_writeScript hwrite)
          fun ref => (pure (some ⟨ref, script.className⟩) : Operation (Option RecordPrivacy))
        rw [writePrivacy, hscript]
        exact Program.run_catch_ok hrun _

end Backend

end ScriptRegistry.Store
