/-
ScriptRegistry/Proofs/Atomicity.lean

A retrieval while other clients do whole requests.

A retrieval finds a record and then reads its texts, one call after the other,
and nothing is locked.  Before each of its calls (`runAmid`) any requests of
others may be answered.  As long as the record is still stored when its texts are
read, the answer is the one that was right when the record was found.  A record
may be deleted in between: then its text is gone, its path stays free, since a new
record bears a new token, and the retrieval ends with an error that no retrieval
ends with when nobody else acts.

Main result: `retrieve_amid`.
-/
import ScriptRegistry.Proofs.Assignment
import ScriptRegistry.Proofs.Succession

namespace ScriptRegistry.Store

open Artifact

namespace Backend

variable {α β : Type} {b : Backend} {l : Ledger} {name : AlgorithmName} {version : Option Version}
  {others : Nat → List (Time.Moment × Request)}

/-! ### Programs among other clients -/

/-- Runs a program among other clients: before each of its calls, requests of others are
answered. -/
def runAmid : Program α → (Nat → List (Time.Moment × Request)) → Backend → α × Backend
  | .done a, _, b => (a, b)
  | .ask c next, others, b =>
    runAmid (next ((b.serveAll (others 0)).2.answer c).1) (fun n => others (n + 1))
      ((b.serveAll (others 0)).2.answer c).2

/-- What the calls of a program meet that changes nothing: the backend after all that the
others have done before the call. -/
def amid (b : Backend) (others : Nat → List (Time.Moment × Request)) : Nat → Backend
  | 0 => (b.serveAll (others 0)).2
  | n + 1 => ((b.amid others n).serveAll (others (n + 1))).2

/-- The answer of a retrieval when nobody else acts. -/
def retrieveAlone (b : Backend) (name : AlgorithmName) (version : Option Version) :
    Except StoreError Retrieved :=
  (b.run (retrieve name version).run).1

/-- The answer of a retrieval among other clients. -/
def retrieveAmid (b : Backend) (others : Nat → List (Time.Moment × Request))
    (name : AlgorithmName) (version : Option Version) : Except StoreError Retrieved :=
  (b.runAmid (retrieve name version).run others).1

/-- The first text of a record that is missed, if its texts are looked for one after the other
in two backends: the one that is read when the record is gone. -/
def lostKey? (r : Record) (b b' : Backend) : Option Key :=
  if b.Stores r then r.privacy.bind fun p => if b'.Stores r then none else some p.artifact.key
  else some r.main.artifact.key

/-- The first text that a retrieval reads when the record that it has found is gone. -/
def lost? (b : Backend) (others : Nat → List (Time.Moment × Request)) (name : AlgorithmName)
    (version : Option Version) : Option Key :=
  ((b.amid others 0).records.find? name version).bind fun r =>
    lostKey? r (b.amid others 1) (b.amid others 2)

/-! ### What a retrieval reads -/

/-- A text that was read is checked. -/
def checked (ref : TextRef) (found : Except StoreError String) : Except StoreError String := do
  let text ← found
  if Digest.ofText text = ref.digest then return text else throw (.digestMismatch ref.key)

/-- To read a text is one call, and what is read is checked. -/
theorem readIntact_eq (ref : TextRef) :
    readIntact ref = ExceptT.mk (.ask (.readText ref.key) fun found => .done (checked ref found)) := by
  apply congrArg (Program.ask (Call.readText ref.key))
  funext found
  rcases found with e | text
  · rfl
  · show (if _ then _ else _ : Operation String) = Program.done (if _ then _ else _)
    split
    · rfl
    · rfl

/-- A text as it is read and checked in a backend. -/
def reads (b : Backend) (ref : TextRef) : Except StoreError String :=
  checked ref (b.files.readText ref.key)

theorem run_readIntact_eq (b : Backend) (ref : TextRef) :
    Program.run answer (readIntact ref).run b = (b.reads ref, b) := by
  rw [readIntact_eq]
  rfl

/-- A record with its texts in place of the references. -/
def withTexts (r : Record) (code : String) (script : Option RetrievedPrivacy) : Retrieved :=
  ⟨r.name, r.version, r.description, ⟨code, r.main.className, r.main.reducer⟩, script, r.createdAt⟩

/-- What is answered from a record that was found and the texts that are read for it. -/
def assembled (name : AlgorithmName) (version : Option Version) (found : Option Record)
    (main privacy : TextRef → Except StoreError String) : Except StoreError Retrieved :=
  match found with
  | none => .error (absence name version)
  | some r => (main r.main.artifact).bind fun code =>
    match r.privacy with
    | none => .ok (withTexts r code none)
    | some p => (privacy p.artifact).bind fun text =>
      .ok (withTexts r code (some ⟨text, p.className⟩))

/-- **A retrieval answers from what its calls meet.** -/
theorem retrieveAmid_eq (b : Backend) (others : Nat → List (Time.Moment × Request))
    (name : AlgorithmName) (version : Option Version) :
    b.retrieveAmid others name version
      = assembled name version ((b.amid others 0).records.find? name version)
          (b.amid others 1).reads (b.amid others 2).reads := by
  rw [retrieveAmid, retrieve]
  simp only [readIntact_eq]
  -- each call is answered, and what follows is opened once its answer is known
  show (runAmid (ExceptT.bindCont _ (.ok ((b.amid others 0).records.find? name version))) _ _).1 = _
  rcases (b.amid others 0).records.find? name version with - | r
  · rfl
  · show (runAmid (ExceptT.bindCont _ ((b.amid others 1).reads r.main.artifact)) _ _).1
      = ((b.amid others 1).reads r.main.artifact).bind _
    rcases (b.amid others 1).reads r.main.artifact with e | code
    · rfl
    · rcases r.privacy with - | p
      · rfl
      · simp only [Except.bind]
        show (runAmid (Program.bind (ExceptT.bindCont _ ((b.amid others 2).reads p.artifact)) _)
          _ _).1 = ((b.amid others 2).reads p.artifact).bind _
        rcases (b.amid others 2).reads p.artifact with e | text
        · rfl
        · rfl

/-! ### Nobody else -/

/-- Where nobody else does anything, a program runs by itself. -/
theorem runAmid_nobody (p : Program α) (b : Backend) : b.runAmid p (fun _ => []) = b.run p := by
  induction p generalizing b with
  | done a => rfl
  | ask c next ih => exact ih _ _

theorem amid_nobody (b : Backend) (n : Nat) : b.amid (fun _ => []) n = b := by
  induction n with
  | zero => rfl
  | succ n ih =>
    show ((b.amid (fun _ => []) n).serveAll []).2 = b
    exact ih

theorem retrieveAlone_eq (b : Backend) (name : AlgorithmName) (version : Option Version) :
    b.retrieveAlone name version
      = assembled name version (b.records.find? name version) b.reads b.reads := by
  have hnobody := retrieveAmid_eq b (fun _ => []) name version
  rw [retrieveAmid, runAmid_nobody] at hnobody
  simp only [amid_nobody] at hnobody
  exact hnobody

end Backend

/-! ### Texts that stay and texts that go -/

/-- The text of a reference of a record is told by the entry, whatever tree keeps it. -/
theorem FileTree.Keeps.exists_holds {t : FileTree} {r : Record} {e : Entry} (h : t.Keeps r e)
    {ref : TextRef} (href : ref ∈ r.refs) :
    ∃ role text, ∀ t' : FileTree, t'.Keeps r e → t'.Holds r.name r.version role ref text := by
  rcases List.mem_cons.mp href with rfl | href
  · exact ⟨.main, e.draft.main.source, fun t' h' => h'.main⟩
  · rcases hp : r.privacy with - | p
    · rw [hp] at href
      cases href
    · rw [hp] at href
      obtain rfl : ref = p.artifact := List.mem_singleton.mp href
      have hscript := h.privacy
      rw [hp] at hscript
      obtain ⟨script, hs, -⟩ := exists_of_rel_some hscript
      refine ⟨.privacy, script.source, fun t' h' => ?_⟩
      have hscript' := h'.privacy
      rw [hp] at hscript'
      obtain ⟨script', hs', hheld⟩ := exists_of_rel_some hscript'
      rw [hs] at hs'
      obtain rfl := Option.some.inj hs'
      exact hheld

namespace Backend

variable {b : Backend} {l : Ledger}

/-- **A text of a record is read later as it is read now, if the record is still stored, and is
missing if it is not.** -/
theorem Models.reads_later (h : b.Models l) (hmarked : b.Marked) {r : Record} (hr : b.Stores r)
    (requests : List (Time.Moment × Request)) (hdistinct : (b.serveAll requests).2.Distinct)
    {ref : TextRef} (href : ref ∈ r.refs) :
    ∃ text, b.reads ref = .ok text ∧ (b.serveAll requests).2.reads ref =
      if (b.serveAll requests).2.Stores r then .ok text
      else .error (.artifactNotFound ref.key) := by
  have hlater := h.later_serveAll requests
  have hend := (h.serveAll requests).2
  obtain ⟨e, he, -, hkeeps⟩ := h.entry hr
  obtain ⟨role, text, hholds⟩ := hkeeps.exists_holds href
  have hread : ∀ {b' : Backend} {l' : Ledger}, b'.Models l' → b'.files.Keeps r e →
      b'.reads ref = .ok text := by
    intro b' l' h' hkeeps'
    have hrun := run_readIntact h'.files (hholds _ hkeeps')
    rw [run_readIntact_eq] at hrun
    exact congrArg Prod.fst hrun
  refine ⟨text, hread h hkeeps, ?_⟩
  split
  · next hstays =>
    obtain ⟨e', he', -, hkeeps'⟩ := hend.entry hstays
    rw [h.find?_serveAll hmarked hr he requests hdistinct hstays] at he'
    cases he'
    exact hread hend hkeeps'
  · next hgone =>
    obtain ⟨token, rfl, hfile⟩ := hholds _ hkeeps
    have hkey : Key.fresh r.name r.version role token ∈ r.keys := by
      rw [Record.keys_eq]
      exact List.mem_map_of_mem (f := (·.key)) href
    have hfree := hlater.lookup_of_gone h hend hmarked hdistinct hr hgone hkey
      (leadsTo_fresh_iff.mpr rfl)
    have hshort := h.files.sound.isTooLong_of_lookup hfile
    rw [reads, hend.files.readText_of_free hshort hfree]
    rfl

/-! ### The answer -/

/-- What a found record is answered with: all of it if it stays, and else an error. -/
theorem Models.assembled_later (h : b.Models l) (hmarked : b.Marked) {r : Record}
    (hr : b.Stores r) {b₁ b₂ : Backend} {first second : List (Time.Moment × Request)}
    (h₁ : (b.serveAll first).2 = b₁) (h₂ : (b₁.serveAll second).2 = b₂) (hdistinct : b₂.Distinct)
    (name : AlgorithmName) (version : Option Version) :
    assembled name version (some r) b₁.reads b₂.reads
      = match lostKey? r b₁ b₂ with
        | none => assembled name version (some r) b.reads b.reads
        | some key => .error (.artifactNotFound key) := by
  have hb₂ : (b.serveAll (first ++ second)).2 = b₂ := by
    rw [serveAll_append, h₁, h₂]
  have hmodels₁ : ∃ l', b₁.Models l' := h₁ ▸ ⟨_, (h.serveAll first).2⟩
  obtain ⟨l₁, hmodels₁⟩ := hmodels₁
  have hdistinct₁ : b₁.Distinct := hdistinct.earlier (h₂ ▸ hmodels₁.later_serveAll second)
  have hcoderef : r.main.artifact ∈ r.refs := List.mem_cons_self
  obtain ⟨code, hcode, hmain⟩ := h.reads_later hmarked hr first (h₁ ▸ hdistinct₁) hcoderef
  rw [h₁] at hmain
  simp only [assembled, lostKey?, hcode, hmain]
  by_cases hthere : b₁.Stores r
  · rw [if_pos hthere, if_pos hthere]
    rcases hp : r.privacy with - | p
    · rfl
    · have href : p.artifact ∈ r.refs := by
        rw [Record.refs, hp]
        exact List.mem_cons_of_mem _ (List.mem_singleton.mpr rfl)
      obtain ⟨text, htext, hscript⟩ :=
        h.reads_later hmarked hr (first ++ second) (hb₂ ▸ hdistinct) href
      rw [hb₂] at hscript
      simp only [Option.bind_some, htext, hscript]
      by_cases hthere' : b₂.Stores r
      · rw [if_pos hthere', if_pos hthere']
      · rw [if_neg hthere', if_neg hthere']
        rfl
  · rw [if_neg hthere, if_neg hthere]
    rfl

/-- What a retrieval is answered with: the answer of the moment at which the record was found,
or an error for a text that is gone. -/
theorem Models.retrieveAmid_cases (h : b.Models l) (hmarked : b.Marked)
    {others : Nat → List (Time.Moment × Request)} (hdistinct : (b.amid others 2).Distinct)
    (name : AlgorithmName) (version : Option Version) :
    b.retrieveAmid others name version
      = match b.lost? others name version with
        | none => (b.amid others 0).retrieveAlone name version
        | some key => .error (.artifactNotFound key) := by
  have hfound : ∃ l', (b.amid others 0).Models l' := ⟨_, (h.serveAll (others 0)).2⟩
  obtain ⟨l₀, h₀⟩ := hfound
  have hmarked₀ : (b.amid others 0).Marked := hmarked.later (h.later_serveAll (others 0))
  rw [retrieveAmid_eq, retrieveAlone_eq, lost?]
  rcases hr : (b.amid others 0).records.find? name version with - | r
  · rfl
  · have hstored : (b.amid others 0).Stores r := by
      obtain ⟨hname, hstored⟩ := h₀.records.labelled hr
      rw [Stores, hname]
      exact hstored
    exact h₀.assembled_later hmarked₀ hstored rfl rfl hdistinct name version

/-- A retrieval by itself is answered with all of a record, or told that there is none. -/
theorem Models.retrieveAlone_cases (h : b.Models l) (name : AlgorithmName)
    (version : Option Version) :
    (∃ found, b.retrieveAlone name version = .ok found) ∨
      b.retrieveAlone name version = .error (absence name version) := by
  have hrun : b.retrieveAlone name version = _ := congrArg Prod.fst (h.run_retrieve name version)
  rw [hrun]
  rcases h.seek name version with ⟨-, hseek⟩ | ⟨r, e, -, hseek, -⟩
  · rw [hseek]
    exact Or.inr rfl
  · rw [hseek]
    exact Or.inl ⟨_, rfl⟩

/-- No retrieval by itself misses a text. -/
theorem Models.retrieveAlone_ne_artifactNotFound (h : b.Models l) (name : AlgorithmName)
    (version : Option Version) (key : Key) :
    b.retrieveAlone name version ≠ .error (.artifactNotFound key) := by
  intro heq
  rcases h.retrieveAlone_cases name version with ⟨found, hok⟩ | habsent
  · rw [hok] at heq
    cases heq
  · rw [habsent] at heq
    cases version with
    | none => cases heq
    | some v => cases heq

/-- **A retrieval among other clients is answered as if nobody else acted when its record is
found, as long as the record is still stored when its texts are read; and else with an error
for the first text that is gone.**  So it is answered as at some moment exactly if no text is
gone; and at every moment the answer is all of a record, or that there is none. -/
theorem retrieve_amid (tokens : Nat → Token) (start : Time.Moment) (root : Root)
    (before : List (Time.Moment × Request)) (others : Nat → List (Time.Moment × Request))
    (name : AlgorithmName) (version : Option Version)
    (hdistinct : (((fresh tokens start root).serveAll before).2.amid others 2).Distinct) :
    let b := ((fresh tokens start root).serveAll before).2
    (b.lost? others name version = none →
      b.retrieveAmid others name version = (b.amid others 0).retrieveAlone name version) ∧
    (∀ key, b.lost? others name version = some key →
      b.retrieveAmid others name version = .error (.artifactNotFound key)) ∧
    (b.lost? others name version = none ↔ ∃ requests,
      b.retrieveAmid others name version = (b.serveAll requests).2.retrieveAlone name version) ∧
    ∀ requests, (∃ found, (b.serveAll requests).2.retrieveAlone name version = .ok found) ∨
      (b.serveAll requests).2.retrieveAlone name version = .error (absence name version) := by
  intro b
  have h := ((models_fresh tokens start root).serveAll before).2
  have hmarked : b.Marked :=
    marked_of_later ((models_fresh tokens start root).later_serveAll before)
  have hcases := h.retrieveAmid_cases hmarked hdistinct name version
  have hnone : b.lost? others name version = none →
      b.retrieveAmid others name version = (b.amid others 0).retrieveAlone name version := by
    intro hlost
    rw [hcases, hlost]
  have hsome : ∀ key, b.lost? others name version = some key →
      b.retrieveAmid others name version = .error (.artifactNotFound key) := by
    intro key hlost
    rw [hcases, hlost]
  refine ⟨hnone, hsome, ⟨fun hlost => ⟨others 0, hnone hlost⟩, ?_⟩, fun requests => ?_⟩
  · rintro ⟨requests, heq⟩
    rcases hlost : b.lost? others name version with - | key
    · rfl
    · rw [hsome key hlost] at heq
      exact absurd heq.symm
        ((h.serveAll requests).2.retrieveAlone_ne_artifactNotFound name version key)
  · exact (h.serveAll requests).2.retrieveAlone_cases name version

/-- The only version of the mean is stored. -/
def meanCreated : List (Time.Moment × Request) :=
  [(.epoch, .change (.create ⟨mean, "A mean.", ⟨"pass", "Mean", .sum⟩, none⟩))]

/-- Somebody deletes the mean right after it has been found. -/
def deletedOnceFound : Nat → List (Time.Moment × Request)
  | 1 => [(.epoch, .change (.delete mean none))]
  | _ => []

/-- The key under which the text of the mean was stored. -/
def meanKey : Key :=
  .fresh mean .first .main (.ofNat 0)

/-- The mean is deleted before its text is read. -/
theorem retrieve_amid_mean :
    let b := ((fresh Token.ofNat .epoch).serveAll meanCreated).2
    (b.amid deletedOnceFound 2).Distinct ∧ b.lost? deletedOnceFound mean none = some meanKey ∧
      b.retrieveAmid deletedOnceFound mean none = .error (.artifactNotFound meanKey) := by
  intro b
  have hdistinct : (b.amid deletedOnceFound 2).Distinct := by
    -- only one token was drawn
    have hdrawn : (b.amid deletedOnceFound 2).drawn = 1 := by
      decide +kernel
    intro i hi j hj _
    omega
  have hlost : b.lost? deletedOnceFound mean none = some meanKey := by
    decide +kernel
  exact ⟨hdistinct, hlost,
    (retrieve_amid Token.ofNat .epoch .here meanCreated deletedOnceFound mean none hdistinct).2.1
      meanKey hlost⟩

/-- A retrieval among other clients is answered with an error that it is never answered with
when nobody else acts, whatever was done before. -/
theorem retrieve_amid_misses :
    let b := ((fresh Token.ofNat .epoch).serveAll meanCreated).2
    b.retrieveAmid deletedOnceFound mean none = .error (.artifactNotFound meanKey) ∧
      ∀ requests, (b.serveAll requests).2.retrieveAlone mean none
        ≠ b.retrieveAmid deletedOnceFound mean none := by
  intro b
  have hmissed : b.retrieveAmid deletedOnceFound mean none = .error (.artifactNotFound meanKey) := by
    decide +kernel
  refine ⟨hmissed, fun requests => ?_⟩
  rw [hmissed]
  have h := ((models_fresh Token.ofNat .epoch .here).serveAll meanCreated).2
  exact (h.serveAll requests).2.retrieveAlone_ne_artifactNotFound mean none meanKey

end Backend

end ScriptRegistry.Store
