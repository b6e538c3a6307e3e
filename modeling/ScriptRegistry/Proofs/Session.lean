/-
ScriptRegistry/Proofs/Session.lean

What is stored after a session of a service.

A session is any list of commands, each with its time; it leaves a log of the
commands with their answers and a backend.  The invariant (`Vouching`) follows
the session beside the ledger of the store: behind every stored record stands
an entry whose draft keeps the standards, and an exchange in the log by which
the record was answered to the body that the draft is from.  The texts of the
record are then those of the draft, since the backend models the ledger.

Main result: `Service.session_vouched`.
-/
import ScriptRegistry.Proofs.Refinement
import ScriptRegistry.Proofs.Vetting

namespace ScriptRegistry.Web

open Validation
open Store (Backend Catalog Entry Errand FileTree Ledger Program)
open Store.Backend (Models Settles)

/-! ### Sessions -/

/-- What a client asks a service for. -/
inductive Command
  | create (body : Json.Document)
  | update (body : Json.Document)
  | list
  | retrieve (name : String) (version : Option Nat)
  | delete (name : String) (version : Option Nat)

/-- What a service answers. -/
inductive Answer
  | record (result : Except Failure Record)
  | listing (result : Except Failure (List Latest))
  | retrieved (result : Except Failure Retrieved)

/-- A command with its answer. -/
structure Exchange where
  command : Command
  answer : Answer

/-- The body of a command to create or update an algorithm. -/
def Command.body? : Command → Option Json.Document
  | .create body => some body
  | .update body => some body
  | .list => none
  | .retrieve _ _ => none
  | .delete _ _ => none

/-- Runs a job at a time. -/
def runAt {α : Type} (b : Backend) (now : Time.Moment) (job : Job α) : Except Failure α × Backend :=
  ({ b with now := now } : Backend).run job.run

namespace Service

/-- Carries out a command at a time. -/
def attend (s : Service) (b : Backend) (now : Time.Moment) : Command → Answer × Backend
  | .create body => (runAt b now (s.create body.value)).map .record id
  | .update body => (runAt b now (s.update body.value)).map .record id
  | .list => (runAt b now s.list).map .listing id
  | .retrieve name version => (runAt b now (s.retrieve name version)).map .retrieved id
  | .delete name version => (runAt b now (s.delete name version)).map .record id

/-- Carries out commands one after the other, each at its time. -/
def session (s : Service) : Backend → List (Time.Moment × Command) → List Exchange × Backend
  | b, [] => ([], b)
  | b, (now, command) :: rest =>
    (⟨command, (s.attend b now command).1⟩ :: (s.session (s.attend b now command).2 rest).1,
      (s.session (s.attend b now command).2 rest).2)

end Service

/-! ### What is vouched for -/

/-- The record was answered to a request with a body that the draft is from. -/
def Origin (settings : Settings) (log : List Exchange) (r : Record) (d : Draft) : Prop :=
  ∃ exchange ∈ log, exchange.answer = .record (.ok r) ∧
    ∃ body, exchange.command.body? = some body ∧ d.From settings.accessKey body.value

/-- A stored record keeps the standards, and so did the body that it was made of. -/
structure Vouched (settings : Settings) (log : List Exchange) (files : FileTree) (r : Record) :
    Prop where
  slug : isSlug r.name.text = true
  description : r.description ≠ ""
  main : ∃ text, files.readText r.main.artifact.key = .ok text ∧
    Source.violations text.toList settings.standards.main r.main.className = []
  privacy : ∀ p, r.privacy = some p → ∃ text, files.readText p.artifact.key = .ok text ∧
    Source.violations text.toList settings.standards.privacy p.className = []
  origin : ∃ exchange ∈ log, exchange.answer = .record (.ok r) ∧
    ∃ body, exchange.command.body? = some body ∧
      (r.privacy.isSome ↔ (body.value.field? privacyField).isSome) ∧
      ∀ block, body.value.field? privacyField = some block →
        block.field? "key" = some (.string settings.accessKey.secret)

/-- The ledger of a session, with a draft behind every record. -/
structure Vouching (settings : Settings) (log : List Exchange) (b : Backend) (l : Ledger) :
    Prop where
  models : b.Models l
  origins : ∀ r e, b.records.find? r.name (some r.version) = some r →
    l.find? r.name r.version = some e → e.draft.Passes settings.standards ∧
      Origin settings log r e.draft

variable {settings : Settings} {log : List Exchange} {b : Backend} {l : Ledger}

theorem Origin.mono {log' : List Exchange} {r : Record} {d : Draft}
    (h : Origin settings log r d) (hlog : ∀ exchange ∈ log, exchange ∈ log') :
    Origin settings log' r d := by
  obtain ⟨exchange, hmem, hrest⟩ := h
  exact ⟨exchange, hlog exchange hmem, hrest⟩

theorem Vouching.at (h : Vouching settings log b l) (now : Time.Moment) :
    Vouching settings log { b with now := now } l :=
  ⟨h.models.at now, h.origins⟩

/-- A longer log vouches for the same records. -/
theorem Vouching.append (h : Vouching settings log b l) (exchange : Exchange) :
    Vouching settings (log ++ [exchange]) b l where
  models := h.models
  origins r e hr he := by
    obtain ⟨hpasses, horigin⟩ := h.origins r e hr he
    exact ⟨hpasses, horigin.mono fun _ => List.mem_append_left _⟩

/-- An exchange by which a draft is stored, or fails to be. -/
theorem Vouching.store (h : Vouching settings log b l) (errand : Errand) {d : Draft}
    (herrand : errand.draft? = some d) (hpasses : d.Passes settings.standards)
    {result : Except StoreError Record} {b' : Backend}
    (hsettles : b.Settles b.records.add (l.change b.now errand) (result, b'))
    {exchange : Exchange} {body : Json.Document} (hbody : exchange.command.body? = some body)
    (hfrom : d.From settings.accessKey body.value)
    (hanswer : exchange.answer = .record (result.mapError .store)) :
    Vouching settings (log ++ [exchange]) b' (l.change b.now errand).2 where
  models := hsettles.models
  origins r e hr he := by
    have hshows := hsettles.shows
    have hrecords := hsettles.records
    generalize hledger : l.change b.now errand = outcome at hshows he
    obtain ⟨answer, l'⟩ := outcome
    have hfirst : (l.change b.now errand).1 = answer := congrArg Prod.fst hledger
    have hsecond : (l.change b.now errand).2 = l' := congrArg Prod.snd hledger
    rcases hshows with @⟨r₀, v, e₀, hr₀⟩ | fault
    · obtain ⟨-, rfl, hset⟩ := Ledger.change_ok herrand hfirst
      have hrecords : b'.records = b.records.add r₀ := hrecords
      obtain ⟨-, hnext⟩ := hsettles.isNext h.models herrand
      rw [hrecords, Catalog.find?_add h.models.records hnext] at hr
      have he : l'.find? r.name r.version = some e := he
      rw [← hsecond, hset, Ledger.find?_set_cons] at he
      by_cases hnew : r.name = r₀.name ∧ r.version = r₀.version
      · -- the new record is the one that was answered
        rw [if_pos hnew] at hr
        cases hr
        rw [if_pos ⟨hr₀.name, hr₀.version⟩] at he
        cases he
        exact ⟨hpasses, exchange, List.mem_append_right _ (List.mem_singleton.mpr rfl), hanswer,
          body, hbody, hfrom⟩
      · rw [if_neg hnew] at hr
        rw [if_neg fun hb => hnew ⟨hb.1.trans hr₀.name.symm, hb.2.trans hr₀.version.symm⟩] at he
        exact (h.append exchange).origins r e hr he
    · have hrecords : b'.records = b.records := hrecords
      rw [hrecords] at hr
      have he : l'.find? r.name r.version = some e := he
      rw [← hsecond, Ledger.change_error hfirst] at he
      exact (h.append exchange).origins r e hr he

/-- Records and entries that are left after a removal were there before. -/
theorem Vouching.remove (h : Vouching settings log b l) {name : AlgorithmName}
    {version : Option Version} {result : Except StoreError Record} {b' : Backend}
    (hsettles : b.Settles (fun r => b.records.drop r.name r.version)
      (l.change b.now (.delete name version)) (result, b')) :
    Vouching settings log b' (l.change b.now (.delete name version)).2 where
  models := hsettles.models
  origins r e hr he := by
    refine h.origins r e ?_ (Ledger.find?_change_delete he)
    have hrecords := hsettles.records
    rcases result with fault | r₀
    · have hrecords : b'.records = b.records := hrecords
      rw [hrecords] at hr
      exact hr
    · have hrecords : b'.records = b.records.drop r₀.name r₀.version := hrecords
      rw [hrecords, Catalog.find?_drop] at hr
      split at hr
      · cases hr
      · exact hr

/-! ### One command -/

/-- The listing is given without a change. -/
theorem run_list (b : Backend) (settings : Settings) :
    ∃ result, b.run (Service.ofSettings settings).list.run = (result, b) := by
  obtain ⟨result, hjudge, -⟩ := run_judged b settings (.plain .list)
  rcases result with failure | ⟨⟩
  · exact ⟨_, Program.run_bind_error hjudge _⟩
  · exact ⟨_, Program.run_bind_ok hjudge _⟩

/-- An algorithm is retrieved without a change. -/
theorem run_retrieve (h : b.Models l) (settings : Settings) (name : String)
    (version : Option Nat) :
    ∃ result, b.run ((Service.ofSettings settings).retrieve name version).run = (result, b) := by
  obtain ⟨result, hlocate, -⟩ := run_locate b settings .retrieve (by simp) name version
  rcases result with failure | ⟨name, version⟩
  · exact ⟨_, Program.run_bind_error hlocate _⟩
  · exact ⟨_, (Program.run_bind_ok hlocate _).trans (run_perform (h.run_retrieve name version))⟩

/-- What a command comes to: nothing is touched, or an errand is done, with a draft that
keeps the standards if it has one. -/
inductive Carried (settings : Settings) (b : Backend) (command : Command) :
    Answer × Backend → Prop
  | idle (answer : Answer) : Carried settings b command (answer, b)
  | errand (errand : Errand)
      (hdraft : ∀ d, errand.draft? = some d → d.Passes settings.standards ∧
        ∃ body, command.body? = some body ∧ d.From settings.accessKey body.value) :
      Carried settings b command
        (.record ((b.run errand.program).1.mapError .store), (b.run errand.program).2)

/-- A body to create or update an algorithm is stored as a draft, or not at all. -/
theorem carried_submit (b : Backend) (settings : Settings) (action : Action)
    (haction : action ∈ [Action.create, .update]) {command : Command} {body : Json.Document}
    (hbody : command.body? = some body) {operation : Draft → Store.Operation Record}
    (errand : Draft → Errand) (hdraft : ∀ d, (errand d).draft? = some d)
    (hprogram : ∀ d, (errand d).program = (operation d).run) :
    Carried settings b command ((b.run
      ((Service.ofSettings settings).submit action operation body.value).run).map .record id) := by
  rcases run_submit b settings action haction body operation with
    ⟨refusal, hrun⟩ | ⟨d, hpasses, hfrom, hrun⟩
  · rw [hrun]
    exact .idle _
  · rw [hrun, run_perform rfl, ← hprogram]
    refine .errand (errand d) fun d' hd' => ?_
    obtain rfl := Option.some.inj ((hdraft d).symm.trans hd')
    exact ⟨hpasses, body, hbody, hfrom⟩

/-- **Every command touches nothing or is an errand.** -/
theorem carried_attend (h : b.Models l) (settings : Settings) (now : Time.Moment)
    (command : Command) :
    Carried settings { b with now := now } command
      ((Service.ofSettings settings).attend b now command) := by
  cases command with
  | create body =>
    exact carried_submit _ settings .create List.mem_cons_self rfl .create (fun _ => rfl)
      fun _ => rfl
  | update body =>
    exact carried_submit _ settings .update (List.mem_cons_of_mem _ List.mem_cons_self) rfl
      (.update · Store.defaultAttempts) (fun _ => rfl) fun _ => rfl
  | list =>
    obtain ⟨result, hrun⟩ := run_list { b with now := now } settings
    rw [Service.attend, runAt, hrun]
    exact .idle _
  | retrieve name version =>
    obtain ⟨result, hrun⟩ := run_retrieve (h.at now) settings name version
    rw [Service.attend, runAt, hrun]
    exact .idle _
  | delete name version =>
    obtain ⟨result, hlocate, -⟩ :=
      run_locate { b with now := now } settings .delete (by simp) name version
    rcases result with failure | ⟨name', version'⟩
    · have hrun : runAt b now ((Service.ofSettings settings).delete name version)
          = (.error failure, { b with now := now }) := Program.run_bind_error hlocate _
      rw [Service.attend, hrun]
      exact .idle _
    · have hrun : runAt b now ((Service.ofSettings settings).delete name version) = _ :=
        (Program.run_bind_ok hlocate _).trans (run_perform rfl)
      rw [Service.attend, hrun]
      exact .errand (.delete name' version') fun d hd => by cases hd

/-- **Every command keeps the stored records vouched for.** -/
theorem Vouching.attend (h : Vouching settings log b l) (now : Time.Moment) (command : Command) :
    ∃ l', Vouching settings
      (log ++ [⟨command, ((Service.ofSettings settings).attend b now command).1⟩])
      ((Service.ofSettings settings).attend b now command).2 l' := by
  have hnow := h.at now
  have hcarried := carried_attend h.models settings now command
  generalize (Service.ofSettings settings).attend b now command = after at hcarried
  cases hcarried with
  | idle answer => exact ⟨l, hnow.append _⟩
  | errand errand hdraft =>
    have hsettles := hnow.models.change errand
    cases errand with
    | create d =>
      obtain ⟨hpasses, body, hbody, hfrom⟩ := hdraft d rfl
      exact ⟨_, hnow.store (.create d) rfl hpasses hsettles hbody hfrom rfl⟩
    | update d attempts =>
      obtain ⟨hpasses, body, hbody, hfrom⟩ := hdraft d rfl
      exact ⟨_, hnow.store (.update d attempts) rfl hpasses hsettles hbody hfrom rfl⟩
    | delete name version => exact ⟨_, (hnow.remove hsettles).append _⟩

/-! ### Whole sessions -/

/-- Where nothing is stored, nothing has to be vouched for. -/
theorem Vouching.fresh (settings : Settings) (tokens : Nat → Artifact.Token)
    (start : Time.Moment) (root : Store.Root) :
    Vouching settings [] (.fresh tokens start root) Ledger.empty where
  models := Store.Backend.models_fresh tokens start root
  origins _ _ _ he := by cases he

theorem Vouching.session (h : Vouching settings log b l) (commands : List (Time.Moment × Command)) :
    ∃ l', Vouching settings (log ++ ((Service.ofSettings settings).session b commands).1)
      ((Service.ofSettings settings).session b commands).2 l' := by
  induction commands generalizing log b l with
  | nil =>
    refine ⟨l, ?_⟩
    rw [Service.session, List.append_nil]
    exact h
  | cons timed commands ih =>
    obtain ⟨now, command⟩ := timed
    obtain ⟨l₁, h₁⟩ := h.attend now command
    obtain ⟨l₂, h₂⟩ := ih h₁
    refine ⟨l₂, ?_⟩
    rw [List.append_assoc] at h₂
    exact h₂

/-- What stands behind a record in the ledger vouches for it. -/
theorem Vouching.vouched (h : Vouching settings log b l) {r : Record} (hr : b.records.Stored r) :
    Vouched settings log b.files r := by
  have hfound := h.models.records.find?_of_stored hr
  obtain ⟨e, he, hshows, hkeeps⟩ := h.models.entry hfound
  obtain ⟨hpasses, exchange, hmem, hanswer, body, hbody, hfrom⟩ := h.origins r e hfound he
  have hscript := hshows.privacy
  have hheld := hkeeps.privacy
  refine ⟨r.name.slug, ?_, ⟨e.draft.main.source, ?_, ?_⟩, fun p hp => ?_,
    exchange, hmem, hanswer, body, hbody, ?_, hfrom.key⟩
  · rw [hshows.description]
    exact hpasses.description
  · exact h.models.files.readText_of_holds hkeeps.main
  · rw [hshows.className]
    exact hpasses.main
  · rw [hp] at hscript hheld
    obtain ⟨script, hs, hclass, -⟩ := Store.exists_of_rel_some hscript
    obtain ⟨script', hs', hkept⟩ := Store.exists_of_rel_some hheld
    rw [hs] at hs'
    cases hs'
    refine ⟨script.source, h.models.files.readText_of_holds hkept, ?_⟩
    rw [hclass]
    exact hpasses.privacy script hs
  · rw [← hfrom.privacy_iff]
    rcases hp : r.privacy with - | p
    · rw [hp] at hscript
      rw [Store.eq_none_of_rel_none hscript]
      rfl
    · rw [hp] at hscript
      obtain ⟨script, hs, -⟩ := Store.exists_of_rel_some hscript
      rw [hs]
      rfl

/-- Every stored record is vouched for. -/
def Trustworthy (settings : Settings) (log : List Exchange) (b : Backend) : Prop :=
  ∀ r, b.records.Stored r → Vouched settings log b.files r

/-- **After every session on a fresh backend all that is stored is vouched for**,
whatever the settings, the commands, their times, the tokens that are drawn and the root. -/
theorem Service.session_vouched (settings : Settings) (tokens : Nat → Artifact.Token)
    (start : Time.Moment) (root : Store.Root) (commands : List (Time.Moment × Command)) :
    Trustworthy settings
      ((Service.ofSettings settings).session (.fresh tokens start root) commands).1
      ((Service.ofSettings settings).session (.fresh tokens start root) commands).2 := by
  obtain ⟨l, h⟩ := (Vouching.fresh settings tokens start root).session commands
  intro r hr
  exact h.vouched hr

end ScriptRegistry.Web
