/-
ScriptRegistry/Proofs/Refusing.lean

A forbidden import is refused, whatever stands around it.

The text in front of the line is settled, so the line is there after comments are
stripped and a pattern finds the library in it.  This one violation is a problem
of the script whatever its other members are, an objection of its rule, and by
`ends_judge` a reason of the refusal whatever the other rules say.

Main results: `usesLibrary_of_hasImportLine` and `Service.forbidden_import_refused`.
-/
import ScriptRegistry.Proofs.ImportLine
import ScriptRegistry.Proofs.Utf8
import ScriptRegistry.Proofs.Vetting

namespace ScriptRegistry

/-! ### Texts with an import line -/

namespace Source

open Text

/-- A text with a line that imports the library: settled whole lines in front of it, and
behind it the end of the text or of the line and then any text. -/
inductive HasImportLine (library : List Char) : List Char → Prop
  | intro {front kept line rest : List Char} (hfront : Settled front kept)
      (hend : front = [] ∨ front.getLast? = some '\n') (hline : ImportLine library line)
      (hrest : ∀ c ∈ rest.head?, isLineEnd c = true) :
      HasImportLine library (front ++ (line ++ rest))

/-- The end of a line is kept where it is the first thing to be read. -/
theorem endsWord_withoutComments {rest : List Char} (h : ∀ c ∈ rest.head?, isLineEnd c = true) :
    EndsWord (withoutComments rest).head? := by
  cases rest with
  | nil =>
    rw [withoutComments_nil]
    rfl
  | cons c rest =>
    have hc := h c rfl
    rw [withoutComments_plain (isPlain_of_isLineEnd hc)]
    rw [isLineEnd, Bool.or_eq_true, beq_iff_eq, beq_iff_eq] at hc
    rcases hc with rfl | rfl <;> exact endsWord_some (by decide)

/-- **Stripping comments does not hide an import line**, even from a text behind it that
would like to. -/
theorem usesLibrary_of_hasImportLine {library : String} (hname : IsName library.toList)
    {text : List Char} (h : HasImportLine library.toList text) :
    usesLibrary (withoutComments text) library = true := by
  obtain @⟨front, kept, line, rest, hfront, hend, hline, hrest⟩ := h
  have hstripped : withoutComments (front ++ (line ++ rest))
      = kept ++ (line ++ withoutComments rest) := by
    rw [withoutComments_append hfront, withoutComments_append (hline.settled hname)]
    · -- no quote stands at the end of the line
      intro q hq _ hhead
      have hfalse := isLineEnd_of_isQuote hq
      rw [hrest q hhead] at hfalse
      cases hfalse
    · intro q hq hlast
      rcases hend with rfl | hend
      · cases hlast
      · rw [hend] at hlast
        exact absurd (Option.some.inj hlast).symm (ne_lineFeed_of_isQuote hq)
  -- the line begins where no word goes on
  have hkept : EndsWord (behind none kept) := by
    rw [behind, Option.or_none]
    rcases hend with rfl | hend
    · rw [hfront.lineFeed.1 rfl]
      rfl
    · rw [hfront.lineFeed.2 hend]
      exact endsWord_some (by decide)
  rw [hstripped]
  exact hline.usesLibrary hname hkept (endsWord_withoutComments hrest)

end Source

/-! ### The problem and the objection -/

namespace Validation

open Store (Program Call)
open Store.Program (Ends)

/-- The body has, in the field, a script whose text has a line that imports the library. -/
def CarriesImport (body : Json.Value) (field library : String) : Prop :=
  ∃ members code source, body.field? field = some (.object members) ∧
    (Json.Value.object members).field? "code" = some (.string code) ∧
    openPayload code = .ok source ∧ Source.HasImportLine library.toList source.toList

/-- The refusal gives the reason, as one against the field. -/
def Refusal.Tells (refusal : Refusal) (field reason : String) : Prop :=
  ∃ o ∈ refusal.objections, o.field = field ∧ o.severity = .invalid ∧ reason ∈ o.reasons

/-- Whatever else a script lacks, a forbidden import is one of its problems. -/
theorem forbiddenLibrary_mem_codeProblems {script : Json.Value} {policy : Source.Policy}
    {code source library : String} (hcode : textMember script "code" = .ok code)
    (hopen : openPayload code = .ok source) (hforbidden : library ∈ policy.forbidden)
    (huses : Source.usesLibrary (Source.withoutComments source.toList) library = true) :
    .violation (.forbiddenLibrary library) ∈ codeProblems script policy := by
  have hmem := (Source.forbiddenLibrary_mem_iff policy.required).mpr ⟨hforbidden, huses⟩
  simp only [codeProblems, hcode, hopen]
  apply List.mem_map_of_mem
  -- without a class name the libraries are checked by themselves
  rcases (textMember script "className").toOption with - | className
  · exact hmem
  · exact List.mem_append_left _ hmem

/-- A script with a problem is objected to, and the problem is among the reasons. -/
theorem judgeScript_of_mem (field : String) (problems : Json.Value → List ScriptProblem)
    {members : List (String × Json.Value)} {problem : ScriptProblem}
    (h : problem ∈ problems (.object members)) :
    ∃ reasons, judgeScript field problems (.object members) = .error ⟨.invalid, reasons⟩ ∧
      problem.message ∈ reasons := by
  have hmem := List.mem_map_of_mem (f := ScriptProblem.message) h
  rw [judgeScript]
  rcases hreasons : (problems (.object members)).map ScriptProblem.message with - | ⟨r, rs⟩
  · rw [hreasons] at hmem
    cases hmem
  · rw [hreasons] at hmem
    exact ⟨r :: rs, rfl, hmem⟩

/-- The fields that hold scripts, with the policies they are held to. -/
def scriptFields (standards : Standards) : List (String × Source.Policy) :=
  [(mainField, standards.main), (privacyField, standards.privacy)]

/-- **A forbidden import is told by the rules, whatever they say besides.** -/
theorem ends_judge_import {σ : Type} {R : σ → (c : Call) → c.Answer → σ → Prop} {I : σ → Prop}
    (h : Spares R I) {s : σ} (hs : I s) {standards : Standards} {field library : String}
    {policy : Source.Policy} (hfield : (field, policy) ∈ scriptFields standards)
    (hforbidden : library ∈ policy.forbidden) (hname : Source.IsName library.toList)
    {action : Action} (haction : action ∈ [Action.create, .update]) {body : Json.Value}
    (hbody : CarriesImport body field library) :
    Ends R (fun result s' => I s' ∧ ∃ refusal, result = .error refusal ∧
        refusal.Tells field (Source.Violation.message (.forbiddenLibrary library)))
      (judge (algorithmRules standards) (.carrying action body)) s := by
  obtain ⟨members, code, source, hblock, hcode, hopen, himport⟩ := hbody
  have hproblem := forbiddenLibrary_mem_codeProblems (textMember_eq_ok_iff.mpr hcode) hopen
    hforbidden (Source.usesLibrary_of_hasImportLine hname himport)
  -- the rule of the field makes the objection by itself
  obtain ⟨r, hr, reasons, hjudge, hreason⟩ : ∃ r ∈ algorithmRules standards, ∃ reasons,
      r.judge (.carrying action body) = pure (some ⟨field, .invalid, reasons⟩) ∧
        Source.Violation.message (.forbiddenLibrary library) ∈ reasons := by
    rw [scriptFields, List.mem_cons, List.mem_singleton, Prod.mk.injEq, Prod.mk.injEq] at hfield
    rcases hfield with ⟨rfl, rfl⟩ | ⟨rfl, rfl⟩
    · have hmem : ScriptProblem.violation (.forbiddenLibrary library)
          ∈ mainProblems (.object members) standards.main :=
        List.mem_append_left _ (List.mem_append_right _ hproblem)
      obtain ⟨reasons, hverdict, hreason⟩ :=
        judgeScript_of_mem mainField (mainProblems · standards.main) hmem
      refine ⟨mainRule standards.main, by simp [algorithmRules], reasons, ?_, hreason⟩
      rw [mainRule, judge_pure mainField haction, Request.field?, Request.carrying, hblock,
        judgeMain, hverdict]
      rfl
    · have hmem : ScriptProblem.violation (.forbiddenLibrary library)
          ∈ privacyProblems (.object members) standards.privacy standards.accessKey :=
        List.mem_append_right _ hproblem
      obtain ⟨reasons, hverdict, hreason⟩ := judgeScript_of_mem privacyField
        (privacyProblems · standards.privacy standards.accessKey) hmem
      refine ⟨privacyRule standards.privacy standards.accessKey, by simp [algorithmRules], reasons,
        ?_, hreason⟩
      rw [privacyRule, judge_pure privacyField haction, Request.field?, Request.carrying, hblock,
        judgePrivacy, hverdict]
      rfl
  refine Ends.mono (ends_judge h hs standards _) ?_
  rintro result s' ⟨hs', -, htold⟩
  obtain ⟨refusal, hrefusal, ho⟩ := htold r hr _ hjudge
  exact ⟨hs', refusal, hrefusal, _, ho, rfl, rfl, hreason⟩

end Validation

/-! ### The request -/

namespace Web

open Store (Program Call Backend)
open Store.Program (Ends)
open Validation

/-- A job that is refused for a reason against a field.  Whatever its calls are answered, it
ends with the refusal and has asked for nothing but latest versions; a backend is left
as it is. -/
structure Refuses {α : Type} (job : Job α) (field reason : String) : Prop where
  always : Ends (fun (calls : List Call) c _ calls' => calls' = calls ++ [c])
    (fun result calls => (∀ c ∈ calls, ∃ name, c = .latest name) ∧
      ∃ refusal, result = .error (.refused refusal) ∧ refusal.Tells field reason) job.run []
  unchanged : ∀ b : Backend, ∃ refusal, b.run job.run = (.error (.refused refusal), b) ∧
    refusal.Tells field reason

/-- What holds of all states that are left alone holds of the calls made and of a backend. -/
theorem Refuses.of_ends {α : Type} {job : Job α} {field reason : String}
    (h : ∀ (σ : Type) (R : σ → (c : Call) → c.Answer → σ → Prop) (I : σ → Prop), Spares R I →
      ∀ s, I s → Ends R (fun result s' => I s' ∧ ∃ refusal, result = .error (.refused refusal) ∧
        refusal.Tells field reason) job.run s) : Refuses job field reason where
  always := by
    refine h _ _ (fun calls => ∀ c ∈ calls, ∃ name, c = Call.latest name) ?_ [] (by simp)
    rintro calls name answer calls' hcalls rfl c hc
    rcases List.mem_append.mp hc with hc | hc
    · exact hcalls c hc
    · exact ⟨name, List.mem_singleton.mp hc⟩
  unchanged b := by
    obtain ⟨hb, refusal, href, htells⟩ := Ends.run (h _ _ _ (spares_backend b) b rfl)
    exact ⟨refusal, Prod.ext href hb, htells⟩

/-- What follows the submission is not reached. -/
theorem refuses_of_submission {α : Type} {settings : Settings} {action : Action} {body : Json.Value}
    {field reason : String}
    (h : ∀ (σ : Type) (R : σ → (c : Call) → c.Answer → σ → Prop) (I : σ → Prop), Spares R I →
      ∀ s, I s → Ends R (fun result s' => I s' ∧ ∃ refusal, result = .error refusal ∧
        refusal.Tells field reason)
        (judge (algorithmRules settings.standards) (.carrying action body)) s)
    (f : Submission → Job α) :
    Refuses ((Service.ofSettings settings).submission action body >>= f) field reason := by
  apply Refuses.of_ends
  intro σ R I hspares s hs
  have hjudge : Ends R (fun result s' => I s' ∧ ∃ refusal, result = .error (.refused refusal) ∧
        refusal.Tells field reason)
      ((Service.ofSettings settings).judge (.carrying action body)).run s := by
    refine Ends.bind (h σ R I hspares s hs) ?_
    rintro result s' ⟨hs', refusal, rfl, htells⟩
    exact ⟨hs', refusal, rfl, htells⟩
  have hsubmission : Ends R (fun result s' => I s' ∧ ∃ refusal,
        result = .error (.refused refusal) ∧ refusal.Tells field reason)
      ((Service.ofSettings settings).submission action body).run s := by
    refine Ends.bind_except hjudge ?_ ?_
    · rintro _ s' ⟨_, _, ⟨⟩, _⟩
    · rintro e s' ⟨hs', refusal, ⟨⟩, htells⟩
      exact ⟨hs', refusal, rfl, htells⟩
  refine Ends.bind_except hsubmission ?_ ?_
  · rintro _ s' ⟨_, _, ⟨⟩, _⟩
  · rintro e s' ⟨hs', refusal, ⟨⟩, htells⟩
    exact ⟨hs', refusal, rfl, htells⟩

/-- **A forbidden import is refused, whatever stands around it in the text and in the
body.** -/
theorem Service.forbidden_import_refused (settings : Settings) {field library : String}
    {policy : Source.Policy} (hfield : (field, policy) ∈ scriptFields settings.standards)
    (hforbidden : library ∈ policy.forbidden) (hname : Source.IsName library.toList)
    {body : Json.Value} (hbody : CarriesImport body field library) :
    Refuses ((Service.ofSettings settings).create body) field
        (Source.Violation.message (.forbiddenLibrary library)) ∧
      Refuses ((Service.ofSettings settings).update body) field
        (Source.Violation.message (.forbiddenLibrary library)) := by
  constructor
  · apply refuses_of_submission
    intro σ R I hspares s hs
    exact ends_judge_import hspares hs hfield hforbidden hname List.mem_cons_self hbody
  · apply refuses_of_submission
    intro σ R I hspares s hs
    exact ends_judge_import hspares hs hfield hforbidden hname (by simp) hbody

/-- A text with an import between two quotes that nothing closes. -/
def openQuotes : String := "# '\nimport multiprocessing\n'''"

/-- A body with nothing but this text. -/
def openQuotesBody : Json.Value :=
  .object [(mainField, .object [("code", .string "IyAnCmltcG9ydCBtdWx0aXByb2Nlc3NpbmcKJycn")])]

theorem carriesImport_openQuotes :
    CarriesImport openQuotesBody mainField "multiprocessing" := by
  refine ⟨_, _, openQuotes, rfl, rfl, ?_, ?_⟩
  · have hbytes : Transport.Base64.decode (Text.encode
        (Transport.compact "IyAnCmltcG9ydCBtdWx0aXByb2Nlc3NpbmcKJycn"))
        = .ok (Text.encode openQuotes.toList) := rfl
    rw [openPayload, Transport.decodeText, hbytes]
    simp only [Text.decode_encode]
    rfl
  · have hcomment : ∀ c ∈ [' ', '\''], Source.isLineEnd c = false := by simp [Source.isLineEnd]
    have hfront : Source.Settled ('#' :: ([' ', '\''] ++ '\n' :: [])) ['\n'] :=
      Source.Settled.comment hcomment rfl Source.Settled.nil
    have hmodules : Source.ModulesWith "multiprocessing".toList ("multiprocessing".toList ++ []) :=
      Source.ModulesWith.here .itself .plain .done
    have hstatement : Source.ImportStatement "multiprocessing".toList
        ("import".toList ++ ([' '] ++ ("multiprocessing".toList ++ []))) :=
      Source.ImportStatement.modules (by simp [Source.IsGap]) (by simp) hmodules
    have hnone : Source.IsGap [] := fun c hc => by cases hc
    have hline := Source.ImportLine.line hnone hstatement hnone
    have hrest : ∀ c ∈ "\n'''".toList.head?, Source.isLineEnd c = true := by
      simp [Source.isLineEnd]
    exact Source.HasImportLine.intro hfront (Or.inr rfl) hline hrest

/-- The import is refused by a service with the usual lists of libraries. -/
theorem Service.forbidden_import_refused_openQuotes :
    CarriesImport openQuotesBody mainField "multiprocessing" ∧
      Refuses ((Service.ofSettings ⟨"", "", ⟨"key"⟩, false, none, none⟩).create openQuotesBody)
        "algorithm" "code contains restricted library multiprocessing" := by
  refine ⟨carriesImport_openQuotes, ?_⟩
  have hname : Source.IsName "multiprocessing".toList := ⟨by simp, List.all_eq_true.mp rfl⟩
  exact (Service.forbidden_import_refused ⟨"", "", ⟨"key"⟩, false, none, none⟩ List.mem_cons_self
    List.mem_cons_self hname carriesImport_openQuotes).1

end Web

end ScriptRegistry
