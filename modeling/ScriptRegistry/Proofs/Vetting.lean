/-
ScriptRegistry/Proofs/Vetting.lean

From a body that passes the rules to the draft that is stored.

The rules judge the body as it came, the draft is made of a second reading of it
and repeats it.  So the draft has the texts and the class names that were judged:
it keeps the standards (`Draft.Passes`) and has a privacy script exactly where the
body has one, which brings the key (`Draft.From`).

On its way a request touches nothing.  It is refused by the rules or gets to the
store; the one thing that is refused in between is the number of a version.

Main results: `Draft.Repeats.passes`, `run_submit` and `Service.accepted_converts`.
-/
import ScriptRegistry.Proofs.Conversion
import ScriptRegistry.Proofs.Verdict
import ScriptRegistry.Web.Service

namespace ScriptRegistry

open Json Validation

/-! ### Drafts -/

/-- The texts of a draft keep the policies of the standards, each with its own class. -/
structure Draft.Passes (d : Draft) (standards : Standards) : Prop where
  description : d.description ≠ ""
  main : Source.violations d.main.source.toList standards.main d.main.className = []
  privacy : ∀ script, d.privacy = some script →
    Source.violations script.source.toList standards.privacy script.className = []

/-- The draft has a privacy script where the body has one, which then brings the key. -/
structure Draft.From (d : Draft) (key : AccessKey) (body : Value) : Prop where
  privacy_iff : d.privacy.isSome ↔ (body.field? privacyField).isSome
  key : ∀ block, body.field? privacyField = some block →
    block.field? "key" = some (.string key.secret)

/-- A source text that was looked at without a violation keeps the policy. -/
theorem Echoes.keeps {block : Value} {policy : Source.Policy} {className source : String}
    (h : Echoes block policy className source) (hnone : codeProblems block policy = []) :
    Source.violations source.toList policy className = [] := by
  rw [h.analysed, List.map_eq_nil_iff] at hnone
  exact hnone

/-- **What repeats a body that passes the rules keeps the standards.** -/
theorem Draft.Repeats.passes {standards : Standards} {body : Value} {d : Draft}
    (h : d.Repeats standards body) (hgrants : Grants standards body) :
    d.Passes standards ∧ d.From standards.accessKey body := by
  obtain ⟨-, ⟨text, htext, hne⟩, ⟨parts, hblock, hmain⟩, hprivacy⟩ := hgrants
  have hd₁ : d.description ≠ "" := by
    rw [h.description] at htext
    cases htext
    exact hne
  have hd₂ : Source.violations d.main.source.toList standards.main d.main.className = [] := by
    obtain ⟨block, hblock', hechoes, -⟩ := h.main
    rw [hblock] at hblock'
    cases hblock'
    simp only [mainProblems, List.append_eq_nil_iff] at hmain
    exact hechoes.keeps hmain.1.2
  have hrel := h.privacy
  rcases hfield : body.field? privacyField with - | block
  · -- neither the body nor the draft has a privacy part
    generalize hnone : d.privacy = found at hrel
    rw [hfield] at hrel
    cases hrel
    refine ⟨⟨hd₁, hd₂, fun script hscript => ?_⟩, ⟨?_, fun block hblock => ?_⟩⟩
    · rw [hnone] at hscript
      cases hscript
    · rw [hnone, hfield]
      exact iff_of_false Bool.false_ne_true Bool.false_ne_true
    · rw [hfield] at hblock
      cases hblock
  · -- both of them have one
    generalize hscript : d.privacy = found at hrel
    rw [hfield] at hrel
    obtain ⟨hechoes⟩ | - := hrel
    obtain ⟨parts, rfl, hproblems⟩ := hprivacy block hfield
    simp only [privacyProblems, List.append_eq_nil_iff] at hproblems
    refine ⟨⟨hd₁, hd₂, fun script' hscript' => ?_⟩, ⟨?_, fun block' hblock' => ?_⟩⟩
    · rw [hscript] at hscript'
      cases hscript'
      exact hechoes.keeps hproblems.2
    · rw [hscript, hfield]
      exact iff_of_true rfl rfl
    · rw [hfield] at hblock'
      cases hblock'
      exact textMember_eq_ok_iff.mp (key_of_problems hproblems.1.1)

/-! ### Requests on their way -/

namespace Web

open Store (Program Call Operation Backend)
open Store.Program (Ends)

section Ends

variable {σ : Type} {R : σ → (c : Call) → c.Answer → σ → Prop} {I : σ → Prop} {s : σ}

/-- Nothing but latest versions is asked for before a request is carried out, and one that
is not refused has a name. -/
theorem ends_judged (h : Spares R I) (hs : I s) (settings : Settings) (request : Request) :
    Ends R (fun result s' => I s' ∧ ((∃ refusal, result = .error (.refused refusal)) ∨
        result = .ok () ∧ request.Named))
      ((Service.ofSettings settings).judge request).run s := by
  refine Ends.bind (ends_judge h hs settings.standards request) ?_
  rintro result s' ⟨hs', hnamed, -⟩
  rcases result with refusal | ⟨⟩
  · exact ⟨hs', Or.inl ⟨refusal, rfl⟩⟩
  · exact ⟨hs', Or.inr ⟨rfl, hnamed rfl⟩⟩

end Ends

variable {b : Backend}

/-- A backend is left alone where only latest versions are asked for. -/
theorem spares_backend (b : Backend) :
    Spares (fun b c answer b' => Backend.answer b c = (answer, b')) (· = b) := by
  rintro _ name answer b' rfl hstep
  cases hstep
  rfl

/-- Judging a request leaves the backend as it is. -/
theorem run_judged (b : Backend) (settings : Settings) (request : Request) :
    ∃ result, Program.run Backend.answer ((Service.ofSettings settings).judge request).run b
        = (result, b) ∧
      ((∃ refusal, result = .error (.refused refusal)) ∨ result = .ok () ∧ request.Named) := by
  obtain ⟨hb, hresult⟩ := Ends.run (ends_judged (spares_backend b) rfl settings request)
  exact ⟨_, Prod.ext rfl hb, hresult⟩

/-- An operation on the store is done as it is, and its failure passed on. -/
theorem run_perform {α : Type} {operation : Operation α} {result : Except StoreError α}
    {b' : Backend} (h : b.run operation.run = (result, b')) :
    b.run (perform operation).run = (result.mapError Failure.store, b') := by
  show Program.run Backend.answer
    (operation.run >>= fun r => .done (r.mapError Failure.store)) b = _
  rw [Program.run_bind]
  rw [Backend.run] at h
  rw [h]
  rfl

/-- Stores the draft of a body by an operation, if the rules let the body pass. -/
def Service.submit (s : Service) (action : Action) (operation : Draft → Operation Record)
    (body : Value) : Job Record := do
  let draft ← accepted (← s.submission action body).unpack
  perform (operation draft)

/-- A body is judged without a change. -/
theorem run_judge_carrying {settings : Settings} {action : Action} {body : Value}
    {found : List FieldObjection}
    (h : b.run (judge (algorithmRules settings.standards) (.carrying action body))
      = (verdictOf found, b)) :
    Program.run Backend.answer
        ((Service.ofSettings settings).judge (.carrying action body)).run b
      = ((verdictOf found).mapError .refused, b) := by
  rw [Backend.run] at h
  show Program.run Backend.answer (judge (algorithmRules settings.standards)
    (.carrying action body) >>= fun r => .done (r.mapError Failure.refused)) b = _
  rw [Program.run_bind, h]
  rfl

/-- A body with faults is refused for them. -/
theorem run_submit_refused (b : Backend) (settings : Settings) {action : Action}
    (haction : action ∈ [Action.create, .update]) (body : Value)
    (operation : Draft → Operation Record)
    (h : faults settings.standards b.records.latest? action body ≠ []) :
    ∃ refusal : Refusal,
      b.run ((Service.ofSettings settings).submit action operation body).run
        = (.error (.refused refusal), b) ∧
      refusal.objections.map (fun o => (o.field, o.severity))
        = faults settings.standards b.records.latest? action body ∧
      ∀ o ∈ refusal.objections, o.reasons ≠ [] := by
  obtain ⟨found, hrun, hmap, hreasons⟩ := run_judge b settings.standards haction body
  refine ⟨⟨found⟩, ?_, hmap, hreasons⟩
  cases found with
  | nil => exact absurd hmap.symm h
  | cons o os =>
    have hjudge := run_judge_carrying hrun
    rw [Backend.run, Service.submit]
    exact Program.run_bind_error (Program.run_bind_error hjudge _) _

/-- The draft of a body without faults repeats it, and gets to the store. -/
theorem run_submit_granted (b : Backend) (settings : Settings) {action : Action}
    (haction : action ∈ [Action.create, .update]) (body : Document)
    (operation : Draft → Operation Record)
    (h : faults settings.standards b.records.latest? action body.value = []) :
    ∃ d : Draft, d.Repeats settings.standards body.value ∧
      b.run ((Service.ofSettings settings).submit action operation body.value).run
        = b.run (perform (operation d)).run := by
  obtain ⟨found, hrun, hmap, -⟩ := run_judge b settings.standards haction body.value
  rw [h, List.map_eq_nil_iff] at hmap
  subst hmap
  have hjudge := run_judge_carrying hrun
  obtain ⟨submission, d, hread, hunpack, hrepeats⟩ := (grants_of_faults haction h).converts
  have hsubmission : Program.run Backend.answer
      ((Service.ofSettings settings).submission action body.value).run b
      = (.ok submission, b) := by
    rw [Service.submission, Program.run_bind_ok hjudge, hread]
    rfl
  refine ⟨d, hrepeats, ?_⟩
  rw [Backend.run, Service.submit, Program.run_bind_ok hsubmission, hunpack]
  rfl

/-- **A draft gets to the store only from a body that passes the rules**, and else
nothing happens. -/
theorem run_submit (b : Backend) (settings : Settings) (action : Action)
    (haction : action ∈ [Action.create, .update]) (body : Document)
    (operation : Draft → Operation Record) :
    (∃ refusal, b.run ((Service.ofSettings settings).submit action operation body.value).run
        = (.error (.refused refusal), b)) ∨
      ∃ d : Draft, d.Passes settings.standards ∧ d.From settings.accessKey body.value ∧
        b.run ((Service.ofSettings settings).submit action operation body.value).run
          = b.run (perform (operation d)).run := by
  by_cases h : faults settings.standards b.records.latest? action body.value = []
  · obtain ⟨d, hrepeats, hrun⟩ := run_submit_granted b settings haction body operation h
    obtain ⟨hpasses, hfrom⟩ := hrepeats.passes (grants_of_faults haction h)
    exact Or.inr ⟨d, hpasses, hfrom, hrun⟩
  · obtain ⟨refusal, hrun, -⟩ := run_submit_refused b settings haction body.value operation h
    exact Or.inl ⟨refusal, hrun⟩

/-- An address is read without a change, and only the number in it may be malformed. -/
theorem run_locate (b : Backend) (settings : Settings) (action : Action)
    (haction : action ∈ [Action.retrieve, .delete]) (name : String) (version : Option Nat) :
    ∃ result, Program.run Backend.answer
        ((Service.ofSettings settings).locate action name version).run b = (result, b) ∧
      ∀ reason, result = .error (.malformed reason) →
        ∃ n, version = some n ∧ ¬ (0 < n ∧ n < versionBound) := by
  obtain ⟨result, hjudge, ⟨refusal, rfl⟩ | ⟨rfl, hnamed⟩⟩ :=
    run_judged b settings (.addressing action name)
  · exact ⟨_, Program.run_bind_error hjudge _, fun _ heq => by cases heq⟩
  · obtain ⟨name', rfl⟩ : ∃ name' : AlgorithmName, name = name'.text := by
      rw [List.mem_cons, List.mem_singleton] at haction
      rcases haction with rfl | rfl
      · exact hnamed.imp fun _ heq => Option.some.inj heq
      · exact hnamed.imp fun _ heq => Option.some.inj heq
    rw [Service.locate, Program.run_bind_ok hjudge, ofString_eq_ok_iff.mpr rfl]
    rcases version with - | n
    · exact ⟨_, rfl, fun _ heq => by cases heq⟩
    · have hread : (some n).mapM Version.ofNat = some <$> Version.ofNat n := rfl
      by_cases hn : 0 < n ∧ n < versionBound
      · have hversion : Version.ofNat n = .ok ⟨n, hn.1, hn.2⟩ := dif_pos hn
        rw [hread, hversion]
        exact ⟨_, rfl, fun _ heq => by cases heq⟩
      · have hversion : Version.ofNat n = .error (.version n) := dif_neg hn
        rw [hread, hversion]
        exact ⟨_, rfl, fun _ _ => ⟨n, rfl, hn⟩⟩

/-- Whatever the store answers, it does not call a request malformed. -/
theorem perform_ne_malformed {α : Type} (b : Backend) (operation : Operation α) (reason : String) :
    (b.run (perform operation).run).1 ≠ .error (.malformed reason) := by
  rcases hop : b.run operation.run with ⟨e | a, b'⟩
  · rw [run_perform hop]
    exact fun heq => by cases heq
  · rw [run_perform hop]
    exact fun heq => by cases heq

/-- A body to create or update an algorithm is never malformed. -/
theorem submit_ne_malformed (b : Backend) (settings : Settings) (action : Action)
    (haction : action ∈ [Action.create, .update]) (body : Document)
    (operation : Draft → Operation Record) (reason : String) :
    (b.run ((Service.ofSettings settings).submit action operation body.value).run).1
      ≠ .error (.malformed reason) := by
  rcases run_submit b settings action haction body operation with ⟨refusal, hrun⟩ | ⟨d, -, -, hrun⟩
  · rw [hrun]
    exact fun heq => by cases heq
  · rw [hrun]
    exact perform_ne_malformed b _ reason

/-- An address is malformed only for the number in it. -/
theorem version_of_malformed {α : Type} (b : Backend) (settings : Settings) (action : Action)
    (haction : action ∈ [Action.retrieve, .delete]) (name : String) (version : Option Nat)
    (operation : AlgorithmName × Option Version → Operation α) {reason : String}
    (h : (b.run
      (do perform (operation (← (Service.ofSettings settings).locate action name version)) :
        Job α).run).1 = .error (.malformed reason)) :
    ∃ n, version = some n ∧ ¬ (0 < n ∧ n < versionBound) := by
  obtain ⟨result, hlocate, hresult⟩ := run_locate b settings action haction name version
  rw [Backend.run] at h
  rcases result with failure | located
  · rw [Program.run_bind_error hlocate] at h
    cases h
    exact hresult reason rfl
  · rw [Program.run_bind_ok hlocate] at h
    exact absurd h (perform_ne_malformed b _ reason)

/-- A request passes the rules of a service over a backend. -/
def Service.Accepts (s : Service) (b : Backend) (request : Request) : Prop :=
  (b.run (Validation.judge s.rules request)).1 = .ok ()

instance (s : Service) (b : Backend) (request : Request) : Decidable (s.Accepts b request) :=
  match h : (b.run (Validation.judge s.rules request)).1 with
  | .ok () => .isTrue h
  | .error _ => .isFalse fun hok => by rw [Service.Accepts, h] at hok; cases hok

/-- **What the rules let pass is converted, with the same content**: a body is read and
opened to a draft that repeats it, and a text that addresses an algorithm is a name.  So
nothing is malformed but the number of a version. -/
theorem Service.accepted_converts (settings : Settings) (b : Backend) :
    let s := Service.ofSettings settings
    (∀ action ∈ [Action.create, .update], ∀ body : Document,
      s.Accepts b (.carrying action body.value) →
        ∃ (submission : Submission) (d : Draft),
          Submission.decoder.ofValue body.value = .ok submission ∧
          submission.unpack = .ok d ∧ d.Repeats settings.standards body.value) ∧
    (∀ (body : Document) reason,
      (b.run (s.create body.value).run).1 ≠ .error (.malformed reason) ∧
      (b.run (s.update body.value).run).1 ≠ .error (.malformed reason)) ∧
    (∀ action ∈ [Action.retrieve, .delete], ∀ text, s.Accepts b (.addressing action text) →
      ∃ name, AlgorithmName.ofString text = .ok name) ∧
    ∀ text version reason, (∀ n, version = some n → n < versionBound) →
      (b.run (s.retrieve text version).run).1 = .error (.malformed reason) ∨
        (b.run (s.delete text version).run).1 = .error (.malformed reason) →
      version = some 0 := by
  intro s
  refine ⟨fun action haction body haccepts => ?_, fun body reason => ⟨?_, ?_⟩,
    fun action haction text haccepts => ?_, fun text version reason hbound h => ?_⟩
  · exact ((Ends.run (ends_judge_carrying (spares_backend b) rfl settings.standards haction
      body.value)).2 haccepts).converts
  · exact submit_ne_malformed b settings .create (by simp) body _ reason
  · exact submit_ne_malformed b settings .update (by simp) body _ reason
  · obtain ⟨-, hnamed, -⟩ := Ends.run (ends_judge (spares_backend b) rfl settings.standards
      (.addressing action text))
    have hnamed := hnamed haccepts
    rw [List.mem_cons, List.mem_singleton] at haction
    rcases haction with rfl | rfl
    · exact hnamed.imp fun _ heq => ofString_eq_ok_iff.mpr (Option.some.inj heq)
    · exact hnamed.imp fun _ heq => ofString_eq_ok_iff.mpr (Option.some.inj heq)
  · obtain ⟨n, rfl, hn⟩ : ∃ n, version = some n ∧ ¬ (0 < n ∧ n < versionBound) := by
      rcases h with h | h
      · exact version_of_malformed b settings .retrieve (by simp) text version
          (fun located => Store.retrieve located.1 located.2) h
      · exact version_of_malformed b settings .delete (by simp) text version
          (fun located => Store.delete located.1 located.2) h
    have hlt := hbound n rfl
    rw [Nat.eq_zero_of_not_pos fun hpos => hn ⟨hpos, hlt⟩]

/-- A body with a small script. -/
def meanBody : Document where
  value := .object [(nameField, .string "mean"), (descriptionField, .string "A mean."),
    (mainField, .object [
      ("code", .string "Y2xhc3MgTWVhbihPUEFMQWxnb3JpdGhtKToKICAgIHBhc3M="),
      ("className", .string "Mean"), ("reducer", .string "SUM")])]
  proper := by
    refine .object _ (by decide) fun m hm => ?_
    simp only [List.mem_cons, List.not_mem_nil, or_false] at hm
    rcases hm with rfl | rfl | rfl
    · exact .string _
    · exact .string _
    · refine .object _ (by decide) fun m hm => ?_
      simp only [List.mem_cons, List.not_mem_nil, or_false] at hm
      rcases hm with rfl | rfl | rfl <;> exact .string _

/-- A service that asks for no libraries accepts the small script, and converts it. -/
theorem Service.accepted_converts_mean :
    let settings : Settings := ⟨"", "", ⟨"key"⟩, false, some [], some []⟩
    let b := Backend.fresh Artifact.Token.ofNat .epoch
    (Service.ofSettings settings).Accepts b (.carrying .create meanBody.value) ∧
      ∃ (submission : Submission) (d : Draft),
        Submission.decoder.ofValue meanBody.value = .ok submission ∧
        submission.unpack = .ok d ∧ d.Repeats settings.standards meanBody.value := by
  intro settings b
  have haccepts : (Service.ofSettings settings).Accepts b (.carrying .create meanBody.value) := by
    decide +kernel
  exact ⟨haccepts, (Service.accepted_converts settings b).1 .create List.mem_cons_self meanBody
    haccepts⟩

end Web

end ScriptRegistry
