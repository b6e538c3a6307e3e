/-
ScriptRegistry/Proofs/Judging.lean

What it means that a request passes the rules, and what is asked for meanwhile.

Only the rule for the name asks anything of the store, and only for the latest
version of a name; where it passes, there is a name.  The verdict of each other
rule is a function of the body; it is told whatever the rule for the name comes
to, and whatever its call is answered.  So a request that passes has a body on
which all these functions agree (`Grants`), and one objection of one of them is
enough for a refusal that holds it (`ends_judge`).

Main results: `ends_judge` and `ends_judge_carrying`.
-/
import ScriptRegistry.Proofs.Program
import ScriptRegistry.Proofs.Submission
import ScriptRegistry.Validation.Algorithm

namespace ScriptRegistry.Validation

open Store (Program Call)
open Store.Program (Ends)

/-! ### The rules, one after the other -/

section Ends

variable {σ : Type} {R : σ → (c : Call) → c.Answer → σ → Prop} {I : σ → Prop}

/-- The states in `I` are left alone where only latest versions are asked for. -/
def Spares (R : σ → (c : Call) → c.Answer → σ → Prop) (I : σ → Prop) : Prop :=
  ∀ s name answer s', I s → R s (.latest name) answer s' → I s'

variable {s : σ}

theorem ends_isStored (h : Spares R I) (hs : I s) (name : AlgorithmName) :
    Ends R (fun _ s' => I s') (isStored name).run s := by
  intro answer s' hstep
  have hs' := h s name answer s' hs hstep
  rcases answer with e | latest
  · exact hs'
  · exact hs'

/-- Where something is stored under a text, the text is a name. -/
theorem ends_requireStored (h : Spares R I) (hs : I s) (text : String) :
    Ends R (fun result s' => I s' ∧ (result = .ok () → ∃ name : AlgorithmName, text = name.text))
      (requireStored text).run s := by
  rw [requireStored]
  refine Ends.bind_except (P := fun result s' => I s' ∧
    (result = .ok true → ∃ name : AlgorithmName, text = name.text)) ?_ ?_ ?_
  · rcases hname : AlgorithmName.ofString text with e | name
    · -- a text that is no name is not looked up
      exact ⟨hs, fun heq => by cases heq⟩
    · exact (ends_isStored h hs name).mono fun _ s' hs' =>
        ⟨hs', fun _ => ⟨name, ofString_eq_ok_iff.mp hname⟩⟩
  · rintro present s' ⟨hs', hname⟩
    cases present with
    | true => exact ⟨hs', fun _ => hname rfl⟩
    | false => exact ⟨hs', fun heq => by cases heq⟩
  · rintro _ s' ⟨hs', -⟩
    exact ⟨hs', fun heq => by cases heq⟩

/-- The name that a body gives is a text in the field for names. -/
theorem ends_givenName (hs : I s) (request : Request) :
    Ends R (fun result s' => I s' ∧
        ∀ text, result = .ok text → request.field? nameField = some (.string text))
      (givenName request).run s := by
  rw [givenName]
  split
  · exact ⟨hs, fun _ heq => by cases heq⟩
  · next hfield =>
    refine ⟨hs, fun _ heq => ?_⟩
    cases heq
    exact hfield
  · exact ⟨hs, fun _ heq => by cases heq⟩

/-- What a check that passes tells of a request, its rule tells by making no objection. -/
theorem ends_fieldRule {told : Prop} {r : FieldRule} {request : Request} {check : Check}
    (hcheck : r.checks request.action = some check)
    (hends : Ends R (fun verdict s' => I s' ∧ (verdict = .ok () → told)) (check request) s) :
    Ends R (fun first s' => I s' ∧ (first = none → told)) (r.judge request) s := by
  rw [FieldRule.judge, hcheck]
  refine Ends.bind hends ?_
  rintro verdict s' ⟨hs', htold⟩
  rcases verdict with objection | ⟨⟩
  · exact ⟨hs', fun heq => by cases heq⟩
  · exact ⟨hs', fun _ => htold rfl⟩

/-- The request has a name where one is asked for. -/
def Request.Named (request : Request) : Prop :=
  match request.action with
  | .create | .update => ∃ name : AlgorithmName, request.field? nameField = some (.string name.text)
  | .retrieve | .delete => ∃ name : AlgorithmName, request.addressed = some name.text
  | .list => True

theorem ends_requireFree (h : Spares R I) (hs : I s) (request : Request) :
    Ends R (fun result s' => I s' ∧ (result = .ok () →
        ∃ name : AlgorithmName, request.field? nameField = some (.string name.text)))
      (requireFree request).run s := by
  refine Ends.bind_except (ends_givenName hs request) ?_ ?_
  · rintro text s' ⟨hs', htext⟩
    rcases hname : AlgorithmName.ofString text with e | name
    · exact ⟨hs', fun heq => by cases heq⟩
    · have hfield := htext text rfl
      rw [ofString_eq_ok_iff.mp hname] at hfield
      refine Ends.bind_except (ends_isStored h hs' name) (fun stored s' hs' => ?_)
        fun _ _ hs' => ⟨hs', fun _ => ⟨name, hfield⟩⟩
      cases stored with
      | true => exact ⟨hs', fun _ => ⟨name, hfield⟩⟩
      | false => exact ⟨hs', fun _ => ⟨name, hfield⟩⟩
  · rintro _ s' ⟨hs', -⟩
    exact ⟨hs', fun heq => by cases heq⟩

theorem ends_requireGiven (h : Spares R I) (hs : I s) (request : Request) :
    Ends R (fun result s' => I s' ∧ (result = .ok () →
        ∃ name : AlgorithmName, request.field? nameField = some (.string name.text)))
      (requireGiven request).run s := by
  refine Ends.bind_except (ends_givenName hs request) ?_ ?_
  · rintro text s' ⟨hs', htext⟩
    refine (ends_requireStored h hs' text).mono fun _ s' hstored => ⟨hstored.1, fun hok => ?_⟩
    obtain ⟨name, rfl⟩ := hstored.2 hok
    exact ⟨name, htext _ rfl⟩
  · rintro _ s' ⟨hs', -⟩
    exact ⟨hs', fun heq => by cases heq⟩

theorem ends_requireAddressed (h : Spares R I) (hs : I s) (request : Request) :
    Ends R (fun result s' => I s' ∧
        (result = .ok () → ∃ name : AlgorithmName, request.addressed = some name.text))
      (requireAddressed request).run s := by
  obtain ⟨action, body, addressed⟩ := request
  cases addressed with
  | none => exact ⟨hs, fun heq => by cases heq⟩
  | some text =>
    refine (ends_requireStored h hs text).mono fun _ s' hstored => ⟨hstored.1, fun hok => ?_⟩
    obtain ⟨name, rfl⟩ := hstored.2 hok
    exact ⟨name, rfl⟩

/-- A request that the rule for the name lets pass has one. -/
theorem ends_nameRule (h : Spares R I) (hs : I s) (request : Request) :
    Ends R (fun first s' => I s' ∧ (first = none → request.Named)) (nameRule.judge request) s := by
  obtain ⟨action, body, addressed⟩ := request
  cases action with
  | create => exact ends_fieldRule rfl (ends_requireFree h hs _)
  | update => exact ends_fieldRule rfl (ends_requireGiven h hs _)
  | list => exact ⟨hs, fun _ => trivial⟩
  | retrieve => exact ends_fieldRule rfl (ends_requireAddressed h hs _)
  | delete => exact ends_fieldRule rfl (ends_requireAddressed h hs _)

/-- The objection that a verdict makes against a field. -/
def objection? (field : String) : Except Objection Unit → Option FieldObjection
  | .ok () => none
  | .error objection => some (objection.onField field)

/-- A rule whose check asks nothing says what its verdict is. -/
theorem judge_pure (field : String) {actions : List Action} {request : Request}
    (haction : request.action ∈ actions) (verdict : Request → Except Objection Unit) :
    ((FieldRule.unchecked field).forActions actions fun request => pure (verdict request)).judge
      request = pure (objection? field (verdict request)) := by
  have hcheck : ((FieldRule.unchecked field).forActions actions fun request =>
      pure (verdict request)).checks request.action = some fun request => pure (verdict request) :=
    if_pos haction
  rw [FieldRule.judge, hcheck]
  dsimp only
  rcases verdict request with objection | ⟨⟩
  · rfl
  · rfl

theorem judge_uncovered (field : String) {actions : List Action} {request : Request}
    (haction : request.action ∉ actions) (check : Check) :
    ((FieldRule.unchecked field).forActions actions check).judge request = pure none := by
  have hcheck : ((FieldRule.unchecked field).forActions actions check).checks request.action
      = none := if_neg haction
  rw [FieldRule.judge, hcheck]

/-- A program that is done ends with its result. -/
theorem ends_done {α : Type} {Q : α → σ → Prop} {p : Program α} (h : Ends R Q p s) :
    Ends R (fun a s' => Q a s' ∧ ∀ a', p = pure a' → a = a') p s := by
  cases p with
  | done a =>
    refine ⟨h, fun a' heq => ?_⟩
    cases heq
    rfl
  | ask c next =>
    exact fun a s' hs => (h a s' hs).mono fun _ _ hq => ⟨hq, fun _ heq => by cases heq⟩

/-- Every rule is looked at, and every objection is found. -/
theorem ends_objections {request : Request} {P : FieldRule → Option FieldObjection → Prop}
    {rules : List FieldRule} (hrules : ∀ r ∈ rules, ∀ s, I s →
      Ends R (fun first s' => I s' ∧ P r first) (r.judge request) s) (hs : I s) :
    Ends R (fun found s' => I s' ∧
        ∀ r ∈ rules, ∃ first, P r first ∧ ∀ o, first = some o → o ∈ found)
      (objections request rules) s := by
  induction rules generalizing s with
  | nil => exact ⟨hs, fun r hr => by cases hr⟩
  | cons r rules ih =>
    refine Ends.bind (hrules r List.mem_cons_self s hs) ?_
    rintro first s' ⟨hs', hfirst⟩
    refine Ends.bind (ih (fun r hr => hrules r (List.mem_cons_of_mem _ hr)) hs') ?_
    rintro others s'' ⟨hs'', hothers⟩
    refine ⟨hs'', fun r' hr' => ?_⟩
    rcases List.mem_cons.mp hr' with rfl | hr'
    · refine ⟨first, hfirst, fun o ho => ?_⟩
      rw [ho]
      exact List.mem_append_left _ (List.mem_singleton.mpr rfl)
    · obtain ⟨other, hother, hmem⟩ := hothers r' hr'
      exact ⟨other, hother, fun o ho => List.mem_append_right _ (hmem o ho)⟩

/-- What is known of each rule: its objection if that is told without a call, and that
there is a name if the rule for the name has none. -/
def Known (request : Request) (r : FieldRule) (first : Option FieldObjection) : Prop :=
  (r.field = nameField → first = none → request.Named) ∧
    ∀ o, r.judge request = pure o → first = o

theorem ends_known (h : Spares R I) (standards : Standards) (request : Request) {r : FieldRule}
    (hr : r ∈ algorithmRules standards) (hs : I s) :
    Ends R (fun first s' => I s' ∧ Known request r first) (r.judge request) s := by
  have hrule : Ends R (fun first s' => I s' ∧ (r.field = nameField → first = none →
      request.Named)) (r.judge request) s := by
    have hpure : ∀ field (verdict : Request → Except Objection Unit), field ≠ nameField →
        Ends R (fun first s' => I s' ∧ (field = nameField → first = none → request.Named))
          (((FieldRule.unchecked field).forActions [.create, .update]
            fun request => pure (verdict request)).judge request) s := by
      intro field verdict hfield
      by_cases haction : request.action ∈ [Action.create, Action.update]
      · rw [judge_pure field haction]
        exact ⟨hs, fun heq => absurd heq hfield⟩
      · rw [judge_uncovered field haction]
        exact ⟨hs, fun heq => absurd heq hfield⟩
    simp only [algorithmRules, List.mem_cons, List.not_mem_nil, or_false] at hr
    rcases hr with rfl | rfl | rfl | rfl
    · exact (ends_nameRule h hs request).mono fun _ _ hname => ⟨hname.1, fun _ => hname.2⟩
    · exact hpure _ _ (show descriptionField ≠ nameField by decide)
    · exact hpure _ _ (show mainField ≠ nameField by decide)
    · exact hpure _ _ (show privacyField ≠ nameField by decide)
  exact (ends_done hrule).mono fun _ _ hknown => ⟨hknown.1.1, hknown.1.2, hknown.2⟩

/-- **One objection is enough for a refusal, and it is told there; a request without any
has a name.** -/
theorem ends_judge (h : Spares R I) (hs : I s) (standards : Standards) (request : Request) :
    Ends R (fun result s' => I s' ∧ (result = .ok () → request.Named) ∧
        ∀ r ∈ algorithmRules standards, ∀ o, r.judge request = pure (some o) →
          ∃ refusal, result = .error refusal ∧ o ∈ refusal.objections)
      (judge (algorithmRules standards) request) s := by
  have hrules : ∀ r ∈ covering (algorithmRules standards) request.action, ∀ s, I s →
      Ends R (fun first s' => I s' ∧ Known request r first) (r.judge request) s :=
    fun r hr s hs => ends_known h standards request (List.mem_filter.mp hr).1 hs
  refine Ends.bind (ends_objections hrules hs) ?_
  rintro found s' ⟨hs', hfound⟩
  have htold : ∀ r ∈ algorithmRules standards, ∀ o, r.judge request = pure (some o) →
      o ∈ found := by
    intro r hr o ho
    -- a rule that does not cover the action says nothing
    have hcovers : r.covers request.action = true := by
      rw [FieldRule.covers]
      rcases hcheck : r.checks request.action with - | check
      · rw [FieldRule.judge, hcheck] at ho
        cases ho
      · rfl
    obtain ⟨first, ⟨-, hpure⟩, hmem⟩ := hfound r (List.mem_filter.mpr ⟨hr, hcovers⟩)
    exact hmem o (hpure _ ho)
  have hnamed : found = [] → request.Named := by
    rintro rfl
    by_cases hlist : request.action = .list
    · rw [Request.Named, hlist]
      trivial
    · have hcovers : nameRule.covers request.action = true := by
        cases haction : request.action with
        | list => exact absurd haction hlist
        | _ => rfl
      obtain ⟨first, ⟨hname, -⟩, hmem⟩ :=
        hfound nameRule (List.mem_filter.mpr ⟨List.mem_cons_self, hcovers⟩)
      rcases first with - | o
      · exact hname rfl rfl
      · cases hmem o rfl
  rcases found with - | ⟨o, found⟩
  · refine ⟨hs', fun _ => hnamed rfl, fun r hr o ho => ?_⟩
    cases htold r hr o ho
  · exact ⟨hs', fun heq => (by cases heq), fun r hr o' ho' => ⟨_, rfl, htold r hr o' ho'⟩⟩

end Ends

/-! ### The verdicts on a body -/

theorem textMember_eq_ok_iff {script : Json.Value} {member text : String} :
    textMember script member = .ok text ↔ script.field? member = some (.string text) := by
  rw [textMember]
  rcases script.field? member with - | v
  · simp
  · cases v <;> simp

theorem judgeDescription_eq_ok_iff {found : Option Json.Value} :
    judgeDescription found = .ok () ↔ ∃ text, found = some (.string text) ∧ text ≠ "" := by
  rcases found with - | v
  · simp [judgeDescription]
  · cases v with
    | string text => by_cases htext : text = "" <;> simp [judgeDescription, htext]
    | _ => simp [judgeDescription]

/-- A script passes if it is an object without problems. -/
theorem judgeScript_eq_ok_iff {field : String} {problems : Json.Value → List ScriptProblem}
    {script : Json.Value} : judgeScript field problems script = .ok ()
      ↔ ∃ members, script = .object members ∧ problems script = [] := by
  cases script with
  | object members =>
    simp only [judgeScript, Json.Value.object.injEq, exists_and_right, exists_eq', true_and]
    rcases problems (.object members) with - | ⟨problem, problems⟩ <;> simp [acceptUnless]
  | _ => simp [judgeScript]

/-- The main script must be there. -/
theorem judgeMain_eq_ok_iff {policy : Source.Policy} {found : Option Json.Value} :
    judgeMain policy found = .ok () ↔ ∃ members, found = some (.object members) ∧
      mainProblems (.object members) policy = [] := by
  rcases found with - | script
  · simp [judgeMain]
  · rw [judgeMain, judgeScript_eq_ok_iff]
    constructor
    · rintro ⟨members, rfl, hnone⟩
      exact ⟨members, rfl, hnone⟩
    · rintro ⟨members, ⟨⟩, hnone⟩
      exact ⟨members, rfl, hnone⟩

/-- The privacy script may be absent. -/
theorem judgePrivacy_eq_ok_iff {policy : Source.Policy} {key : AccessKey}
    {found : Option Json.Value} : judgePrivacy policy key found = .ok ()
      ↔ ∀ script, found = some script → ∃ members, script = .object members ∧
        privacyProblems (.object members) policy key = [] := by
  rcases found with - | script
  · simp [judgePrivacy]
  · rw [judgePrivacy, judgeScript_eq_ok_iff]
    constructor
    · rintro ⟨members, rfl, hnone⟩ script ⟨⟩
      exact ⟨members, rfl, hnone⟩
    · intro h
      obtain ⟨members, rfl, hnone⟩ := h script rfl
      exact ⟨members, rfl, hnone⟩

/-- What the rules see in a body that they let pass. -/
structure Grants (standards : Standards) (body : Json.Value) : Prop where
  name : ∃ name : AlgorithmName, body.field? nameField = some (.string name.text)
  description : ∃ text, body.field? descriptionField = some (.string text) ∧ text ≠ ""
  main : ∃ members, body.field? mainField = some (.object members) ∧
    mainProblems (.object members) standards.main = []
  privacy : ∀ block, body.field? privacyField = some block → ∃ members, block = .object members ∧
    privacyProblems (.object members) standards.privacy standards.accessKey = []

/-- **A body that passes the rules is granted what each of them looks at.** -/
theorem ends_judge_carrying {σ : Type} {R : σ → (c : Call) → c.Answer → σ → Prop} {I : σ → Prop}
    (h : Spares R I) {s : σ} (hs : I s) (standards : Standards) {action : Action}
    (haction : action ∈ [Action.create, .update]) (body : Json.Value) :
    Ends R (fun result s' => I s' ∧ (result = .ok () → Grants standards body))
      (judge (algorithmRules standards) (.carrying action body)) s := by
  refine Ends.mono (ends_judge h hs standards _) ?_
  rintro result s' ⟨hs', hnamed, htold⟩
  refine ⟨hs', ?_⟩
  rintro rfl
  have hname : ∃ name : AlgorithmName, body.field? nameField = some (.string name.text) := by
    have hnamed := hnamed rfl
    rw [List.mem_cons, List.mem_singleton] at haction
    rcases haction with rfl | rfl
    · exact hnamed
    · exact hnamed
  -- an objection would have been told, so every verdict is that all is well
  have hsilent : ∀ r ∈ algorithmRules standards, ∀ field verdict,
      r.judge (.carrying action body) = pure (objection? field verdict) → verdict = .ok () := by
    intro r hr field verdict hjudge
    rcases verdict with objection | ⟨⟩
    · obtain ⟨refusal, href, -⟩ := htold r hr _ hjudge
      cases href
    · rfl
  have hdescription := hsilent descriptionRule (by simp [algorithmRules]) _ _
    (judge_pure descriptionField haction _)
  have hmain := hsilent (mainRule standards.main) (by simp [algorithmRules]) _ _
    (judge_pure mainField haction _)
  have hprivacy := hsilent (privacyRule standards.privacy standards.accessKey)
    (by simp [algorithmRules]) _ _ (judge_pure privacyField haction _)
  exact ⟨hname, judgeDescription_eq_ok_iff.mp hdescription, judgeMain_eq_ok_iff.mp hmain,
    judgePrivacy_eq_ok_iff.mp hprivacy⟩

/-! ### Scripts without problems -/

/-- The text of a script without problems keeps the policy for its own class. -/
theorem source_of_problems {script : Json.Value} {policy : Source.Policy} {className : String}
    (h : codeProblems script policy = []) (hclass : textMember script "className" = .ok className) :
    ∃ code source, textMember script "code" = .ok code ∧ openPayload code = .ok source ∧
      Source.violations source.toList policy className = [] := by
  rw [codeProblems] at h
  rcases hcode : textMember script "code" with fault | code
  · rw [hcode] at h
    cases h
  · rw [hcode] at h
    rcases hopen : openPayload code with fault | source
    · simp only [hopen] at h
      cases h
    · simp only [hopen, hclass, List.map_eq_nil_iff] at h
      exact ⟨code, source, rfl, hopen, h⟩

theorem key_of_problems {script : Json.Value} {key : AccessKey} (h : keyProblems script key = []) :
    textMember script "key" = .ok key.secret := by
  rw [keyProblems] at h
  rcases hkey : textMember script "key" with fault | candidate
  · rw [hkey] at h
    cases h
  · simp only [hkey] at h
    by_cases hopens : key.opens candidate = true
    · rw [eq_of_beq hopens]
    · rw [if_neg hopens] at h
      cases h

end ScriptRegistry.Validation
