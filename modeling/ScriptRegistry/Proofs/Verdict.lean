/-
ScriptRegistry/Proofs/Verdict.lean

What the rules say of a body, by its fields and by what is stored.

Whether a field is in order can be told without the rules: the three fields
besides the name by themselves (`faultyFields`), the name by the latest version
that is stored under it (`nameFault?`).  The rules find just these faults, in
their order, each for some reason and as severe as it is (`run_judge`).  A refusal
is as severe as the most severe of its objections, so that any invalid field
outweighs a name that is taken or missing.

Main results: `run_judge`, `grants_of_faults` and `severity_eq_worstFault`.
-/
import ScriptRegistry.Proofs.Judging
import ScriptRegistry.Store.Backend

namespace ScriptRegistry.Validation

open Store (Backend Program)

/-! ### Fields in order -/

/-- The text that is given for a name. -/
def givenText? (body : Json.Value) : Option String :=
  (textMember body nameField).toOption

/-- The name that is given, if the text is one. -/
def givenName? (body : Json.Value) : Option AlgorithmName :=
  (givenText? body).bind fun text => (AlgorithmName.ofString text).toOption

/-- Whether the description is a text that is not empty. -/
def describes (body : Json.Value) : Bool :=
  match body.field? descriptionField with
  | some (.string text) => !text.isEmpty
  | _ => false

/-- Whether a value is a script without problems. -/
def isScript (problems : Json.Value → List ScriptProblem) : Json.Value → Bool
  | .object members => (problems (.object members)).isEmpty
  | _ => false

/-- Whether there is a main script, and it has no problems. -/
def hasMain (policy : Source.Policy) (body : Json.Value) : Bool :=
  (body.field? mainField).any (isScript (mainProblems · policy))

/-- Whether the privacy script has no problems, if there is one. -/
def mayHavePrivacy (policy : Source.Policy) (key : AccessKey) (body : Json.Value) : Bool :=
  (body.field? privacyField).all (isScript (privacyProblems · policy key))

/-- The fields besides the name, each with whether it is in order. -/
def otherFields (standards : Standards) (body : Json.Value) : List (String × Bool) :=
  [(descriptionField, describes body), (mainField, hasMain standards.main body),
    (privacyField, mayHavePrivacy standards.privacy standards.accessKey body)]

/-- The fields besides the name that are not in order. -/
def faultyFields (standards : Standards) (body : Json.Value) : List String :=
  ((otherFields standards body).filter (!·.2)).map (·.1)

/-- What is wrong with the name, with the latest version that is stored under each. -/
def nameFault? (latest : AlgorithmName → Option Version) (body : Json.Value) :
    Action → Option Severity
  | .create => match givenName? body with
    | none => some .invalid
    | some name => (latest name).map fun _ => .conflict
  | .update => match givenText? body, (givenName? body).bind latest with
    | none, _ => some .invalid
    | some _, none => some .notFound
    | some _, some _ => none
  | _ => none

/-- The fields that are not in order, with how severe it is. -/
def faults (standards : Standards) (latest : AlgorithmName → Option Version) (action : Action)
    (body : Json.Value) : List (String × Severity) :=
  ((nameFault? latest body action).map (nameField, ·)).toList ++
    (faultyFields standards body).map (·, .invalid)

/-! ### Verdicts -/

/-- A verdict objects as severely as said, for some reason, or it does not object. -/
inductive Tells : Option Severity → Except Objection Unit → Prop
  | passes : Tells none (.ok ())
  | objects {severity : Severity} {reasons : List String} (h : reasons ≠ []) :
      Tells (some severity) (.error ⟨severity, reasons⟩)

/-- The fault of a field that must be in order. -/
def faultUnless (fine : Bool) : Option Severity :=
  if fine then none else some .invalid

theorem tells_because (severity : Severity) (reason : String) :
    Tells (some severity) (.error (.because severity reason)) :=
  .objects (List.cons_ne_nil _ _)

theorem tells_judgeDescription (body : Json.Value) :
    Tells (faultUnless (describes body)) (judgeDescription (body.field? descriptionField)) := by
  rw [describes]
  rcases body.field? descriptionField with - | v
  · exact tells_because _ _
  · cases v with
    | string text =>
      simp only [judgeDescription]
      cases text.isEmpty with
      | true => exact tells_because _ _
      | false => exact .passes
    | _ => exact tells_because _ _

theorem tells_judgeScript (field : String) (problems : Json.Value → List ScriptProblem)
    (script : Json.Value) :
    Tells (faultUnless (isScript problems script)) (judgeScript field problems script) := by
  cases script with
  | object members =>
    rw [isScript, judgeScript]
    cases problems (.object members) with
    | nil => exact .passes
    | cons problem problems => exact .objects (List.cons_ne_nil _ _)
  | _ => exact tells_because _ _

theorem tells_judgeMain (policy : Source.Policy) (body : Json.Value) :
    Tells (faultUnless (hasMain policy body)) (judgeMain policy (body.field? mainField)) := by
  rw [hasMain]
  cases body.field? mainField with
  | none => exact tells_because _ _
  | some script =>
    rw [Option.any_some]
    exact tells_judgeScript mainField _ script

theorem tells_judgePrivacy (policy : Source.Policy) (key : AccessKey) (body : Json.Value) :
    Tells (faultUnless (mayHavePrivacy policy key body))
      (judgePrivacy policy key (body.field? privacyField)) := by
  rw [mayHavePrivacy]
  cases body.field? privacyField with
  | none => exact .passes
  | some script =>
    rw [Option.all_some]
    exact tells_judgeScript privacyField _ script

/-! ### The rules on a backend -/

variable {b : Backend}

/-- On the backend the rule finds the fault, and leaves the backend as it is. -/
def Finds (b : Backend) (request : Request) (r : FieldRule) (fault : Option Severity) : Prop :=
  ∃ verdict, Tells fault verdict ∧
    b.run (r.judge request) = (objection? r.field verdict, b)

/-- A rule finds what its check says. -/
theorem finds_of_check {request : Request} {r : FieldRule} {check : Check}
    (hcheck : r.checks request.action = some check) {fault : Option Severity}
    {verdict : Except Objection Unit} (htells : Tells fault verdict)
    (hrun : b.run (check request) = (verdict, b)) : Finds b request r fault := by
  refine ⟨verdict, htells, ?_⟩
  rw [FieldRule.judge, hcheck, Backend.run, Program.run_bind]
  rw [Backend.run] at hrun
  rw [hrun]
  rcases verdict with objection | ⟨⟩
  · rfl
  · rfl

/-- A name is given as a text, or is missed. -/
theorem run_givenName (b : Backend) (action : Action) (body : Json.Value) :
    (∃ text, givenText? body = some text ∧
        Program.run Backend.answer (givenName (.carrying action body)).run b = (.ok text, b)) ∨
      givenText? body = none ∧ ∃ reason,
        Program.run Backend.answer (givenName (.carrying action body)).run b
          = (.error (.because .invalid reason), b) := by
  rw [givenText?, textMember, givenName, Request.field?, Request.carrying]
  rcases body.field? nameField with - | v
  · exact Or.inr ⟨rfl, _, rfl⟩
  · cases v with
    | string text => exact Or.inl ⟨text, rfl, rfl⟩
    | _ => exact Or.inr ⟨rfl, _, rfl⟩

/-- What is stored under a name is asked for without a change. -/
theorem run_isStored (b : Backend) (name : AlgorithmName) :
    Program.run Backend.answer (isStored name).run b
      = (.ok (b.records.latest? name).isSome, b) := rfl

/-- A text that is no name gives none. -/
theorem givenName?_of_text {body : Json.Value} {text : String} (h : givenText? body = some text) :
    givenName? body = (AlgorithmName.ofString text).toOption := by
  rw [givenName?, h, Option.bind_some]

/-- A name is free unless a version is stored under it. -/
theorem run_requireFree (b : Backend) (body : Json.Value) : ∃ verdict,
    Tells (nameFault? b.records.latest? body .create) verdict ∧
      b.run (requireFree (.carrying .create body)).run = (verdict, b) := by
  rw [Backend.run, requireFree, nameFault?]
  rcases run_givenName b .create body with ⟨text, htext, hgiven⟩ | ⟨htext, reason, hgiven⟩
  · rw [Program.run_bind_ok hgiven, givenName?_of_text htext]
    rcases AlgorithmName.ofString text with fault | name
    · exact ⟨_, tells_because _ _, rfl⟩
    · rw [Program.run_bind_ok (run_isStored b name)]
      show ∃ verdict, Tells ((b.records.latest? name).map fun _ => .conflict) verdict ∧ _
      cases b.records.latest? name with
      | some v => exact ⟨_, tells_because _ _, rfl⟩
      | none => exact ⟨_, .passes, rfl⟩
  · rw [Program.run_bind_error hgiven, givenName?, htext]
    exact ⟨_, tells_because _ _, rfl⟩

/-- A name is in use if a version is stored under it. -/
theorem run_requireGiven (b : Backend) (body : Json.Value) : ∃ verdict,
    Tells (nameFault? b.records.latest? body .update) verdict ∧
      b.run (requireGiven (.carrying .update body)).run = (verdict, b) := by
  rw [Backend.run, requireGiven, nameFault?]
  rcases run_givenName b .update body with ⟨text, htext, hgiven⟩ | ⟨htext, reason, hgiven⟩
  · rw [Program.run_bind_ok hgiven, givenName?_of_text htext, htext, requireStored]
    rcases AlgorithmName.ofString text with fault | name
    · exact ⟨_, tells_because _ _, rfl⟩
    · rw [Program.run_bind_ok (run_isStored b name)]
      simp only [Except.toOption, Option.bind_some]
      cases b.records.latest? name with
      | some v => exact ⟨_, .passes, rfl⟩
      | none => exact ⟨_, tells_because _ _, rfl⟩
  · rw [Program.run_bind_error hgiven, htext]
    exact ⟨_, tells_because _ _, rfl⟩

theorem finds_nameRule (b : Backend) {action : Action} (haction : action ∈ [Action.create, .update])
    (body : Json.Value) :
    Finds b (.carrying action body) nameRule (nameFault? b.records.latest? body action) := by
  rw [List.mem_cons, List.mem_singleton] at haction
  rcases haction with rfl | rfl
  · obtain ⟨verdict, htells, hrun⟩ := run_requireFree b body
    exact finds_of_check rfl htells hrun
  · obtain ⟨verdict, htells, hrun⟩ := run_requireGiven b body
    exact finds_of_check rfl htells hrun

/-- A rule that asks nothing finds what its verdict tells. -/
theorem finds_of_verdict (b : Backend) (field : String) {request : Request}
    (haction : request.action ∈ [Action.create, .update])
    {verdict : Request → Except Objection Unit} {fault : Option Severity}
    (h : Tells fault (verdict request)) :
    Finds b request ((FieldRule.unchecked field).forActions [.create, .update]
      fun request => pure (verdict request)) fault := by
  refine ⟨verdict request, h, ?_⟩
  rw [judge_pure field haction]
  rfl

/-- The objections are those that the rules find, one after the other. -/
theorem run_objections {request : Request} {rows : List (FieldRule × Option Severity)}
    (h : ∀ row ∈ rows, Finds b request row.1 row.2) :
    ∃ found, b.run (objections request (rows.map (·.1))) = (found, b) ∧
      found.map (fun o => (o.field, o.severity))
        = rows.filterMap (fun row => row.2.map (row.1.field, ·)) ∧
      ∀ o ∈ found, o.reasons ≠ [] := by
  induction rows with
  | nil => exact ⟨[], rfl, rfl, fun o ho => by cases ho⟩
  | cons row rows ih =>
    obtain ⟨r, fault⟩ := row
    obtain ⟨verdict, htells, hrun⟩ := h (r, fault) List.mem_cons_self
    obtain ⟨found, hothers, hmap, hreasons⟩ := ih fun row hrow => h row (List.mem_cons_of_mem _ hrow)
    refine ⟨(objection? r.field verdict).toList ++ found, ?_, ?_, ?_⟩
    · rw [Backend.run] at hrun hothers
      rw [List.map_cons, objections, Backend.run, Program.run_bind, hrun, Program.run_bind, hothers]
      rfl
    · cases htells with
      | passes => exact hmap
      | objects hne => exact congrArg _ hmap
    · intro o ho
      rcases List.mem_append.mp ho with ho | ho
      · cases htells with
        | passes => cases ho
        | objects hne =>
          obtain rfl := List.mem_singleton.mp ho
          exact hne
      · exact hreasons o ho

/-- The rules, each with what it finds. -/
def findings (standards : Standards) (latest : AlgorithmName → Option Version) (action : Action)
    (body : Json.Value) : List (FieldRule × Option Severity) :=
  [(nameRule, nameFault? latest body action), (descriptionRule, faultUnless (describes body)),
    (mainRule standards.main, faultUnless (hasMain standards.main body)),
    (privacyRule standards.privacy standards.accessKey,
      faultUnless (mayHavePrivacy standards.privacy standards.accessKey body))]

theorem finds_findings (b : Backend) (standards : Standards) {action : Action}
    (haction : action ∈ [Action.create, .update]) (body : Json.Value) :
    ∀ row ∈ findings standards b.records.latest? action body,
      Finds b (.carrying action body) row.1 row.2 := by
  intro row hrow
  simp only [findings, List.mem_cons, List.not_mem_nil, or_false] at hrow
  rcases hrow with rfl | rfl | rfl | rfl
  · exact finds_nameRule b haction body
  · exact finds_of_verdict b _ haction (tells_judgeDescription body)
  · exact finds_of_verdict b _ haction (tells_judgeMain _ body)
  · exact finds_of_verdict b _ haction (tells_judgePrivacy _ _ body)

/-- The rules find the faults. -/
theorem filterMap_findings (standards : Standards) (latest : AlgorithmName → Option Version)
    (action : Action) (body : Json.Value) :
    (findings standards latest action body).filterMap (fun row => row.2.map (row.1.field, ·))
      = faults standards latest action body := by
  rw [findings, faults, faultyFields, otherFields]
  cases nameFault? latest body action <;> cases describes body <;>
    cases hasMain standards.main body <;>
    cases mayHavePrivacy standards.privacy standards.accessKey body <;> rfl

/-- All rules look at what is to be stored. -/
theorem covering_algorithmRules (standards : Standards) {action : Action}
    (haction : action ∈ [Action.create, .update]) :
    covering (algorithmRules standards) action = algorithmRules standards := by
  rw [List.mem_cons, List.mem_singleton] at haction
  rcases haction with rfl | rfl
  · rfl
  · rfl

/-- The verdict that objections come to. -/
def verdictOf : List FieldObjection → Except Refusal Unit
  | [] => .ok ()
  | found => .error ⟨found⟩

/-- **The rules object to the fields that are not in order, in their order, each as
severely as it is and for some reason.** -/
theorem run_judge (b : Backend) (standards : Standards) {action : Action}
    (haction : action ∈ [Action.create, .update]) (body : Json.Value) :
    ∃ found, b.run (judge (algorithmRules standards) (.carrying action body))
        = (verdictOf found, b) ∧
      found.map (fun o => (o.field, o.severity))
        = faults standards b.records.latest? action body ∧
      ∀ o ∈ found, o.reasons ≠ [] := by
  obtain ⟨found, hrun, hmap, hreasons⟩ :=
    run_objections (finds_findings b standards haction body)
  rw [filterMap_findings] at hmap
  refine ⟨found, ?_, hmap, hreasons⟩
  have hrun : Program.run Backend.answer
      (objections (.carrying action body) (algorithmRules standards)) b = (found, b) := hrun
  have hcovering : covering (algorithmRules standards) (Request.carrying action body).action
      = algorithmRules standards := covering_algorithmRules standards haction
  rw [judge, hcovering, Backend.run, Program.run_bind, hrun]
  cases found with
  | nil => rfl
  | cons o os => rfl

/-! ### Bodies without faults -/

theorem givenName?_eq_some_iff {body : Json.Value} {name : AlgorithmName} :
    givenName? body = some name ↔ body.field? nameField = some (.string name.text) := by
  rw [givenName?, givenText?, ← textMember_eq_ok_iff]
  rcases textMember body nameField with fault | text
  · exact ⟨fun h => (by cases h), fun h => (by cases h)⟩
  · rw [Except.toOption, Option.bind_some, Except.ok.injEq, ← ofString_eq_ok_iff]
    rcases AlgorithmName.ofString text with fault | name'
    · exact ⟨fun h => (by cases h), fun h => (by cases h)⟩
    · rw [Except.toOption, Option.some.injEq, Except.ok.injEq]

theorem Tells.eq_ok {verdict : Except Objection Unit} (h : Tells none verdict) :
    verdict = .ok () := by
  cases h
  rfl

/-- Without a text there is no name. -/
theorem givenName?_of_givenText?_none {body : Json.Value} (h : givenText? body = none) :
    givenName? body = none := by
  rw [givenName?, h, Option.bind_none]

variable {latest : AlgorithmName → Option Version} {body : Json.Value}

theorem nameFault?_create_eq_none_iff : nameFault? latest body .create = none ↔
    ∃ name, givenName? body = some name ∧ latest name = none := by
  rw [nameFault?]
  cases givenName? body with
  | none => simp
  | some name => simp

theorem nameFault?_update_eq_none_iff : nameFault? latest body .update = none ↔
    ∃ name v, givenName? body = some name ∧ latest name = some v := by
  rw [nameFault?]
  rcases htext : givenText? body with - | text
  · simp [givenName?_of_givenText?_none htext]
  · cases givenName? body with
    | none => simp
    | some name => cases hlatest : latest name <;> simp [hlatest]

/-- The fault of a name is never that of the service. -/
theorem internal_ne_nameFault? {action : Action} :
    nameFault? latest body action ≠ some .internal := by
  intro h
  cases action with
  | create =>
    rw [nameFault?] at h
    split at h
    · cases h
    · obtain ⟨-, -, heq⟩ := Option.map_eq_some_iff.mp h
      cases heq
  | update =>
    rw [nameFault?] at h
    split at h <;> cases h
  | _ => cases h

theorem faults_eq_nil_iff {standards : Standards} {action : Action} :
    faults standards latest action body = [] ↔
      nameFault? latest body action = none ∧ faultyFields standards body = [] := by
  rw [faults, List.append_eq_nil_iff, List.map_eq_nil_iff]
  cases nameFault? latest body action <;> simp

/-- Where the name has no fault, there is one. -/
theorem givenName?_of_nameFault?_none {action : Action} (haction : action ∈ [Action.create, .update])
    (h : nameFault? latest body action = none) : ∃ name, givenName? body = some name := by
  rw [List.mem_cons, List.mem_singleton] at haction
  rcases haction with rfl | rfl
  · obtain ⟨name, hname, -⟩ := nameFault?_create_eq_none_iff.mp h
    exact ⟨name, hname⟩
  · obtain ⟨name, v, hname, -⟩ := nameFault?_update_eq_none_iff.mp h
    exact ⟨name, hname⟩

/-- **A body without faults is granted all that the rules look at.** -/
theorem grants_of_faults {standards : Standards} {action : Action}
    (haction : action ∈ [Action.create, .update])
    (h : faults standards latest action body = []) : Grants standards body := by
  obtain ⟨hnameFault, hfields⟩ := faults_eq_nil_iff.mp h
  obtain ⟨name, hname⟩ := givenName?_of_nameFault?_none haction hnameFault
  have hfine : ∀ row ∈ otherFields standards body, row.2 = true := by
    intro row hrow
    have hnot := List.filter_eq_nil_iff.mp (List.map_eq_nil_iff.mp hfields) row hrow
    simpa using hnot
  rw [otherFields] at hfine
  obtain ⟨hdescription, hmain, hprivacy, -⟩ := by simpa only [List.forall_mem_cons] using hfine
  -- a field that is in order has a verdict without objection
  have hdescription' := tells_judgeDescription body
  have hmain' := tells_judgeMain standards.main body
  have hprivacy' := tells_judgePrivacy standards.privacy standards.accessKey body
  rw [hdescription] at hdescription'
  rw [hmain] at hmain'
  rw [hprivacy] at hprivacy'
  exact ⟨⟨name, givenName?_eq_some_iff.mp hname⟩, judgeDescription_eq_ok_iff.mp hdescription'.eq_ok,
    judgeMain_eq_ok_iff.mp hmain'.eq_ok, judgePrivacy_eq_ok_iff.mp hprivacy'.eq_ok⟩

/-! ### The severity of a refusal -/

theorem Severity.worse_eq (a c : Severity) : a.worse c = a ∨ a.worse c = c := by
  rw [worse]
  split
  · exact Or.inl rfl
  · exact Or.inr rfl

theorem Severity.rank_worse_le (a c : Severity) :
    (a.worse c).rank ≤ a.rank ∧ (a.worse c).rank ≤ c.rank := by
  rw [worse]
  split
  · next hle => exact ⟨Nat.le_refl _, hle⟩
  · next hlt => exact ⟨Nat.le_of_not_le hlt, Nat.le_refl _⟩

/-- The worst of several severities is one of them. -/
theorem worst_mem (os : List FieldObjection) (start : Severity) :
    os.foldl (fun worst o => worst.worse o.severity) start ∈ start :: os.map (·.severity) := by
  induction os generalizing start with
  | nil => exact List.mem_singleton_self _
  | cons o os ih =>
    rw [List.foldl_cons, List.map_cons]
    rcases List.mem_cons.mp (ih (start.worse o.severity)) with heq | hmem
    · rw [heq]
      rcases start.worse_eq o.severity with hworse | hworse
      · rw [hworse]
        exact List.mem_cons_self
      · rw [hworse]
        exact List.mem_cons_of_mem _ List.mem_cons_self
    · exact List.mem_cons_of_mem _ (List.mem_cons_of_mem _ hmem)

/-- None of several severities is worse than the worst. -/
theorem rank_worst_le (os : List FieldObjection) (start : Severity) :
    ∀ severity ∈ start :: os.map (·.severity),
      (os.foldl (fun worst o => worst.worse o.severity) start).rank ≤ severity.rank := by
  induction os generalizing start with
  | nil =>
    intro severity hmem
    rw [List.mem_singleton.mp hmem]
    exact Nat.le_refl _
  | cons o os ih =>
    obtain ⟨hstart, hos⟩ := List.forall_mem_cons.mp (ih (start.worse o.severity))
    have hworse := start.rank_worse_le o.severity
    refine List.forall_mem_cons.mpr ⟨Nat.le_trans hstart hworse.1, ?_⟩
    exact List.forall_mem_cons.mpr ⟨Nat.le_trans hstart hworse.2, hos⟩

/-- A refusal is as severe as one of its objections. -/
theorem Refusal.severity_mem {r : Refusal} (h : r.objections ≠ []) :
    r.severity ∈ r.objections.map (·.severity) := by
  obtain ⟨os⟩ := r
  cases os with
  | nil => exact absurd rfl h
  | cons o os => exact worst_mem os o.severity

/-- No objection is more severe than the refusal. -/
theorem Refusal.severity_le {r : Refusal} :
    ∀ severity ∈ r.objections.map (·.severity), r.severity.rank ≤ severity.rank := by
  obtain ⟨os⟩ := r
  cases os with
  | nil => exact fun severity hmem => by cases hmem
  | cons o os => exact rank_worst_le os o.severity

/-- **An invalid field makes the whole request invalid**, unless the service itself failed. -/
theorem Refusal.severity_eq_invalid {r : Refusal}
    (hinvalid : .invalid ∈ r.objections.map (·.severity))
    (hinternal : .internal ∉ r.objections.map (·.severity)) : r.severity = .invalid := by
  have hmem : r.severity ∈ r.objections.map (·.severity) := by
    apply severity_mem
    intro hnil
    rw [hnil] at hinvalid
    cases hinvalid
  have hle := severity_le _ hinvalid
  cases hseverity : r.severity with
  | internal =>
    rw [hseverity] at hmem
    exact absurd hmem hinternal
  | invalid => rfl
  | notFound =>
    rw [hseverity] at hle
    exact absurd hle (by decide)
  | conflict =>
    rw [hseverity] at hle
    exact absurd hle (by decide)

/-- How severe the faults of a body are together: any field besides the name makes it
invalid, and else the name counts. -/
def worstFault (standards : Standards) (latest : AlgorithmName → Option Version) (action : Action)
    (body : Json.Value) : Severity :=
  if faultyFields standards body = [] then (nameFault? latest body action).getD .invalid
  else .invalid

/-- **A refusal is as severe as the faults that it objects to.** -/
theorem severity_eq_worstFault {standards : Standards} {refusal : Refusal} {action : Action}
    (h : refusal.objections.map (fun o => (o.field, o.severity))
      = faults standards latest action body) :
    refusal.severity = worstFault standards latest action body := by
  have hseverities : refusal.objections.map (·.severity)
      = (nameFault? latest body action).toList ++
        (faultyFields standards body).map fun _ => .invalid := by
    have hmap := congrArg (List.map Prod.snd) h
    rw [faults, List.map_append, List.map_map, List.map_map] at hmap
    refine hmap.trans (congrArg (· ++ _) ?_)
    cases nameFault? latest body action <;> rfl
  rw [worstFault]
  split
  · next hfine =>
    rw [hfine, List.map_nil, List.append_nil] at hseverities
    cases hfault : nameFault? latest body action with
    | none =>
      rw [hfault, Option.toList_none, List.map_eq_nil_iff] at hseverities
      rw [Refusal.severity, hseverities]
      rfl
    | some severity =>
      rw [hfault, Option.toList_some] at hseverities
      have hne : refusal.objections ≠ [] := by
        intro hnil
        rw [hnil] at hseverities
        cases hseverities
      have hmem := Refusal.severity_mem hne
      rw [hseverities] at hmem
      exact List.mem_singleton.mp hmem
  · next hfaulty =>
    obtain ⟨field, fields, hfields⟩ := List.exists_cons_of_ne_nil hfaulty
    apply Refusal.severity_eq_invalid
    · rw [hseverities, hfields]
      exact List.mem_append_right _ List.mem_cons_self
    · rw [hseverities, List.mem_append]
      rintro (hmem | hmem)
      · exact internal_ne_nameFault? (Option.mem_toList.mp hmem)
      · obtain ⟨-, -, heq⟩ := List.mem_map.mp hmem
        cases heq

end ScriptRegistry.Validation
