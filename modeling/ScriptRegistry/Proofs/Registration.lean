/-
ScriptRegistry/Proofs/Registration.lean

Rules as they are put together, and what several of them decide together.

A field has a check for an action if one was registered for it, and of several the
last one counts (`Registered.checks_rule`).  The rules have their turns one after the
other, so that a check may in principle meet what an earlier one has left.  Where it
comes to the same verdict all the same (`Steady`), each rule says in its turn what it
says by itself (`objectionsOf_turns`): then their order does not count, and one more
of them can but add an objection.

Main result: `judge_registered`.
-/
import ScriptRegistry.Proofs.Verdict
import ScriptRegistry.Web.Failure

namespace ScriptRegistry.Validation

open Store (Backend Call Program)

/-! ### Registrations -/

/-- A check, with the actions that it is registered for. -/
structure Registration where
  actions : List Action
  check : Check

/-- A field, with what is registered for it, in that order. -/
structure Registered where
  field : String
  registrations : List Registration

namespace Registered

/-- The rule that the registrations make. -/
def rule (v : Registered) : FieldRule :=
  v.registrations.foldl (fun r g => r.forActions g.actions g.check) (.unchecked v.field)

/-- The check that was last registered for an action. -/
def last? (v : Registered) (action : Action) : Option Check :=
  (v.registrations.reverse.find? (action ∈ ·.actions)).map Registration.check

theorem field_foldl (registrations : List Registration) (r : FieldRule) :
    (registrations.foldl (fun r g => r.forActions g.actions g.check) r).field = r.field := by
  induction registrations generalizing r with
  | nil => rfl
  | cons g registrations ih => rw [List.foldl_cons, ih, FieldRule.forActions]

/-- Whatever was there before counts as registered first. -/
theorem checks_foldl (registrations : List Registration) (r : FieldRule) (action : Action) :
    (registrations.foldl (fun r g => r.forActions g.actions g.check) r).checks action =
      ((registrations.reverse.find? (action ∈ ·.actions)).map Registration.check).or
        (r.checks action) := by
  induction registrations generalizing r with
  | nil => rfl
  | cons g registrations ih =>
    rw [List.foldl_cons, ih, List.reverse_cons, List.find?_append, FieldRule.forActions]
    rcases hlater : registrations.reverse.find? (action ∈ ·.actions) with - | last
    · by_cases haction : action ∈ g.actions
      · simp [hlater, haction]
      · simp [hlater, haction]
    · simp [hlater]

@[simp]
theorem field_rule (v : Registered) : v.rule.field = v.field :=
  field_foldl _ _

/-- The last registration for an action counts. -/
theorem checks_rule (v : Registered) (action : Action) : v.rule.checks action = v.last? action := by
  rw [rule, checks_foldl, last?]
  exact Option.or_none

end Registered

/-! ### What each rule says -/

variable {σ : Type} {answer : σ → (c : Call) → c.Answer × σ} {request : Request} {s : σ}

namespace Registered

/-- What a rule says of a request when it is asked in a state: what the check says that was last
registered for its action, if any was. -/
def verdict (answer : σ → (c : Call) → c.Answer × σ) (request : Request) (s : σ)
    (v : Registered) : Except Objection Unit :=
  match v.last? request.action with
  | none => .ok ()
  | some check => ((check request).run answer s).1

/-- The state after a rule was asked. -/
def after (answer : σ → (c : Call) → c.Answer × σ) (request : Request) (s : σ)
    (v : Registered) : σ :=
  match v.last? request.action with
  | none => s
  | some check => ((check request).run answer s).2

theorem run_judge_rule (v : Registered) : (v.rule.judge request).run answer s =
    (objection? v.field (v.verdict answer request s), v.after answer request s) := by
  rw [FieldRule.judge, checks_rule, verdict, after]
  rcases v.last? request.action with - | check
  · rfl
  · dsimp only
    rw [Program.run_bind, field_rule]
    rcases ((check request).run answer s).1 with objection | ⟨⟩
    · rfl
    · rfl

/-- A rule without a check for the action has nothing to say. -/
theorem eq_of_not_covers {v : Registered} (h : ¬ v.rule.covers request.action = true) :
    v.verdict answer request s = .ok () ∧ v.after answer request s = s := by
  rw [FieldRule.covers, checks_rule, Bool.not_eq_true, Option.isSome_eq_false_iff,
    Option.isNone_iff_eq_none] at h
  rw [verdict, after, h]
  exact ⟨rfl, rfl⟩

end Registered

/-! ### Rules in turn -/

/-- The rules, each with the state that those before it have left. -/
def turns (answer : σ → (c : Call) → c.Answer × σ) (request : Request) :
    σ → List Registered → List (Registered × σ)
  | _, [] => []
  | s, v :: vs => (v, s) :: turns answer request (v.after answer request s) vs

/-- What rules object to a request, each in its state. -/
def objectionsOf (answer : σ → (c : Call) → c.Answer × σ) (request : Request)
    (rows : List (Registered × σ)) : List FieldObjection :=
  rows.filterMap fun row => objection? row.1.field (row.1.verdict answer request row.2)

/-- Rules put behind others are asked after them. -/
theorem turns_append (vs more : List Registered) (s : σ) : ∃ s',
    turns answer request s (vs ++ more) =
      turns answer request s vs ++ turns answer request s' more := by
  induction vs generalizing s with
  | nil => exact ⟨s, rfl⟩
  | cons v vs ih =>
    obtain ⟨s', hrest⟩ := ih (v.after answer request s)
    refine ⟨s', ?_⟩
    rw [List.cons_append, turns, hrest]
    rfl

theorem run_objections_turns (vs : List Registered) (s : σ) :
    ((objections request (covering (vs.map Registered.rule) request.action)).run answer s).1 =
      objectionsOf answer request (turns answer request s vs) := by
  induction vs generalizing s with
  | nil => rfl
  | cons v vs ih =>
    rw [List.map_cons, covering, List.filter_cons, turns, objectionsOf, List.filterMap_cons]
    by_cases hcovers : v.rule.covers request.action = true
    · have hrest := ih (v.after answer request s)
      rw [covering, objectionsOf] at hrest
      rw [if_pos hcovers, objections, Program.run_bind, Program.run_bind, v.run_judge_rule, hrest]
      rcases v.verdict answer request s with objection | ⟨⟩
      · rfl
      · rfl
    · obtain ⟨hverdict, hafter⟩ := Registered.eq_of_not_covers (s := s) hcovers
      rw [if_neg hcovers, hverdict, hafter]
      exact ih s

/-- What rules decide together on a request. -/
def decision (answer : σ → (c : Call) → c.Answer × σ) (request : Request) (s : σ)
    (vs : List Registered) : Except Refusal Unit :=
  ((judge (vs.map Registered.rule) request).run answer s).1

theorem decision_eq (vs : List Registered) : decision answer request s vs =
    verdictOf (objectionsOf answer request (turns answer request s vs)) := by
  rw [decision, judge, Program.run_bind, run_objections_turns]
  rcases objectionsOf answer request (turns answer request s vs) with - | ⟨o, os⟩
  · rfl
  · rfl

theorem objectionsOf_eq_nil_iff {rows : List (Registered × σ)} :
    objectionsOf answer request rows = [] ↔
      ∀ row ∈ rows, row.1.verdict answer request row.2 = .ok () := by
  rw [objectionsOf, List.filterMap_eq_nil_iff]
  refine forall_congr' fun row => forall_congr' fun _ => ?_
  rcases row.1.verdict answer request row.2 with objection | ⟨⟩
  · exact ⟨fun h => (by cases h), fun h => (by cases h)⟩
  · exact ⟨fun _ => rfl, fun _ => rfl⟩

/-! ### Steady checks -/

/-- A check comes to the same verdict on a request in all of some states, and keeps to them. -/
structure Steady (answer : σ → (c : Call) → c.Answer × σ) (I : σ → Prop) (request : Request)
    (check : Check) : Prop where
  keeps : ∀ s, I s → I ((check request).run answer s).2
  same : ∀ s s', I s → I s' →
    ((check request).run answer s').1 = ((check request).run answer s).1

variable {I : σ → Prop}

/-- A check that asks nothing is steady. -/
theorem steady_pure (verdict : Request → Except Objection Unit) :
    Steady answer I request fun request => pure (verdict request) where
  keeps := fun _ hs => hs
  same := fun _ _ _ _ => rfl

/-- A check that leaves a state as it is is steady there. -/
theorem steady_of_run {check : Check} {verdict : Except Objection Unit}
    (h : (check request).run answer s = (verdict, s)) : Steady answer (· = s) request check where
  keeps := by
    rintro _ rfl
    rw [h]
  same := by
    rintro _ _ rfl rfl
    rfl

/-- The check that counts is steady. -/
def Registered.IsSteady (answer : σ → (c : Call) → c.Answer × σ) (I : σ → Prop)
    (request : Request) (v : Registered) : Prop :=
  ∀ check, v.last? request.action = some check → Steady answer I request check

theorem Registered.IsSteady.verdict_eq {v : Registered} (h : v.IsSteady answer I request)
    (hs : I s) {s' : σ} (hs' : I s') :
    v.verdict answer request s' = v.verdict answer request s ∧ I (v.after answer request s') := by
  rw [verdict, verdict, after]
  rcases hlast : v.last? request.action with - | check
  · exact ⟨rfl, hs'⟩
  · exact ⟨(h check hlast).same s s' hs hs', (h check hlast).keeps s' hs'⟩

/-- Steady rules object to the same whether they are asked in turn or each by itself. -/
theorem objectionsOf_turns {vs : List Registered} (h : ∀ v ∈ vs, v.IsSteady answer I request)
    (hs : I s) {s' : σ} (hs' : I s') : objectionsOf answer request (turns answer request s' vs) =
      objectionsOf answer request (vs.map (·, s)) := by
  induction vs generalizing s' with
  | nil => rfl
  | cons v vs ih =>
    obtain ⟨hverdict, hkept⟩ := (h v List.mem_cons_self).verdict_eq hs hs'
    have hrest := ih (fun v hv => h v (List.mem_cons_of_mem _ hv)) hkept
    rw [objectionsOf, objectionsOf] at hrest
    rw [turns, List.map_cons, objectionsOf, objectionsOf, List.filterMap_cons,
      List.filterMap_cons, hverdict, hrest]

/-! ### Orders and additions -/

theorem verdictOf_eq_ok_iff {found : List FieldObjection} :
    verdictOf found = .ok () ↔ found = [] := by
  rcases found with - | ⟨o, os⟩ <;> simp [verdictOf]

theorem verdictOf_eq_error_iff {found : List FieldObjection} {refusal : Refusal} :
    verdictOf found = .error refusal ↔ found ≠ [] ∧ refusal = ⟨found⟩ := by
  rcases found with - | ⟨o, os⟩ <;> simp [verdictOf, eq_comm]

theorem Severity.rank_inj {a c : Severity} (h : a.rank = c.rank) : a = c := by
  cases a <;> cases c <;> first | rfl | cases h

/-- With more objections a refusal does not become less severe. -/
theorem Refusal.rank_severity_le {r r' : Refusal} (hne : r.objections ≠ [])
    (h : ∀ o ∈ r.objections, o ∈ r'.objections) : r'.severity.rank ≤ r.severity.rank := by
  refine Refusal.severity_le _ ?_
  obtain ⟨o, ho, hseverity⟩ := List.mem_map.mp (Refusal.severity_mem hne)
  exact List.mem_map.mpr ⟨o, h o ho, hseverity⟩

/-- The order of the objections does not count. -/
theorem Refusal.severity_of_perm {r r' : Refusal} (h : r.objections.Perm r'.objections)
    (hne : r.objections ≠ []) : r'.severity = r.severity := by
  have hne' : r'.objections ≠ [] := fun hnil => hne (hnil ▸ h).eq_nil
  exact Severity.rank_inj (Nat.le_antisymm
    (rank_severity_le hne fun o ho => h.mem_iff.mp ho)
    (rank_severity_le hne' fun o ho => h.mem_iff.mpr ho))

/-- Two verdicts agree up to the order of the objections. -/
def SameVerdict : Except Refusal Unit → Except Refusal Unit → Prop
  | .ok _, .ok _ => True
  | .error r, .error r' => r.objections.Perm r'.objections ∧ r'.severity = r.severity ∧
      (Web.Failure.refused r').status = (Web.Failure.refused r).status
  | _, _ => False

theorem sameVerdict_of_perm {found found' : List FieldObjection} (h : found.Perm found') :
    SameVerdict (verdictOf found) (verdictOf found') := by
  by_cases hnil : found = []
  · subst hnil
    rw [h.symm.eq_nil]
    trivial
  · have hnil' : found' ≠ [] := fun hnil' => hnil (hnil' ▸ h).eq_nil
    rw [verdictOf_eq_error_iff.mpr ⟨hnil, rfl⟩, verdictOf_eq_error_iff.mpr ⟨hnil', rfl⟩]
    have hseverity : (Refusal.mk found').severity = (Refusal.mk found).severity :=
      Refusal.severity_of_perm h hnil
    refine ⟨h, hseverity, ?_⟩
    rw [Web.Failure.status, Web.Failure.status, hseverity]

/-- **A request is accepted exactly if every rule accepts it in its turn, and else the refusal holds
their objections in order; rules put behind the others make no refusal an acceptance, nor less
severe.  Steady rules say in turn what each of them says by itself, and then their order does not
count.** -/
theorem judge_registered (answer : σ → (c : Call) → c.Answer × σ) (request : Request) (s : σ)
    (vs : List Registered) :
    (decision answer request s vs = .ok () ↔
      ∀ row ∈ turns answer request s vs, row.1.verdict answer request row.2 = .ok ()) ∧
    (decision answer request s vs ≠ .ok () → decision answer request s vs =
      .error ⟨objectionsOf answer request (turns answer request s vs)⟩) ∧
    (∀ more refusal, decision answer request s vs = .error refusal →
      ∃ refusal', decision answer request s (vs ++ more) = .error refusal' ∧
        refusal'.severity.rank ≤ refusal.severity.rank) ∧
    ∀ I : σ → Prop, I s → (∀ v ∈ vs, v.IsSteady answer I request) →
      (decision answer request s vs = .ok () ↔
        ∀ v ∈ vs, v.verdict answer request s = .ok ()) ∧
      (decision answer request s vs ≠ .ok () → decision answer request s vs =
        .error ⟨objectionsOf answer request (vs.map (·, s))⟩) ∧
      ∀ vs', vs.Perm vs' →
        SameVerdict (decision answer request s vs) (decision answer request s vs') := by
  have herror : ∀ found, verdictOf found ≠ .ok () → verdictOf found = .error ⟨found⟩ :=
    fun found hne => verdictOf_eq_error_iff.mpr ⟨fun h => hne (verdictOf_eq_ok_iff.mpr h), rfl⟩
  refine ⟨?_, ?_, fun more refusal hrefusal => ?_, fun I hs h => ?_⟩
  · rw [decision_eq, verdictOf_eq_ok_iff, objectionsOf_eq_nil_iff]
  · rw [decision_eq]
    exact herror _
  · -- what the first rules object to is objected to again
    rw [decision_eq, verdictOf_eq_error_iff] at hrefusal
    obtain ⟨hne, rfl⟩ := hrefusal
    obtain ⟨s', hturns⟩ := turns_append vs more s
    have hmore : objectionsOf answer request (turns answer request s (vs ++ more)) =
        objectionsOf answer request (turns answer request s vs) ++
          objectionsOf answer request (turns answer request s' more) := by
      rw [hturns]
      exact List.filterMap_append
    refine ⟨_, (decision_eq _).trans (verdictOf_eq_error_iff.mpr ⟨?_, rfl⟩), ?_⟩
    · rw [hmore]
      exact fun hnil => hne (List.append_eq_nil_iff.mp hnil).1
    · refine Refusal.rank_severity_le hne fun o ho => ?_
      rw [hmore]
      exact List.mem_append_left _ ho
  have hdecision : ∀ vs : List Registered, (∀ v ∈ vs, v.IsSteady answer I request) →
      decision answer request s vs =
        verdictOf (objectionsOf answer request (vs.map (·, s))) := by
    intro vs h
    rw [decision_eq, objectionsOf_turns h hs hs]
  refine ⟨?_, ?_, fun vs' hperm => ?_⟩
  · rw [hdecision vs h, verdictOf_eq_ok_iff, objectionsOf_eq_nil_iff, List.forall_mem_map]
  · rw [hdecision vs h]
    exact herror _
  · rw [hdecision vs h, hdecision vs' fun v hv => h v (hperm.mem_iff.mpr hv)]
    exact sameVerdict_of_perm ((hperm.map _).filterMap _)

/-- A check that closes the name to all is replaced for new names; the missing description is all
that is objected to. -/
theorem judge_registered_replaced :
    let b : Backend := .fresh Artifact.Token.ofNat .epoch
    let request : Request := .carrying .create (.object [("algoName", .string "mean")])
    let name : Registered := ⟨nameField,
      [⟨[.create, .update], fun _ => pure (.error (.because .conflict "closed"))⟩,
        ⟨[.create], fun request => (requireFree request).run⟩]⟩
    let description : Registered := ⟨descriptionField,
      [⟨[.create, .update], fun request =>
        pure (judgeDescription (request.field? descriptionField))⟩]⟩
    (∀ v ∈ [name, description], v.IsSteady Backend.answer (· = b) request) ∧
    decision Backend.answer request b [name, description] =
      .error ⟨[⟨descriptionField, .invalid, ["description not available"]⟩]⟩ := by
  intro b request name description
  have hsteady : ∀ v ∈ [name, description], v.IsSteady Backend.answer (· = b) request := by
    intro v hv check hcheck
    rcases List.mem_cons.mp hv with rfl | hv
    · cases hcheck
      exact steady_of_run rfl
    · obtain rfl := List.mem_singleton.mp hv
      cases hcheck
      exact steady_pure _
  obtain ⟨-, -, -, hjudged⟩ := judge_registered Backend.answer request b [name, description]
  obtain ⟨haccepts, hrefuses, -⟩ := hjudged (· = b) rfl hsteady
  refine ⟨hsteady, hrefuses fun hok => ?_⟩
  cases haccepts.mp hok description (List.mem_cons_of_mem _ List.mem_cons_self)

end ScriptRegistry.Validation
