/-
ScriptRegistry/Validation/Rule.lean

Rules for the fields of a request.

The rule of a field has at most one check for every action.  A request is judged
by all rules that cover its action; every one of them is looked at, and every
objection is told, in the order of the rules.
-/
import ScriptRegistry.Store.Program
import ScriptRegistry.Text.Quoted
import ScriptRegistry.Validation.Objection
import ScriptRegistry.Validation.Request

namespace ScriptRegistry.Validation

open Store (Program)

/-- What decides on a request: it passes, or there is an objection. -/
abbrev Check := Request → Program (Except Objection Unit)

/-- A field with its checks. -/
structure FieldRule where
  field : String
  checks : Action → Option Check

namespace FieldRule

/-- A field without checks. -/
def unchecked (field : String) : FieldRule :=
  ⟨field, fun _ => none⟩

/-- Sets the check for some actions, in place of earlier ones. -/
def forActions (r : FieldRule) (actions : List Action) (check : Check) : FieldRule :=
  { r with checks := fun action => if action ∈ actions then some check else r.checks action }

/-- Whether there is a check for an action. -/
def covers (r : FieldRule) (action : Action) : Bool :=
  (r.checks action).isSome

/-- The actions for which there is a check. -/
def actions (r : FieldRule) : List Action :=
  Action.all.filter r.covers

/-- Decides on a request; where there is no check for its action, it passes. -/
def judge (r : FieldRule) (request : Request) : Program (Option FieldObjection) :=
  match r.checks request.action with
  | none => pure none
  | some check => do
    match ← check request with
    | .ok () => return none
    | .error objection => return some (objection.onField r.field)

/-- A rule as it is shown: its field and its actions. -/
def render (r : FieldRule) : String :=
  "FieldValidator \x7b field: " ++ Text.quote r.field ++ ", kinds: [" ++
    String.intercalate ", " (r.actions.map Action.render) ++ "] \x7d"

end FieldRule

/-- The objections that the given rules have against a request. -/
def objections (request : Request) : List FieldRule → Program (List FieldObjection)
  | [] => pure []
  | r :: rs => do
    let first ← r.judge request
    let others ← objections request rs
    return first.toList ++ others

/-- The rules that cover an action. -/
def covering (rules : List FieldRule) (action : Action) : List FieldRule :=
  rules.filter (·.covers action)

/-- Decides on a request by the rules that cover its action. -/
def judge (rules : List FieldRule) (request : Request) : Program (Except Refusal Unit) := do
  match ← objections request (covering rules request.action) with
  | [] => return .ok ()
  | found => return .error ⟨found⟩

end ScriptRegistry.Validation
