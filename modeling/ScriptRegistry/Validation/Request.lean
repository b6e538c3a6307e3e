/-
ScriptRegistry/Validation/Request.lean

What checks look at.

The body stays a JSON value, so that a field of the wrong type is told of that
field and does not spoil the whole body.
-/
import ScriptRegistry.Json.Value

namespace ScriptRegistry.Validation

/-- What a request asks for. -/
inductive Action
  | create
  | update
  | list
  | retrieve
  | delete
  deriving DecidableEq, Repr

/-- All actions in order. -/
def Action.all : List Action :=
  [.create, .update, .list, .retrieve, .delete]

/-- The name by which an action is shown. -/
def Action.render : Action → String
  | .create => "Create"
  | .update => "Update"
  | .list => "List"
  | .retrieve => "Retrieve"
  | .delete => "Delete"

/-- A request: its action, its body, and the algorithm that its address names. -/
structure Request where
  action : Action
  body : Json.Value
  addressed : Option String

namespace Request

/-- A request with a body. -/
def carrying (action : Action) (body : Json.Value) : Request :=
  ⟨action, body, none⟩

/-- A request that addresses an algorithm. -/
def addressing (action : Action) (name : String) : Request :=
  ⟨action, .null, some name⟩

/-- A request with nothing but its action. -/
def plain (action : Action) : Request :=
  ⟨action, .null, none⟩

/-- A field of the body; `null` counts as absent. -/
def field? (r : Request) (name : String) : Option Json.Value :=
  r.body.field? name

end Request

end ScriptRegistry.Validation
