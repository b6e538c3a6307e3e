/-
ScriptRegistry/Validation/Objection.lean

What is said against a request.

A check that does not pass objects, with reasons; the objection becomes one
against the field that was checked, and a refusal gathers the objections against
all fields.  A refusal is as severe as the most severe of them: internal before
invalid before not found before conflict.
-/

namespace ScriptRegistry.Validation

/-- What an objection is about, from the most severe to the least. -/
inductive Severity
  | internal
  | invalid
  | notFound
  | conflict
  deriving DecidableEq, Repr

namespace Severity

/-- The place among all severities; a lower one is more severe. -/
def rank : Severity → Nat
  | .internal => 0
  | .invalid => 1
  | .notFound => 2
  | .conflict => 3

/-- The more severe of two. -/
def worse (a b : Severity) : Severity :=
  if a.rank ≤ b.rank then a else b

/-- The severity as it is written. -/
def render : Severity → String
  | .internal => "internal"
  | .invalid => "invalid"
  | .notFound => "not_found"
  | .conflict => "conflict"

end Severity

/-- What a check says that does not pass. -/
structure Objection where
  severity : Severity
  reasons : List String
  deriving DecidableEq, Repr

/-- An objection for one reason. -/
def Objection.because (severity : Severity) (reason : String) : Objection :=
  ⟨severity, [reason]⟩

/-- A value is invalid if there is any reason against it. -/
def acceptUnless : List String → Except Objection Unit
  | [] => .ok ()
  | reasons => .error ⟨.invalid, reasons⟩

/-- An objection against a field. -/
structure FieldObjection where
  field : String
  severity : Severity
  reasons : List String
  deriving DecidableEq, Repr

/-- An objection as one against a field. -/
def Objection.onField (o : Objection) (field : String) : FieldObjection :=
  ⟨field, o.severity, o.reasons⟩

/-- The message of an objection against a field. -/
def FieldObjection.message (o : FieldObjection) : String :=
  "invalid `" ++ o.field ++ "`: " ++ String.intercalate "; " o.reasons

/-- The objections against a request that is refused. -/
structure Refusal where
  objections : List FieldObjection
  deriving DecidableEq, Repr

/-- The message of a refusal. -/
def Refusal.message (r : Refusal) : String :=
  "field check failed: " ++ String.intercalate ", " (r.objections.map FieldObjection.message)

/-- The most severe of the objections; without any, a refusal counts as invalid. -/
def Refusal.severity (r : Refusal) : Severity :=
  match r.objections with
  | [] => .invalid
  | o :: os => os.foldl (fun worst o => worst.worse o.severity) o.severity

end ScriptRegistry.Validation
