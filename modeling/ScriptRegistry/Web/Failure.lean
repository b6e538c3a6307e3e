/-
ScriptRegistry/Web/Failure.lean

Why a request fails, and the status it is answered with.

A request is refused by a rule, fails in the store, or is malformed in a way
that no rule covers.
-/
import ScriptRegistry.Json.Value
import ScriptRegistry.Store.Error
import ScriptRegistry.Validation.Objection

namespace ScriptRegistry.Web

open Validation (Severity Refusal)

/-- Why a request fails. -/
inductive Failure
  | refused (refusal : Refusal)
  | store (error : StoreError)
  | malformed (reason : String)
  deriving DecidableEq, Repr

namespace Failure

/-- A refused input makes a request malformed. -/
def ofInput (e : InputError) : Failure :=
  .malformed e.message

/-- The message of a failure. -/
def message : Failure → String
  | .refused refusal => refusal.message
  | .store error => s!"store error: {error.message}"
  | .malformed reason => s!"invalid request: {reason}"

/-- The status for a refusal of the given severity. -/
def statusOf : Severity → Nat
  | .internal => 500
  | .invalid => 400
  | .notFound => 404
  | .conflict => 409

/-- The status for a failure. -/
def status : Failure → Nat
  | .refused refusal => statusOf refusal.severity
  | .store error =>
    if error.isNotFound then 404 else if error.isConflict then 409 else 500
  | .malformed _ => 400

/-- The fields objected to, once for each of the reasons. -/
def entries : Failure → List (String × String)
  | .refused refusal =>
    refusal.objections.flatMap fun o => o.reasons.map fun reason => (o.field, reason)
  | _ => []

/-- The body by which a failure is answered. -/
def toJson (e : Failure) : Json.Value :=
  .ofMembers [("ok", .bool false), ("error", .string e.message),
    ("failures", .array (e.entries.map fun (field, reason) =>
      .ofMembers [("field", .string field), ("reason", .string reason)]))]

end Failure

end ScriptRegistry.Web
