/-
ScriptRegistry/Validation/Name.lean

The rule for the name of an algorithm.

A name to create must be a slug that nothing is stored under.  All other actions
need a name under which something is stored; a text that is no slug is the name
of nothing.
-/
import ScriptRegistry.Store.Operation
import ScriptRegistry.Validation.Rule

namespace ScriptRegistry.Validation

open Store (Program)

/-- The field that holds the name. -/
def nameField : String := "algoName"

/-- Whether anything is stored under a name. -/
def isStored (name : AlgorithmName) : ExceptT Objection Program Bool :=
  ExceptT.mk do
    match ← (Store.latest name).run with
    | .ok latest => return .ok latest.isSome
    | .error e => return .error (.because .internal s!"error in record lookup: {e.message}")

/-- Something must be stored under the text. -/
def requireStored (text : String) : ExceptT Objection Program Unit := do
  let present ← (match AlgorithmName.ofString text with
    | .ok name => isStored name
    | .error _ => pure false)
  unless present do
    throw (.because .notFound
      ("algoName `" ++ text ++ "` does not exist. Use /add to add the algorithm"))

/-- The name in the body of a request. -/
def givenName (request : Request) : ExceptT Objection Program String :=
  match request.field? nameField with
  | none => throw (.because .invalid "algoName not available")
  | some (.string name) => pure name
  | some _ => throw (.because .invalid "algoName must be a string")

/-- The name must be free. -/
def requireFree (request : Request) : ExceptT Objection Program Unit := do
  match AlgorithmName.ofString (← givenName request) with
  | .error _ =>
    throw (.because .invalid
      "algoName must contain only lower case alphabets, numerals and hyphens.")
  | .ok name =>
    if ← isStored name then
      throw (.because .conflict ("algoName `" ++ name.text ++
        "` already exists. Use /update to update the algorithm"))

/-- The algorithm that the request addresses must exist. -/
def requireAddressed (request : Request) : ExceptT Objection Program Unit :=
  match request.addressed with
  | none => throw (.because .invalid "algoName not available")
  | some name => requireStored name

/-- The name in the body must be in use. -/
def requireGiven (request : Request) : ExceptT Objection Program Unit := do
  requireStored (← givenName request)

/-- The rule for the name. -/
def nameRule : FieldRule :=
  FieldRule.unchecked nameField
    |>.forActions [.create] (fun request => (requireFree request).run)
    |>.forActions [.update] (fun request => (requireGiven request).run)
    |>.forActions [.retrieve, .delete] (fun request => (requireAddressed request).run)

end ScriptRegistry.Validation
