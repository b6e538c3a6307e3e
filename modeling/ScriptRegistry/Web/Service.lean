/-
ScriptRegistry/Web/Service.lean

The five operations of the service: the rules first, then the store.

Nothing is stored, read or removed for a request that is refused.
-/
import ScriptRegistry.Algorithm.Format
import ScriptRegistry.Web.Settings
import ScriptRegistry.Web.Failure

namespace ScriptRegistry.Web

open Store (Program Operation)
open Validation (FieldRule Request Action)

/-- A request on its way: a program that may fail. -/
abbrev Job (α : Type) := ExceptT Failure Program α

/-- Does an operation on the store. -/
def perform {α : Type} (operation : Operation α) : Job α :=
  ExceptT.mk do return (← operation.run).mapError Failure.store

/-- Goes on with the value of an input that may be refused. -/
def accepted {α : Type} (e : Except InputError α) : Job α :=
  ExceptT.mk (pure (e.mapError Failure.ofInput))

/-- A service: the rules that its requests are judged by. -/
structure Service where
  rules : List FieldRule

namespace Service

/-- The service with the given settings. -/
def ofSettings (settings : Settings) : Service :=
  ⟨Validation.algorithmRules settings.standards⟩

/-- Goes on only if no rule objects. -/
def judge (s : Service) (request : Request) : Job Unit :=
  ExceptT.mk do
    return (← Validation.judge s.rules request).mapError Failure.refused

/-- The submission that a valid body holds. -/
def submission (s : Service) (action : Action) (body : Json.Value) : Job Submission := do
  s.judge (.carrying action body)
  match Submission.decoder.ofValue body with
  | .ok submission => return submission
  | .error mismatch => throw (.malformed mismatch.message)

/-- Stores the first version of an algorithm. -/
def create (s : Service) (body : Json.Value) : Job Record := do
  let draft ← accepted (← s.submission .create body).unpack
  perform (Store.create draft)

/-- Stores the next version of an algorithm. -/
def update (s : Service) (body : Json.Value) : Job Record := do
  let draft ← accepted (← s.submission .update body).unpack
  perform (Store.update draft Store.defaultAttempts)

/-- Every name with its latest version. -/
def list (s : Service) : Job (List Latest) := do
  s.judge (.plain .list)
  perform Store.list

/-- The name and the version that a valid address gives. -/
def locate (s : Service) (action : Action) (name : String) (version : Option Nat) :
    Job (AlgorithmName × Option Version) := do
  s.judge (.addressing action name)
  let version ← accepted (version.mapM Version.ofNat)
  return (← accepted (AlgorithmName.ofString name), version)

/-- A version of an algorithm with its texts, the latest one if none is asked for. -/
def retrieve (s : Service) (name : String) (version : Option Nat) : Job Retrieved := do
  let (name, version) ← s.locate .retrieve name version
  perform (Store.retrieve name version)

/-- Removes a version of an algorithm, the latest one if none is asked for. -/
def delete (s : Service) (name : String) (version : Option Nat) : Job Record := do
  let (name, version) ← s.locate .delete name version
  perform (Store.delete name version)

end Service

end ScriptRegistry.Web
