/-
ScriptRegistry/Web/Settings.lean

The settings of a service, read from named variables.

The access key must be set and not empty.  A list of libraries that is set takes
the place of the usual one in both policies; an empty list is a setting too.
-/
import ScriptRegistry.Text.Blank
import ScriptRegistry.Text.Quoted
import ScriptRegistry.Text.Segment
import ScriptRegistry.Validation.Algorithm

namespace ScriptRegistry.Web

open Validation (AccessKey Standards)
open Source (Policy)

/-! ### Variables -/

/-- The variable with the access key. -/
def accessKeyVariable : String := "ALGOBANK_ACCESS_KEY"

/-- The variable with the address to listen at. -/
def listenVariable : String := "ALGOBANK_LISTEN_ADDR"

/-- The variable with the storage root. -/
def storageVariable : String := "ALGOBANK_STORAGE_ROOT"

/-- The variable that opens the service to pages from elsewhere. -/
def corsVariable : String := "ALGOBANK_ENABLE_CORS"

/-- The variable with the forbidden libraries. -/
def forbiddenVariable : String := "ALGOBANK_FORBIDDEN_LIBRARIES"

/-- The variable with the required libraries. -/
def requiredVariable : String := "ALGOBANK_REQUIRED_LIBRARIES"

/-- Why the variables make no settings. -/
inductive SettingsError
  | missingAccessKey
  | invalidFlag (name value : String)
  deriving DecidableEq, Repr

/-- The message of an error in the settings. -/
def SettingsError.message : SettingsError → String
  | .missingAccessKey => s!"{accessKeyVariable} must be set to a non-empty value"
  | .invalidFlag name value =>
    s!"{name} must be one of true, false, 1, 0 (got {Text.quote value})"

/-- The value of a flag; blanks around it and the case of letters do not count, and an
empty one is off. -/
def flag? (value : String) : Option Bool :=
  let word := String.ofList (Text.lowerAscii (Text.trim value.toList))
  if word = "true" ∨ word = "1" then some true
  else if word = "false" ∨ word = "0" ∨ word = "" then some false
  else none

/-- The entries between the commas of a list, without blanks around them; empty
entries do not count. -/
def listEntries (value : String) : List String :=
  (((Text.segments ',' value.toList).map Text.trim).filter (· ≠ [])).map String.ofList

/-! ### Settings -/

/-- The settings of a service. -/
structure Settings where
  listenAddress : String
  storageRoot : String
  accessKey : AccessKey
  cors : Bool
  forbidden : Option (List String)
  required : Option (List String)

namespace Settings

/-- The access key that the variables set. -/
def keyOf (lookup : String → Option String) : Except SettingsError AccessKey :=
  match lookup accessKeyVariable with
  | some secret => if secret.isEmpty then .error .missingAccessKey else .ok ⟨secret⟩
  | none => .error .missingAccessKey

/-- The flag that the variables set; it is off unless set. -/
def corsOf (lookup : String → Option String) : Except SettingsError Bool :=
  match lookup corsVariable with
  | none => .ok false
  | some value => match flag? value with
    | some b => .ok b
    | none => .error (.invalidFlag corsVariable value)

/-- The settings that variables make. -/
def ofVariables (lookup : String → Option String) : Except SettingsError Settings := do
  let accessKey ← keyOf lookup
  let cors ← corsOf lookup
  return {
    listenAddress := (lookup listenVariable).getD "127.0.0.1:3456"
    storageRoot := (lookup storageVariable).getD "./algorithms"
    accessKey, cors
    forbidden := (lookup forbiddenVariable).map listEntries
    required := (lookup requiredVariable).map listEntries }

/-- A policy with the libraries that the settings give. -/
def adapt (s : Settings) (policy : Policy) : Policy :=
  let policy := match s.forbidden with
    | some libraries => policy.withForbidden libraries
    | none => policy
  match s.required with
  | some libraries => policy.withRequired libraries
  | none => policy

/-- What the service holds scripts to. -/
def standards (s : Settings) : Standards :=
  ⟨s.adapt .main, s.adapt .privacy, s.accessKey⟩

end Settings

end ScriptRegistry.Web
