/-
ScriptRegistry/Source/Policy.lean

Policies: what a script may import, must import and must derive from.
-/

namespace ScriptRegistry.Source

/-- A policy for one kind of script. -/
structure Policy where
  forbidden : List String
  required : List String
  baseClass : String
  deriving DecidableEq, Repr

/-- The libraries that no script may import unless the service is told otherwise. -/
def defaultForbidden : List String := ["multiprocessing"]

/-- The libraries that every script must import unless the service is told otherwise. -/
def defaultRequired : List String := ["opalalgorithms"]

/-- The policy with the default libraries and the given base class. -/
def Policy.ofBase (baseClass : String) : Policy :=
  ⟨defaultForbidden, defaultRequired, baseClass⟩

/-- The default policy for main scripts. -/
def Policy.main : Policy :=
  .ofBase "OPALAlgorithm"

/-- The default policy for privacy scripts. -/
def Policy.privacy : Policy :=
  .ofBase "OPALPrivacy"

/-- A policy with other forbidden libraries. -/
def Policy.withForbidden (p : Policy) (libraries : List String) : Policy :=
  { p with forbidden := libraries }

/-- A policy with other required libraries. -/
def Policy.withRequired (p : Policy) (libraries : List String) : Policy :=
  { p with required := libraries }

end ScriptRegistry.Source
