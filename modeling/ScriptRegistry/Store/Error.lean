/-
ScriptRegistry/Store/Error.lean

Why an operation on stored algorithms fails.

Faults of the file tree are told apart by cause and carry the operating system's
number in their message.
-/
import ScriptRegistry.Algorithm.Basic
import ScriptRegistry.Artifact.Key

namespace ScriptRegistry

/-- Why the file tree refuses a path. -/
inductive FileFault
  | missing
  | taken
  | notDirectory
  | isDirectory
  | nameTooLong
  | nulByte
  | notUtf8
  deriving DecidableEq, Repr

/-- The message of a file fault. -/
def FileFault.message : FileFault → String
  | .missing => "No such file or directory (os error 2)"
  | .taken => "File exists (os error 17)"
  | .notDirectory => "Not a directory (os error 20)"
  | .isDirectory => "Is a directory (os error 21)"
  | .nameTooLong => "File name too long (os error 36)"
  | .nulByte => "file name contained an unexpected NUL byte"
  | .notUtf8 => "stream did not contain valid UTF-8"

/-- Why an operation on stored algorithms fails. -/
inductive StoreError
  /-- No version of the name is stored. -/
  | notFound (name : AlgorithmName)
  /-- The name has no such version. -/
  | versionNotFound (name : AlgorithmName) (version : Version)
  /-- The name to create has a version already. -/
  | alreadyExists (name : AlgorithmName)
  /-- The latest version is another one than the insert relied on. -/
  | versionConflict (name : AlgorithmName) (expected actual : Option Version)
  /-- Nothing is stored under the key. -/
  | artifactNotFound (key : Artifact.Key)
  /-- The key does not lead below the storage root. -/
  | escapesRoot (key : Artifact.Key)
  /-- The text is not the one that was stored. -/
  | digestMismatch (key : Artifact.Key)
  /-- A rule of the registry itself is broken. -/
  | input (fault : InputError)
  /-- The file tree refused. -/
  | file (fault : FileFault)
  /-- A collaborator gave up, with the reason it gave. -/
  | interrupted (reason : String)
  deriving DecidableEq, Repr

/-- A latest version as messages show it. -/
def showLatest : Option Version → String
  | none => "None"
  | some v => s!"Some(Version({v.render}))"

namespace StoreError

/-- The message of an error. -/
def message : StoreError → String
  | .notFound name => s!"algorithm {name.text} not found"
  | .versionNotFound name version => s!"algorithm {name.text} has no version {version.render}"
  | .alreadyExists name => s!"algorithm {name.text} already exists"
  | .versionConflict name expected actual =>
    s!"version conflict on {name.text}: expected latest {showLatest expected}, " ++
      s!"found {showLatest actual}"
  | .artifactNotFound key => s!"artifact {key.text} not found"
  | .escapesRoot key => s!"artifact key {key.text} escapes the storage root"
  | .digestMismatch key => s!"artifact {key.text} does not match its recorded digest"
  | .input fault => fault.message
  | .file fault => fault.message
  | .interrupted reason => reason

/-- Whether a lookup found nothing. -/
def isNotFound : StoreError → Bool
  | .notFound _ | .versionNotFound _ _ => true
  | _ => false

/-- Whether a name or a version was taken. -/
def isConflict : StoreError → Bool
  | .alreadyExists _ | .versionConflict _ _ _ => true
  | _ => false

end StoreError

end ScriptRegistry
