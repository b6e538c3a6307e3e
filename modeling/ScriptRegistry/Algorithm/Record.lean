/-
ScriptRegistry/Algorithm/Record.lean

Records: what the registry keeps of every version of an algorithm, and the forms
in which it is read back.

A record holds no source text.  It refers to each text by its key and the digest
it was written with; a `Retrieved` algorithm has the texts themselves in place
of the references.
-/
import ScriptRegistry.Algorithm.Basic
import ScriptRegistry.Artifact.Key
import ScriptRegistry.Time.Moment

namespace ScriptRegistry

/-- A stored text and the digest it was written with. -/
structure TextRef where
  key : Artifact.Key
  digest : Artifact.Digest
  deriving DecidableEq, Repr

/-- The main script of a record. -/
structure RecordMain where
  artifact : TextRef
  className : String
  reducer : Reducer
  deriving DecidableEq, Repr

/-- The privacy script of a record. -/
structure RecordPrivacy where
  artifact : TextRef
  className : String
  deriving DecidableEq, Repr

/-- One version of an algorithm. -/
structure Record where
  name : AlgorithmName
  version : Version
  description : String
  main : RecordMain
  privacy : Option RecordPrivacy
  createdAt : Time.Moment
  deriving DecidableEq, Repr

/-- The keys of the texts of a record, the main one first. -/
def Record.keys (r : Record) : List Artifact.Key :=
  r.main.artifact.key :: (r.privacy.map (·.artifact.key)).toList

/-- The main script of a retrieved algorithm. -/
structure RetrievedMain where
  code : String
  className : String
  reducer : Reducer
  deriving DecidableEq, Repr

/-- The privacy script of a retrieved algorithm. -/
structure RetrievedPrivacy where
  code : String
  className : String
  deriving DecidableEq, Repr

/-- One version of an algorithm with its source texts. -/
structure Retrieved where
  name : AlgorithmName
  version : Version
  description : String
  main : RetrievedMain
  privacy : Option RetrievedPrivacy
  createdAt : Time.Moment
  deriving DecidableEq, Repr

/-- A name with its latest version. -/
structure Latest where
  name : AlgorithmName
  version : Version
  deriving DecidableEq, Repr

end ScriptRegistry
