/-
ScriptRegistry/Algorithm/Submission.lean

Submissions and drafts.

A submission is what a request carries: its source texts are payloads, and the
privacy script comes with the access key.  `Submission.unpack` opens the
payloads, the main one first, and gives the draft that can be stored.
-/
import ScriptRegistry.Algorithm.Basic

namespace ScriptRegistry

/-- The main script of a submission; `code` is a payload. -/
structure MainSubmission where
  code : String
  className : String
  reducer : Reducer
  deriving DecidableEq, Repr

/-- The privacy script of a submission; `code` is a payload. -/
structure PrivacySubmission where
  code : String
  className : String
  key : String
  deriving DecidableEq, Repr

/-- The body of a request to create or update an algorithm. -/
structure Submission where
  name : AlgorithmName
  description : String
  main : MainSubmission
  privacy : Option PrivacySubmission
  deriving DecidableEq, Repr

/-- A main script. -/
structure MainScript where
  source : String
  className : String
  reducer : Reducer
  deriving DecidableEq, Repr

/-- A privacy script. -/
structure PrivacyScript where
  source : String
  className : String
  deriving DecidableEq, Repr

/-- All that is stored of one version of an algorithm. -/
structure Draft where
  name : AlgorithmName
  description : String
  main : MainScript
  privacy : Option PrivacyScript
  deriving DecidableEq, Repr

/-- The source text of a payload. -/
def openPayload (code : String) : Except InputError String :=
  (Transport.decodeText code).mapError .payload

/-- The script of a main block. -/
def MainSubmission.unpack (m : MainSubmission) : Except InputError MainScript := do
  return ⟨← openPayload m.code, m.className, m.reducer⟩

/-- The script of a privacy block. -/
def PrivacySubmission.unpack (p : PrivacySubmission) : Except InputError PrivacyScript := do
  return ⟨← openPayload p.code, p.className⟩

/-- The draft that a submission holds. -/
def Submission.unpack (s : Submission) : Except InputError Draft := do
  let main ← s.main.unpack
  let privacy ← (match s.privacy with
    | none => pure none
    | some p => some <$> p.unpack)
  return ⟨s.name, s.description, main, privacy⟩

end ScriptRegistry
