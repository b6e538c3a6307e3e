/-
ScriptRegistry/Algorithm/Written.lean

The JSON texts of policies, submissions, records and retrieved algorithms.

A text has the members of a record in the order of their declaration, in its parts
as well; a value keeps them in the order of their names (`toJson`).  Names, versions,
reducers, digests, keys and times have no members, so their texts are those of their
values.
-/
import ScriptRegistry.Algorithm.Format

namespace ScriptRegistry

open Json

/-! ### Policies and submissions -/

/-- A policy as it is written. -/
def Source.Policy.written (p : Source.Policy) : Value :=
  .object [("forbidden_libraries", .strings p.forbidden),
    ("required_libraries", .strings p.required), ("base_class", .string p.baseClass)]

/-- The main block of a submission as it is written. -/
def MainSubmission.written (m : MainSubmission) : Value :=
  .object [("code", .string m.code), ("className", .string m.className),
    ("reducer", m.reducer.toJson)]

/-- The privacy block of a submission as it is written. -/
def PrivacySubmission.written (p : PrivacySubmission) : Value :=
  .object [("code", .string p.code), ("className", .string p.className),
    ("key", .string p.key)]

/-- A submission as it is written. -/
def Submission.written (s : Submission) : Value :=
  .object [("algoName", s.name.toJson), ("description", .string s.description),
    ("algorithm", s.main.written),
    ("privacyAlgorithm", .optional PrivacySubmission.written s.privacy)]

/-! ### Records -/

/-- A reference to a stored text as it is written. -/
def TextRef.written (a : TextRef) : Value :=
  .object [("key", a.key.toJson), ("digest", a.digest.toJson)]

/-- The main part of a record as it is written. -/
def RecordMain.written (m : RecordMain) : Value :=
  .object [("artifact", m.artifact.written), ("className", .string m.className),
    ("reducer", m.reducer.toJson)]

/-- The privacy part of a record as it is written. -/
def RecordPrivacy.written (p : RecordPrivacy) : Value :=
  .object [("artifact", p.artifact.written), ("className", .string p.className)]

/-- A record as it is written. -/
def Record.written (r : Record) : Value :=
  .object [("algoName", r.name.toJson), ("version", r.version.toJson),
    ("description", .string r.description), ("algorithm", r.main.written),
    ("privacyAlgorithm", .optional RecordPrivacy.written r.privacy),
    ("createdAt", r.createdAt.toJson)]

/-! ### Retrieved algorithms -/

/-- The main part of a retrieved algorithm as it is written. -/
def RetrievedMain.written (m : RetrievedMain) : Value :=
  .object [("code", .string m.code), ("className", .string m.className),
    ("reducer", m.reducer.toJson)]

/-- The privacy part of a retrieved algorithm as it is written. -/
def RetrievedPrivacy.written (p : RetrievedPrivacy) : Value :=
  .object [("code", .string p.code), ("className", .string p.className)]

/-- A retrieved algorithm as it is written. -/
def Retrieved.written (r : Retrieved) : Value :=
  .object [("algoName", r.name.toJson), ("version", r.version.toJson),
    ("description", .string r.description), ("algorithm", r.main.written),
    ("privacyAlgorithm", .optional RetrievedPrivacy.written r.privacy),
    ("createdAt", r.createdAt.toJson)]

/-- A row of a listing as it is written. -/
def Latest.written (l : Latest) : Value :=
  .object [("algoName", l.name.toJson), ("version", l.version.toJson)]

end ScriptRegistry
