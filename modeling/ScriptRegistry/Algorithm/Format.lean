/-
ScriptRegistry/Algorithm/Format.lean

The JSON forms of names, versions, reducers, digests, keys and times, and of the
records made of them.

Each type has a `decoder` and a `toJson` that go together.  Members are named in
camel case, those of a policy in snake case.  Messages about a record name its
kind, and the kinds are given where the decoders are.
-/
import ScriptRegistry.Algorithm.Record
import ScriptRegistry.Algorithm.Submission
import ScriptRegistry.Json.Decoder
import ScriptRegistry.Json.Writer
import ScriptRegistry.Source.Policy
import ScriptRegistry.Time.Reader

namespace ScriptRegistry

open Json

/-! ### Parts -/

/-- Reads a name. -/
def AlgorithmName.decoder : Decoder AlgorithmName :=
  Decoder.string.refine fun s => (AlgorithmName.ofString s).mapError InputError.message

/-- The JSON form of a name. -/
def AlgorithmName.toJson (n : AlgorithmName) : Value :=
  .string n.text

/-- Reads a version. -/
def Version.decoder : Decoder Version :=
  Decoder.word32.refine fun n => (Version.ofNat n).mapError InputError.message

/-- The JSON form of a version. -/
def Version.toJson (v : Version) : Value :=
  .nat v.number

/-- Reads a reducer. -/
def Reducer.decoder : Decoder Reducer :=
  Decoder.choice fun s =>
    match Reducer.ofString? s with
    | some r => .ok r
    | none => .error (.unknownVariant s "`COUNT` or `SUM`")

/-- The JSON form of a reducer. -/
def Reducer.toJson (r : Reducer) : Value :=
  .string r.render

/-- Reads a digest. -/
def Artifact.Digest.decoder : Decoder Artifact.Digest :=
  Decoder.string.refine fun s =>
    (Artifact.Digest.ofString s).mapError fun f => (InputError.digest f).message

/-- The JSON form of a digest. -/
def Artifact.Digest.toJson (d : Artifact.Digest) : Value :=
  .string d.render

/-- Reads a key. -/
def Artifact.Key.decoder : Decoder Artifact.Key :=
  Decoder.string.map fun s => ⟨s⟩

/-- The JSON form of a key. -/
def Artifact.Key.toJson (k : Artifact.Key) : Value :=
  .string k.text

/-- Reads a time. -/
def Time.Moment.decoder : Decoder Time.Moment :=
  Decoder.texted "an RFC 3339 formatted date and time string" fun s =>
    (Time.Moment.ofString s).mapError fun f => .refused f.message

/-- The JSON form of a time. -/
def Time.Moment.toJson (m : Time.Moment) : Value :=
  .string m.render

/-! ### Policies -/

/-- Reads a policy. -/
def Source.Policy.decoder : Decoder Source.Policy :=
  .record "CodePolicy"
    (.cons { name := "forbidden_libraries", decoder := Decoder.string.list } <|
      .cons { name := "required_libraries", decoder := Decoder.string.list } <|
      .cons { name := "base_class", decoder := .string } .nil)
    fun (forbidden, required, baseClass, ()) => ⟨forbidden, required, baseClass⟩

/-- The JSON form of a policy. -/
def Source.Policy.toJson (p : Source.Policy) : Value :=
  .ofMembers [("forbidden_libraries", .strings p.forbidden),
    ("required_libraries", .strings p.required), ("base_class", .string p.baseClass)]

/-! ### Submissions -/

/-- Reads the main block of a submission. -/
def MainSubmission.decoder : Decoder MainSubmission :=
  .record "MainCodeSubmission"
    (.cons { name := "code", decoder := .string } <|
      .cons { name := "className", decoder := .string } <|
      .cons { name := "reducer", decoder := Reducer.decoder } .nil)
    fun (code, className, reducer, ()) => ⟨code, className, reducer⟩

/-- The JSON form of the main block of a submission. -/
def MainSubmission.toJson (m : MainSubmission) : Value :=
  .ofMembers [("code", .string m.code), ("className", .string m.className),
    ("reducer", m.reducer.toJson)]

/-- Reads the privacy block of a submission. -/
def PrivacySubmission.decoder : Decoder PrivacySubmission :=
  .record "PrivacyCodeSubmission"
    (.cons { name := "code", decoder := .string } <|
      .cons { name := "className", decoder := .string } <|
      .cons { name := "key", decoder := .string } .nil)
    fun (code, className, key, ()) => ⟨code, className, key⟩

/-- The JSON form of the privacy block of a submission. -/
def PrivacySubmission.toJson (p : PrivacySubmission) : Value :=
  .ofMembers [("code", .string p.code), ("className", .string p.className),
    ("key", .string p.key)]

/-- Reads a submission; an array may end before the privacy block. -/
def Submission.decoder : Decoder Submission :=
  .record "AlgorithmSubmission"
    (.cons { name := "algoName", decoder := AlgorithmName.decoder } <|
      .cons { name := "description", decoder := .string } <|
      .cons { name := "algorithm", decoder := MainSubmission.decoder } <|
      .cons { name := "privacyAlgorithm", decoder := PrivacySubmission.decoder.optional,
              ifMissing := some none, ifShort := some none } .nil)
    fun (name, description, main, privacy, ()) => ⟨name, description, main, privacy⟩

/-- The JSON form of a submission. -/
def Submission.toJson (s : Submission) : Value :=
  .ofMembers [("algoName", s.name.toJson), ("description", .string s.description),
    ("algorithm", s.main.toJson),
    ("privacyAlgorithm", .optional PrivacySubmission.toJson s.privacy)]

/-! ### Records -/

/-- Reads a reference to a stored text. -/
def TextRef.decoder : Decoder TextRef :=
  .record "ArtifactRef"
    (.cons { name := "key", decoder := Artifact.Key.decoder } <|
      .cons { name := "digest", decoder := Artifact.Digest.decoder } .nil)
    fun (key, digest, ()) => ⟨key, digest⟩

/-- The JSON form of a reference to a stored text. -/
def TextRef.toJson (a : TextRef) : Value :=
  .ofMembers [("key", a.key.toJson), ("digest", a.digest.toJson)]

/-- Reads the main part of a record. -/
def RecordMain.decoder : Decoder RecordMain :=
  .record "StoredMainCode"
    (.cons { name := "artifact", decoder := TextRef.decoder } <|
      .cons { name := "className", decoder := .string } <|
      .cons { name := "reducer", decoder := Reducer.decoder } .nil)
    fun (artifact, className, reducer, ()) => ⟨artifact, className, reducer⟩

/-- The JSON form of the main part of a record. -/
def RecordMain.toJson (m : RecordMain) : Value :=
  .ofMembers [("artifact", m.artifact.toJson), ("className", .string m.className),
    ("reducer", m.reducer.toJson)]

/-- Reads the privacy part of a record. -/
def RecordPrivacy.decoder : Decoder RecordPrivacy :=
  .record "StoredPrivacyCode"
    (.cons { name := "artifact", decoder := TextRef.decoder } <|
      .cons { name := "className", decoder := .string } .nil)
    fun (artifact, className, ()) => ⟨artifact, className⟩

/-- The JSON form of the privacy part of a record. -/
def RecordPrivacy.toJson (p : RecordPrivacy) : Value :=
  .ofMembers [("artifact", p.artifact.toJson), ("className", .string p.className)]

/-- Reads a record. -/
def Record.decoder : Decoder Record :=
  .record "StoredRecord"
    (.cons { name := "algoName", decoder := AlgorithmName.decoder } <|
      .cons { name := "version", decoder := Version.decoder } <|
      .cons { name := "description", decoder := .string } <|
      .cons { name := "algorithm", decoder := RecordMain.decoder } <|
      .cons { name := "privacyAlgorithm", decoder := RecordPrivacy.decoder.optional,
              ifMissing := some none } <|
      .cons { name := "createdAt", decoder := Time.Moment.decoder } .nil)
    fun (name, version, description, main, privacy, createdAt, ()) =>
      ⟨name, version, description, main, privacy, createdAt⟩

/-- The JSON form of a record. -/
def Record.toJson (r : Record) : Value :=
  .ofMembers [("algoName", r.name.toJson), ("version", r.version.toJson),
    ("description", .string r.description), ("algorithm", r.main.toJson),
    ("privacyAlgorithm", .optional RecordPrivacy.toJson r.privacy),
    ("createdAt", r.createdAt.toJson)]

/-! ### Retrieved algorithms -/

/-- Reads the main part of a retrieved algorithm. -/
def RetrievedMain.decoder : Decoder RetrievedMain :=
  .record "RetrievedMainCode"
    (.cons { name := "code", decoder := .string } <|
      .cons { name := "className", decoder := .string } <|
      .cons { name := "reducer", decoder := Reducer.decoder } .nil)
    fun (code, className, reducer, ()) => ⟨code, className, reducer⟩

/-- The JSON form of the main part of a retrieved algorithm. -/
def RetrievedMain.toJson (m : RetrievedMain) : Value :=
  .ofMembers [("code", .string m.code), ("className", .string m.className),
    ("reducer", m.reducer.toJson)]

/-- Reads the privacy part of a retrieved algorithm. -/
def RetrievedPrivacy.decoder : Decoder RetrievedPrivacy :=
  .record "RetrievedPrivacyCode"
    (.cons { name := "code", decoder := .string } <|
      .cons { name := "className", decoder := .string } .nil)
    fun (code, className, ()) => ⟨code, className⟩

/-- The JSON form of the privacy part of a retrieved algorithm. -/
def RetrievedPrivacy.toJson (p : RetrievedPrivacy) : Value :=
  .ofMembers [("code", .string p.code), ("className", .string p.className)]

/-- Reads a retrieved algorithm. -/
def Retrieved.decoder : Decoder Retrieved :=
  .record "RetrievedAlgorithm"
    (.cons { name := "algoName", decoder := AlgorithmName.decoder } <|
      .cons { name := "version", decoder := Version.decoder } <|
      .cons { name := "description", decoder := .string } <|
      .cons { name := "algorithm", decoder := RetrievedMain.decoder } <|
      .cons { name := "privacyAlgorithm", decoder := RetrievedPrivacy.decoder.optional,
              ifMissing := some none } <|
      .cons { name := "createdAt", decoder := Time.Moment.decoder } .nil)
    fun (name, version, description, main, privacy, createdAt, ()) =>
      ⟨name, version, description, main, privacy, createdAt⟩

/-- The JSON form of a retrieved algorithm. -/
def Retrieved.toJson (r : Retrieved) : Value :=
  .ofMembers [("algoName", r.name.toJson), ("version", r.version.toJson),
    ("description", .string r.description), ("algorithm", r.main.toJson),
    ("privacyAlgorithm", .optional RetrievedPrivacy.toJson r.privacy),
    ("createdAt", r.createdAt.toJson)]

/-- Reads a row of a listing. -/
def Latest.decoder : Decoder Latest :=
  .record "LatestVersion"
    (.cons { name := "algoName", decoder := AlgorithmName.decoder } <|
      .cons { name := "version", decoder := Version.decoder } .nil)
    fun (name, version, ()) => ⟨name, version⟩

/-- The JSON form of a row of a listing. -/
def Latest.toJson (l : Latest) : Value :=
  .ofMembers [("algoName", l.name.toJson), ("version", l.version.toJson)]

end ScriptRegistry
