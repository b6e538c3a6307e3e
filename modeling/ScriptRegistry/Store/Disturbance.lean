/-
ScriptRegistry/Store/Disturbance.lean

Operations under disturbance.

A disturbance makes chosen calls fail before they do anything, lets rivals insert
a record just before an insert, and shows a latest version that need not be the
true one.  Files can be changed behind the back of every operation.
-/
import ScriptRegistry.Store.Backend
import ScriptRegistry.Text.Pattern

namespace ScriptRegistry.Store

/-! ### Records of rivals -/

/-- A small record that stands for the work of somebody else. -/
def stubRecord (name : AlgorithmName) (version : Version) : Record where
  name := name
  version := version
  description := s!"stub {version.render}"
  main := ⟨⟨⟨s!"{name.text}/stub{version.render}.py"⟩, .ofText ""⟩, "Stub", .count⟩
  privacy := none
  createdAt := .epoch

/-- Inserts the record that follows the latest one of a name, if there is room. -/
def Catalog.insertStub (c : Catalog) (name : AlgorithmName) : Catalog :=
  let latest := c.latest? name
  match Version.following latest with
  | .ok version => (c.enroll (stubRecord name version) latest).2
  | .error _ => c

/-! ### Failing calls -/

/-- Which part of a collaborator a call uses. -/
inductive Duty
  | writeMain
  | writePrivacy
  | readText
  | removeText
  | enroll
  | find
  | latest
  | remove
  | newest
  deriving DecidableEq, Repr

/-- Whether a key is one of a privacy script. -/
def isPrivacyKey (key : Artifact.Key) : Bool :=
  (Text.Pattern.exactly "/privacy_v".toList).occursIn key.text.toList

/-- The duty that a call falls to. -/
def Call.duty? : Call → Option Duty
  | .latest _ => some .latest
  | .find _ _ => some .find
  | .enroll _ _ => some .enroll
  | .remove _ _ => some .remove
  | .newest => some .newest
  | .writeText key _ => some (if isPrivacyKey key then .writePrivacy else .writeMain)
  | .readText _ => some .readText
  | .removeText _ => some .removeText
  | .drawToken => none
  | .readClock => none

/-- The answer by which a call fails, if it can. -/
def Call.failure? (e : StoreError) : (c : Call) → Option c.Answer
  | .latest _ => some (.error e)
  | .find _ _ => some (.error e)
  | .enroll _ _ => some (.error e)
  | .remove _ _ => some (.error e)
  | .newest => some (.error e)
  | .writeText _ _ => some (.error e)
  | .readText _ => some (.error e)
  | .removeText _ => some (.error e)
  | .drawToken => none
  | .readClock => none

/-- What failing collaborators say. -/
def injected : StoreError :=
  .interrupted "injected"

/-! ### Disturbed backends -/

/-- A backend with the duties that fail, the number of rivals still to come, and the
latest version that is shown in place of the true one. -/
structure Disturbed where
  backend : Backend
  failingTexts : List Duty
  failingRecords : List Duty
  rivals : Nat
  shownMax : Option (Option Version)

namespace Disturbed

/-- A backend that nothing disturbs yet. -/
def calm (backend : Backend) : Disturbed :=
  ⟨backend, [], [], 0, none⟩

/-- Whether a call is to fail. -/
def fails (d : Disturbed) (c : Call) : Bool :=
  c.duty?.any fun duty => d.failingTexts.contains duty || d.failingRecords.contains duty

/-- Lets the next rival, if there is one, insert a record of a name. -/
def letRival (d : Disturbed) (name : AlgorithmName) : Disturbed :=
  match d.rivals with
  | 0 => d
  | left + 1 =>
    { d with
      rivals := left
      backend := { d.backend with records := d.backend.records.insertStub name } }

/-- Answers a call of a duty that holds. -/
def answerCalm (d : Disturbed) (c : Call) : c.Answer × Disturbed :=
  let (answer, backend) := d.backend.answer c
  (answer, { d with backend := backend })

/-- Answers a call. -/
def answer (d : Disturbed) (c : Call) : c.Answer × Disturbed :=
  match d.fails c, c.failure? injected with
  | true, some failure => (failure, d)
  | _, _ => match c with
    | .latest name => match d.shownMax with
      | some shown => (.ok shown, d)
      | none => d.answerCalm (.latest name)
    | .enroll record expected =>
      (d.letRival record.name).answerCalm (.enroll record expected)
    | c => d.answerCalm c

/-- Runs a program. -/
def run {α : Type} (p : Program α) (d : Disturbed) : α × Disturbed :=
  p.run answer d

/-- The path of the file that holds a script of a record. -/
def scriptPath? (d : Disturbed) (name : AlgorithmName) (version : Option Version)
    (role : Artifact.Role) : Option Path := do
  let record ← d.backend.records.find? name version
  let artifact ← match role with
    | .main => some record.main.artifact
    | .privacy => record.privacy.map (·.artifact)
  return (← placeOf? artifact.key).path

/-- Changes the files behind the back of every operation. -/
def changeFiles (d : Disturbed) (change : FileTree → FileTree) : Disturbed :=
  { d with backend := { d.backend with files := change d.backend.files } }

end Disturbed

end ScriptRegistry.Store
