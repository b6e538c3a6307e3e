/-
ScriptRegistry/Store/Operation.lean

The operations on stored algorithms.

Texts are written first and the record last, so that a record is seen only when
all it refers to is there.  A version is assigned by a conditional insert: the
insert fails when another client was faster, and then the texts just written are
discarded.  An update starts over when it lost such a race, a bounded number of
times.
-/
import ScriptRegistry.Algorithm.Submission
import ScriptRegistry.Store.Program

namespace ScriptRegistry.Store

/-! ### Single calls -/

/-- Asks for the latest version of a name. -/
def latest (name : AlgorithmName) : Operation (Option Version) :=
  ExceptT.mk (.call (.latest name))

/-- Asks for a record. -/
def find (name : AlgorithmName) (version : Option Version) : Operation (Option Record) :=
  ExceptT.mk (.call (.find name version))

/-- Inserts a record on condition. -/
def enroll (record : Record) (expected : Option Version) : Operation Unit :=
  ExceptT.mk (.call (.enroll record expected))

/-- Takes a record out. -/
def remove (name : AlgorithmName) (version : Option Version) : Operation (Option Record) :=
  ExceptT.mk (.call (.remove name version))

/-- Every name with its latest version. -/
def list : Operation (List Latest) :=
  ExceptT.mk (.call .newest)

/-- Removes texts as far as possible; one that cannot be removed stays. -/
def dropTexts : List Artifact.Key → Operation Unit
  | [] => pure ()
  | key :: keys => do
    let _ ← ExceptT.lift (Program.call (.removeText key))
    dropTexts keys

/-! ### Writing -/

/-- Stores a text under a fresh key. -/
def writeScript (name : AlgorithmName) (version : Version) (role : Artifact.Role)
    (source : String) : Operation TextRef := do
  let token ← ExceptT.lift (Program.call .drawToken)
  let key := Artifact.Key.fresh name version role token
  ExceptT.mk (.call (.writeText key source))
  return ⟨key, .ofText source⟩

/-- Stores the privacy script of a draft, if it has one; if that fails, the main
text goes again. -/
def writePrivacy (draft : Draft) (version : Version) (main : TextRef) :
    Operation (Option RecordPrivacy) :=
  match draft.privacy with
  | none => pure none
  | some script => tryCatch
      (do return some ⟨← writeScript draft.name version .privacy script.source, script.className⟩)
      fun e => do
        dropTexts [main.key]
        throw e

/-- Writes the version after the expected latest one: texts first, then the record,
which enters only if the expectation holds. -/
def publish (draft : Draft) (expected : Option Version) : Operation Record := do
  let version ← ExceptT.mk (.done ((Version.following expected).mapError StoreError.input))
  let main ← writeScript draft.name version .main draft.main.source
  let privacy ← writePrivacy draft version main
  let createdAt ← ExceptT.lift (Program.call .readClock)
  let record : Record :=
    ⟨draft.name, version, draft.description, ⟨main, draft.main.className, draft.main.reducer⟩,
      privacy, createdAt⟩
  tryCatch (enroll record expected) fun e => do
    match e with
    | .versionConflict _ _ _ => dropTexts record.keys
    | _ => pure ()
    throw e
  return record

/-- Stores the first version of a name. -/
def create (draft : Draft) : Operation Record := do
  if (← latest draft.name).isSome then throw (.alreadyExists draft.name)
  tryCatch (publish draft none) fun
    | .versionConflict _ _ _ => throw (.alreadyExists draft.name)
    | e => throw e

/-- One attempt to store the next version of a name; `again` is done after a lost race. -/
def updateOnce (draft : Draft) (again : StoreError → Operation Record) : Operation Record := do
  match ← latest draft.name with
  | none => throw (.notFound draft.name)
  | some latest => tryCatch (publish draft (some latest)) fun
      | .versionConflict name expected actual => again (.versionConflict name expected actual)
      | e => throw e

/-- Stores the next version of a name, starting over at most `retries` times after
a lost race. -/
def updateRetrying (draft : Draft) : Nat → Operation Record
  | 0 => updateOnce draft throw
  | left + 1 => updateOnce draft fun _ => updateRetrying draft left

/-- How often an update is attempted unless told otherwise. -/
def defaultAttempts : Nat := 3

/-- Stores the next version of a name in at most the given number of attempts, of
which there is at least one. -/
def update (draft : Draft) (attempts : Nat) : Operation Record :=
  updateRetrying draft (attempts - 1)

/-! ### Reading and deleting -/

/-- What a lookup that found nothing fails with. -/
def absence (name : AlgorithmName) : Option Version → StoreError
  | none => .notFound name
  | some version => .versionNotFound name version

/-- The text that a record refers to, which must be the one that was written. -/
def readIntact (artifact : TextRef) : Operation String := do
  let text ← ExceptT.mk (.call (.readText artifact.key))
  if Artifact.Digest.ofText text = artifact.digest then return text
  else throw (.digestMismatch artifact.key)

/-- The record at a version, or at the latest one, with its texts. -/
def retrieve (name : AlgorithmName) (version : Option Version) : Operation Retrieved := do
  match ← find name version with
  | none => throw (absence name version)
  | some record =>
    let code ← readIntact record.main.artifact
    let privacy ← (match record.privacy with
      | none => pure none
      | some p => do return some ⟨← readIntact p.artifact, p.className⟩)
    return ⟨record.name, record.version, record.description,
      ⟨code, record.main.className, record.main.reducer⟩, privacy, record.createdAt⟩

/-- Removes the record at a version, or at the latest one, and then its texts. -/
def delete (name : AlgorithmName) (version : Option Version) : Operation Record := do
  match ← remove name version with
  | none => throw (absence name version)
  | some record =>
    dropTexts record.keys
    return record

end ScriptRegistry.Store
