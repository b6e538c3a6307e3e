/-
ScriptRegistry/Store/Artifacts.lean

Source texts by key, kept as files.

A text is written once: a key that is taken cannot be written again.  A fault of
the file tree is told as it is, except that a missing file on the way to an
existing text means that nothing is stored under the key.
-/
import ScriptRegistry.Store.FileTree

namespace ScriptRegistry.Store

/-- What a fault on the way to an existing text means. -/
def faultAt (key : Artifact.Key) : FileFault → StoreError
  | .missing => .artifactNotFound key
  | fault => .file fault

namespace FileTree

/-- Stores a text under a key that is free. -/
def writeText (t : FileTree) (key : Artifact.Key) (text : String) :
    Except StoreError Unit × FileTree :=
  match placeOf? key with
  | none => (.error (.escapesRoot key), t)
  | some place =>
    let (result, t) := t.create place (Text.encode text.toList)
    (result.mapError .file, t)

/-- The text stored under a key. -/
def readText (t : FileTree) (key : Artifact.Key) : Except StoreError String :=
  match placeOf? key with
  | none => .error (.escapesRoot key)
  | some place => match t.read place with
    | .error fault => .error (faultAt key fault)
    | .ok content => match Text.decode content with
      | .ok text => .ok (String.ofList text)
      | .error _ => .error (.file .notUtf8)

/-- Removes the text stored under a key. -/
def removeText (t : FileTree) (key : Artifact.Key) : Except StoreError Unit × FileTree :=
  match placeOf? key with
  | none => (.error (.escapesRoot key), t)
  | some place =>
    let (result, t) := t.remove place
    (result.mapError (faultAt key), t)

end FileTree

end ScriptRegistry.Store
