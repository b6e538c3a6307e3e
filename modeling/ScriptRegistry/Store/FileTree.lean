/-
ScriptRegistry/Store/FileTree.lean

The files below the storage root.

A tree has directories and files; the root is a directory once something has
been written.  A path that is too long as a whole is refused before it is looked
at.  Any other is walked name by name, and the first name that cannot be passed
decides the fault: a name that is too long where a directory is entered, a
missing entry, or a file where a directory is needed.
-/
import ScriptRegistry.Store.Place

namespace ScriptRegistry.Store

/-- The directories and files of a storage root, and how many bytes a path below it has in front of
a key: those of the root and the slash behind it. -/
structure FileTree where
  directories : List Path
  files : List (Path × List UInt8)
  lead : Nat
  deriving DecidableEq, Repr

/-- An entry of a tree. -/
inductive Node
  | directory
  | file (content : List UInt8)
  deriving DecidableEq, Repr

/-- The greatest number of bytes in a name. -/
def nameLimit : Nat := 255

/-- The number of bytes that a path has to stay below as a whole. -/
def pathLimit : Nat := 4096

/-- The number of bytes that suffices for every key of the registry: a name, a slash and a file
name. -/
def keyRoom : Nat := nameLimit + 1 + 55

/-- A storage root by the number of bytes that it puts in front of a key: they leave room for every
key of the registry. -/
structure Root where
  lead : Nat
  room : lead + keyRoom < pathLimit

/-- The root that puts nothing in front of a key. -/
def Root.here : Root :=
  ⟨0, by decide⟩

/-- Whether a name has more bytes than a directory can hold. -/
def isTooLong (name : List Char) : Bool :=
  nameLimit < Text.byteLength name

/-- Whether a path has a character that ends it early. -/
def hasNul (path : Path) : Bool :=
  path.any (·.contains '\x00')

namespace FileTree

/-- The tree of a root that does not exist yet. -/
def empty (lead : Nat := 0) : FileTree :=
  ⟨[], [], lead⟩

/-- Whether the path of a key with a number of bytes is too long. -/
def isOverlong (t : FileTree) (bytes : Nat) : Bool :=
  pathLimit ≤ t.lead + bytes

/-- The entry with exactly the given path. -/
def node? (t : FileTree) (path : Path) : Option Node :=
  match t.files.lookup path with
  | some content => some (.file content)
  | none => if t.directories.contains path then some .directory else none

/-- Walks down from an entry. -/
def walk (t : FileTree) (here : Path) : List (List Char) → Except FileFault Node
  | [] => match t.node? here with
    | none => .error .missing
    | some node => .ok node
  | name :: rest => match t.node? here with
    | none => .error .missing
    | some (.file _) => .error .notDirectory
    | some .directory =>
      if isTooLong name then .error .nameTooLong else t.walk (here ++ [name]) rest

/-- The entry at a place: what ends with a slash or a dot is a directory. -/
def find (t : FileTree) (place : Place) : Except FileFault Node :=
  if hasNul place.path then .error .nulByte
  else if t.isOverlong place.bytes then .error .nameTooLong
  else match t.walk [] place.path with
    | .ok (.file content) =>
      if place.ending = .plain then .ok (.file content) else .error .notDirectory
    | found => found

/-- Sets the content of a file, whether it is there or not. -/
def put (t : FileTree) (path : Path) (content : List UInt8) : FileTree :=
  { t with files := (path, content) :: t.files.filter (·.1 ≠ path) }

/-- Takes a file away. -/
def drop (t : FileTree) (path : Path) : FileTree :=
  { t with files := t.files.filter (·.1 ≠ path) }

/-- Makes the directories on the way down from `here`; those made before a fault stay. -/
def makeDirectories (t : FileTree) (here : Path) :
    List (List Char) → Except FileFault Unit × FileTree
  | [] => match t.node? here with
    | some (.file _) => (.error .taken, t)
    | some .directory => (.ok (), t)
    | none => (.ok (), { t with directories := here :: t.directories })
  | name :: rest => match t.node? here with
    | some (.file _) => (.error .notDirectory, t)
    | some .directory =>
      if isTooLong name then (.error .nameTooLong, t) else t.makeDirectories (here ++ [name]) rest
    | none =>
      let t := { t with directories := here :: t.directories }
      if isTooLong name then (.error .nameTooLong, t) else t.makeDirectories (here ++ [name]) rest

/-- Puts a new file into a directory that is there. -/
def addFile (t : FileTree) (place : Place) (content : List UInt8) :
    Except FileFault Unit × FileTree :=
  if hasNul place.path then (.error .nulByte, t)
  else if t.isOverlong place.bytes then (.error .nameTooLong, t)
  else if place.ending = .slash then (.error .isDirectory, t)
  else match t.walk [] place.path with
    | .ok (.file _) => (.error (if place.ending = .plain then .taken else .notDirectory), t)
    | .ok .directory => (.error .taken, t)
    | .error .missing =>
      if place.ending = .plain then (.ok (), t.put place.path content) else (.error .missing, t)
    | .error fault => (.error fault, t)

/-- Writes a new file, making the directories that it needs.  The slash behind the directory it is
in is no part of the path of that directory. -/
def create (t : FileTree) (place : Place) (content : List UInt8) :
    Except FileFault Unit × FileTree :=
  if hasNul place.path.dropLast then (.error .nulByte, t)
  else if pathLimit < t.lead + place.parentBytes then (.error .nameTooLong, t)
  else match t.makeDirectories [] place.path.dropLast with
    | (.ok (), t) => t.addFile place content
    | (.error fault, t) => (.error fault, t)

/-- The content of a file. -/
def read (t : FileTree) (place : Place) : Except FileFault (List UInt8) :=
  match t.find place with
  | .ok (.file content) => .ok content
  | .ok .directory => .error .isDirectory
  | .error fault => .error fault

/-- Removes a file. -/
def remove (t : FileTree) (place : Place) : Except FileFault Unit × FileTree :=
  match t.find place with
  | .ok (.file _) => (.ok (), t.drop place.path)
  | .ok .directory => (.error .isDirectory, t)
  | .error fault => (.error fault, t)

/-- The paths of all files as texts. -/
def listing (t : FileTree) : List String :=
  t.files.map (·.1.render)

end FileTree

end ScriptRegistry.Store
