/-
ScriptRegistry/Store/Place.lean

From keys to places below the storage root.

A key is read as a relative path.  Empty components and components "." say
nothing and are dropped, except that a key may not start with either; a
component ".." is refused wherever it stands.  What the key ends with is kept,
because a path that ends with a slash or a dot asks for a directory.  So is the
number of bytes it is written with, because the length of a path is limited, and
components that say nothing count there too.
-/
import ScriptRegistry.Store.Error
import ScriptRegistry.Text.Segment
import ScriptRegistry.Text.Utf8

namespace ScriptRegistry.Store

/-- The names on the way down from the storage root. -/
abbrev Path := List (List Char)

/-- What a written path ends with after its last name. -/
inductive Ending
  | plain
  | slash
  | dot
  deriving DecidableEq, Repr

/-- A path below the root as a key writes it, with the number of all its bytes and of those up to
the slash behind the directory that its last name is in. -/
structure Place where
  path : Path
  ending : Ending
  bytes : Nat
  parentBytes : Nat
  deriving DecidableEq, Repr

/-- Whether a component names nothing of its own. -/
def isSilent (component : List Char) : Bool :=
  component == [] || component == ['.']

/-- The ending of a path with the given components. -/
def endingOf (components : List (List Char)) : Ending :=
  match components.getLast?, (components.filter (· ≠ [])).getLast? with
  | some [], some ['.'] => .dot
  | some ['.'], _ => .dot
  | some [], _ => .slash
  | _, _ => .plain

/-- Components without those at their end that name nothing. -/
def trimEnd (components : List (List Char)) : List (List Char) :=
  (components.reverse.dropWhile isSilent).reverse

/-- The components of the directory that the last name is in. -/
def parentOf (components : List (List Char)) : List (List Char) :=
  trimEnd (trimEnd components).dropLast

/-- The number of bytes of components with a slash behind each. -/
def extent : List (List Char) → Nat
  | [] => 0
  | component :: components => Text.byteLength component + 1 + extent components

/-- The place that a key leads to; none if it does not lead below the root. -/
def placeOf? (key : Artifact.Key) : Option Place :=
  let components := Text.segments '/' key.text.toList
  if components.head?.any isSilent || components.contains ['.', '.'] then none
  else some ⟨components.filter (!isSilent ·), endingOf components,
    Text.byteLength key.text.toList, extent (parentOf components)⟩

/-- A path as a text. -/
def Path.render (path : Path) : String :=
  String.ofList (Text.joinSegments '/' path)

end ScriptRegistry.Store
