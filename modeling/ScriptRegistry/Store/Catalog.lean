/-
ScriptRegistry/Store/Catalog.lean

The index of all records: names in order, and for every name its versions in
order.

A record enters only as the successor of the latest version of its name
(`enroll`), and a name whose last record leaves is forgotten.  No record is
ever changed in place.
-/
import ScriptRegistry.Algorithm.Record
import ScriptRegistry.Store.Error

namespace ScriptRegistry.Store

/-! ### Ordered keys -/

/-- Sets the value of a key in a list that ascends by key. -/
def insertOrdered {κ β : Type} (before : κ → κ → Bool) (k : κ) (b : β) :
    List (κ × β) → List (κ × β)
  | [] => [(k, b)]
  | (k', b') :: rest =>
    if before k k' then (k, b) :: (k', b') :: rest
    else if before k' k then (k', b') :: insertOrdered before k b rest
    else (k, b) :: rest

/-- Takes the value of a key out of a list. -/
def eraseKey {κ β : Type} [DecidableEq κ] (k : κ) (m : List (κ × β)) : List (κ × β) :=
  m.filter (·.1 ≠ k)

/-! ### The shelves -/

/-- The records of one name by version. -/
abbrev Shelf := List (Version × Record)

/-- The latest version on a shelf. -/
def Shelf.latest? (s : Shelf) : Option Version :=
  s.getLast?.map (·.1)

/-- The asked version if it is on the shelf; the latest one if none is asked for. -/
def Shelf.choose (s : Shelf) : Option Version → Option Version
  | some v => (s.lookup v).map fun _ => v
  | none => s.latest?

/-- The records of all names. -/
structure Catalog where
  shelves : List (AlgorithmName × Shelf)
  deriving DecidableEq, Repr

namespace Catalog

/-- No records. -/
def empty : Catalog :=
  ⟨[]⟩

/-- The records of a name. -/
def shelf (c : Catalog) (name : AlgorithmName) : Shelf :=
  (c.shelves.lookup name).getD []

/-- The number of records. -/
def size (c : Catalog) : Nat :=
  (c.shelves.flatMap (·.2)).length

/-- Whether there is no record. -/
def isEmpty (c : Catalog) : Bool :=
  c.shelves.isEmpty

/-- The latest version of a name. -/
def latest? (c : Catalog) (name : AlgorithmName) : Option Version :=
  (c.shelf name).latest?

/-- The record at a version of a name, or at its latest one. -/
def find? (c : Catalog) (name : AlgorithmName) (version : Option Version) : Option Record :=
  ((c.shelf name).choose version).bind fun v => (c.shelf name).lookup v

/-- Whether a record is the one that follows an expected latest version. -/
def follows (record : Record) (expected : Option Version) : Bool :=
  match Version.following expected with
  | .ok next => next == record.version
  | .error _ => false

/-- Inserts a record if the latest version of its name is the expected one and the
record follows it. -/
def enroll (c : Catalog) (record : Record) (expected : Option Version) :
    Except StoreError Unit × Catalog :=
  let actual := c.latest? record.name
  if actual ≠ expected || !follows record expected then
    (.error (.versionConflict record.name expected actual), c)
  else
    let shelf := insertOrdered (fun a b => a < b) record.version record (c.shelf record.name)
    (.ok (), ⟨insertOrdered (fun a b => a.text < b.text) record.name shelf c.shelves⟩)

/-- Removes the record that `find?` finds. -/
def remove (c : Catalog) (name : AlgorithmName) (version : Option Version) :
    Option Record × Catalog :=
  match (c.shelf name).choose version with
  | none => (none, c)
  | some v =>
    let shelf := eraseKey v (c.shelf name)
    let shelves :=
      if shelf.isEmpty then eraseKey name c.shelves
      else insertOrdered (fun a b => a.text < b.text) name shelf c.shelves
    ((c.shelf name).lookup v, ⟨shelves⟩)

/-- Every name with its latest version, in the order of the names. -/
def newest (c : Catalog) : List Latest :=
  c.shelves.filterMap fun (name, shelf) => shelf.latest?.map (⟨name, ·⟩)

end Catalog

end ScriptRegistry.Store
