/-
ScriptRegistry/Store/Backend.lean

What answers the calls of operations.

The backend holds the records in memory and the texts as files below a root
whose path leaves room for them.  It draws the tokens one after the other from a
given supply and shows the time it is set to.
-/
import ScriptRegistry.Store.Artifacts
import ScriptRegistry.Store.Catalog
import ScriptRegistry.Store.Program

namespace ScriptRegistry.Store

/-- Records, texts, the supply of tokens with how many were drawn, and the time. -/
structure Backend where
  records : Catalog
  files : FileTree
  tokens : Nat → Artifact.Token
  drawn : Nat
  now : Time.Moment

namespace Backend

/-- A backend that nothing was stored in. -/
def fresh (tokens : Nat → Artifact.Token) (now : Time.Moment) (root : Root := .here) : Backend :=
  ⟨.empty, .empty root.lead, tokens, 0, now⟩

/-- Answers a call. -/
def answer (b : Backend) : (c : Call) → c.Answer × Backend
  | .latest name => (.ok (b.records.latest? name), b)
  | .find name version => (.ok (b.records.find? name version), b)
  | .enroll record expected =>
    ((b.records.enroll record expected).1,
      { b with records := (b.records.enroll record expected).2 })
  | .remove name version =>
    (.ok (b.records.remove name version).1,
      { b with records := (b.records.remove name version).2 })
  | .newest => (.ok b.records.newest, b)
  | .writeText key text =>
    ((b.files.writeText key text).1, { b with files := (b.files.writeText key text).2 })
  | .readText key => (b.files.readText key, b)
  | .removeText key =>
    ((b.files.removeText key).1, { b with files := (b.files.removeText key).2 })
  | .drawToken => (b.tokens b.drawn, { b with drawn := b.drawn + 1 })
  | .readClock => (b.now, b)

/-- Runs a program with nobody else acting. -/
def run {α : Type} (p : Program α) (b : Backend) : α × Backend :=
  p.run answer b

end Backend

end ScriptRegistry.Store
