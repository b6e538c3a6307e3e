/-
ScriptRegistry/Algorithm/Basic.lean

Names, versions and reducers of algorithms.

A name is a slug: one or more lower-case ASCII letters, digits and hyphens.
Versions count from 1 and fit 32 bits.  `Version.following` is the one rule by
which numbers are assigned: the first record of a name has version 1, every
other one the successor of the latest.  A reducer tells how the partial results
of an algorithm are combined.  `InputError` says why an input is none of them,
and no source text or digest either.
-/
import ScriptRegistry.Artifact.Digest
import ScriptRegistry.Transport.Payload

namespace ScriptRegistry

/-! ### Refused inputs -/

/-- A refused input, or the end of the version numbers. -/
inductive InputError
  | name (text : String)
  | version (number : Nat)
  | versionsExhausted (last : Nat)
  | reducer (text : String)
  | payload (fault : Transport.PayloadFault)
  | digest (fault : Artifact.DigestFault)
  deriving DecidableEq, Repr

/-- The message of a refusal. -/
def InputError.message : InputError → String
  | .name text =>
    s!"invalid algorithm name '{text}': only lowercase letters, digits and hyphens are allowed"
  | .version number => s!"invalid version {number}: versions start at 1"
  | .versionsExhausted last => s!"version overflow after {last}"
  | .reducer text => s!"unknown reducer '{text}': expected one of COUNT, SUM"
  | .payload fault => s!"malformed code payload: {fault.message}"
  | .digest fault => s!"invalid content digest: {fault.message}"

/-! ### Names -/

/-- Whether a character may stand in a name. -/
def isSlugChar (c : Char) : Bool :=
  ('a' ≤ c && c ≤ 'z') || ('0' ≤ c && c ≤ '9') || c == '-'

/-- Whether a text is a slug. -/
def isSlug (s : String) : Bool :=
  !s.toList.isEmpty && s.toList.all isSlugChar

/-- The name of an algorithm. -/
structure AlgorithmName where
  text : String
  slug : isSlug text = true
  deriving DecidableEq, Repr

/-- The name that a text is. -/
def AlgorithmName.ofString (text : String) : Except InputError AlgorithmName :=
  if h : isSlug text = true then .ok ⟨text, h⟩ else .error (.name text)

/-! ### Versions -/

/-- The first number that no version has, `2 ^ 32`. -/
def versionBound : Nat := 4294967296

/-- The version of a record. -/
structure Version where
  number : Nat
  positive : 0 < number
  bounded : number < versionBound
  deriving DecidableEq, Repr

namespace Version

instance : LT Version := ⟨fun a b => a.number < b.number⟩

instance : LE Version := ⟨fun a b => a.number ≤ b.number⟩

instance (a b : Version) : Decidable (a < b) := inferInstanceAs (Decidable (a.number < b.number))

instance (a b : Version) : Decidable (a ≤ b) := inferInstanceAs (Decidable (a.number ≤ b.number))

/-- The version with the given number. -/
def ofNat (n : Nat) : Except InputError Version :=
  if h : 0 < n ∧ n < versionBound then .ok ⟨n, h.1, h.2⟩ else .error (.version n)

/-- The version of the first record of a name. -/
def first : Version :=
  ⟨1, by decide, by decide⟩

/-- The version after this one. -/
def next (v : Version) : Except InputError Version :=
  if h : v.number + 1 < versionBound then .ok ⟨v.number + 1, Nat.succ_pos _, h⟩
  else .error (.versionsExhausted v.number)

/-- The version of the record that follows the latest one. -/
def following : Option Version → Except InputError Version
  | none => .ok first
  | some latest => latest.next

/-- The version written in decimal digits. -/
def render (v : Version) : String :=
  toString v.number

end Version

/-! ### Reducers -/

/-- How the partial results of an algorithm are combined. -/
inductive Reducer
  | count
  | sum
  deriving DecidableEq, Repr

/-- The name of a reducer in requests and records. -/
def Reducer.render : Reducer → String
  | .count => "COUNT"
  | .sum => "SUM"

/-- The reducer with the given name, if there is one. -/
def Reducer.ofString? (text : String) : Option Reducer :=
  if text = Reducer.count.render then some .count
  else if text = Reducer.sum.render then some .sum
  else none

/-- The reducer with the given name. -/
def Reducer.ofString (text : String) : Except InputError Reducer :=
  match ofString? text with
  | some r => .ok r
  | none => .error (.reducer text)

end ScriptRegistry
