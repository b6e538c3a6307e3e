/-
ScriptRegistry/Json/Value.lean

JSON values.

The members of an object are kept in ascending order of their names, each name
once: `insertMember` puts a member in its place and replaces an older one of
the same name, so an object built member by member shows the last of several
equal names.
-/

namespace ScriptRegistry.Json

/-- A number: an integer between `-2 ^ 63` and `2 ^ 64`, or a floating-point number. -/
inductive Number
  | integer (i : Int)
  | floating (x : Float)
  deriving Repr, Inhabited

/-- A JSON value. -/
inductive Value
  | null
  | bool (b : Bool)
  | number (n : Number)
  | string (s : String)
  | array (items : List Value)
  | object (members : List (String × Value))
  deriving Repr, Inhabited

/-- Puts a member into a list ordered by name; an older member of that name is replaced. -/
def insertMember (name : String) (v : Value) : List (String × Value) → List (String × Value)
  | [] => [(name, v)]
  | (other, w) :: members =>
    if name < other then (name, v) :: (other, w) :: members
    else if name = other then (name, v) :: members
    else (other, w) :: insertMember name v members

/-- The object with the given members, in any order; of equal names the last counts. -/
def Value.ofMembers (members : List (String × Value)) : Value :=
  .object (members.foldl (fun acc m => insertMember m.1 m.2 acc) [])

/-- The natural number as a value. -/
def Value.nat (n : Nat) : Value :=
  .number (.integer n)

/-- The value of an optional one; `null` where there is none. -/
def Value.optional {α : Type} (f : α → Value) : Option α → Value
  | none => .null
  | some a => f a

/-- The list of texts as a value. -/
def Value.strings (ss : List String) : Value :=
  .array (ss.map .string)

/-- The member of an object; other values have none. -/
def Value.get? (v : Value) (name : String) : Option Value :=
  match v with
  | .object members => members.lookup name
  | _ => none

/-- The member of an object where it is present and not `null`. -/
def Value.field? (v : Value) (name : String) : Option Value :=
  match v.get? name with
  | some .null => none
  | found => found

end ScriptRegistry.Json
