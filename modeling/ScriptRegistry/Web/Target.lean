/-
ScriptRegistry/Web/Target.lean

What the target of a request leads to.

The path of a target ends at the first question mark or number sign.  Routes are
matched on the path as it is written; afterwards the parameters are decoded: a
percent sign with two hexadecimal digits stands for a byte, any other percent
sign for itself, and the bytes must be UTF-8.
-/
import ScriptRegistry.Artifact.Digest
import ScriptRegistry.Text.Segment
import ScriptRegistry.Text.Utf8

namespace ScriptRegistry.Web

/-! ### Paths -/

/-- What follows the scheme of a target, if it has one. -/
def afterScheme? : List Char → Option (List Char)
  | ':' :: '/' :: '/' :: rest => some rest
  | c :: rest => if c = '/' || c = '?' || c = '#' then none else afterScheme? rest
  | [] => none

/-- The path of a request target. -/
def pathOf (target : List Char) : List Char :=
  let ends := fun c => c = '?' || c = '#'
  match afterScheme? target with
  | none => target.takeWhile (!ends ·)
  | some rest => match (rest.dropWhile fun c => !(c = '/' || ends c)).takeWhile (!ends ·) with
    | [] => ['/']
    | path => path

/-! ### Routes -/

/-- Where a path leads, with its parameters as they are written. -/
inductive Route
  | add
  | update
  | list
  | health
  | retrieve (name : List Char) (version : Option (List Char))
  | remove (name : List Char) (version : Option (List Char))
  deriving DecidableEq, Repr

/-- The parameters that the last segments of a path are: a name, or a name and a
version, none of them empty. -/
def parameters? : List (List Char) → Option (List Char × Option (List Char))
  | [name] => if name.isEmpty then none else some (name, none)
  | [name, version] =>
    if name.isEmpty || version.isEmpty then none else some (name, some version)
  | _ => none

/-- The route of a path. -/
def route? (path : List Char) : Option Route :=
  match Text.segments '/' path with
  | [] :: first :: rest => match String.ofList first, rest with
    | "add", [] => some .add
    | "update", [] => some .update
    | "list", [] => some .list
    | "health", [] => some .health
    | "retrieve", rest => (parameters? rest).map fun (name, version) => .retrieve name version
    | "remove", rest => (parameters? rest).map fun (name, version) => .remove name version
    | _, _ => none
  | _ => none

/-- The method that a route is for. -/
def Route.method : Route → String
  | .add => "POST"
  | .update => "PUT"
  | .list | .health | .retrieve _ _ => "GET"
  | .remove _ _ => "DELETE"

/-- The methods that a route allows; whatever can be got has a head. -/
def Route.allow (r : Route) : String :=
  if r.method = "GET" then "GET,HEAD" else r.method

/-- Whether a route answers a method. -/
def Route.answers (r : Route) (method : String) : Bool :=
  method = r.method || (method = "HEAD" && r.method = "GET")

/-! ### Parameters -/

/-- The bytes that a written parameter stands for. -/
def unescape : List Char → List UInt8
  | '%' :: a :: b :: rest => match Artifact.hexValue? a, Artifact.hexValue? b with
    | some high, some low => (high * 16 + low).toUInt8 :: unescape rest
    | _, _ => Text.encodeChar '%' ++ unescape (a :: b :: rest)
  | c :: rest => Text.encodeChar c ++ unescape rest
  | [] => []

/-- The text of a parameter, if its bytes are UTF-8. -/
def parameterText? (parameter : List Char) : Option String :=
  match Text.decode (unescape parameter) with
  | .ok text => some (String.ofList text)
  | .error _ => none

/-- Numbers stay below this bound, `2 ^ 32`. -/
def numberBound : Nat := 4294967296

/-- The number that decimal digits, perhaps after a plus sign, spell. -/
def number? (text : String) : Option Nat :=
  let digits := match text.toList with
    | '+' :: digits => digits
    | digits => digits
  if digits.isEmpty || !digits.all Char.isDigit then none
  else
    let n := digits.foldl (fun n c => 10 * n + (c.toNat - 48)) 0
    if n < numberBound then some n else none

end ScriptRegistry.Web
