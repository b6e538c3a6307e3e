/-
ScriptRegistry/Web/Server.lean

Requests and responses of the web service.

A path without a route is not found, and a route answers its own method only.  A
request for the head is answered as if the whole was asked for, without the
body.  When the service is open to pages from elsewhere, every answer says so,
and a request for options gets nothing but these headers.
-/
import ScriptRegistry.Web.Service
import ScriptRegistry.Web.Target

namespace ScriptRegistry.Web

open Store (Program)

/-! ### Messages -/

/-- A request as it arrives. -/
structure WebRequest where
  method : String
  target : String
  body : List UInt8
  deriving DecidableEq, Repr

/-- The body of a response. -/
inductive Body
  | empty
  | json (value : Json.Value)
  | text (text : String)

/-- A response as it leaves. -/
structure Response where
  status : Nat
  headers : List (String × String)
  body : Body

namespace Response

/-- A response with nothing in it. -/
def bare (status : Nat) (headers : List (String × String)) : Response :=
  ⟨status, headers, .empty⟩

/-- A response with a JSON value. -/
def json (status : Nat) (value : Json.Value) : Response :=
  ⟨status, [("content-type", "application/json")], .json value⟩

/-- A response with a text. -/
def text (status : Nat) (content : String) : Response :=
  ⟨status, [("content-type", "text/plain; charset=utf-8")], .text content⟩

/-- A response with its body dropped. -/
def head (r : Response) : Response :=
  { r with body := .empty }

/-- A response with more headers. -/
def withHeaders (r : Response) (headers : List (String × String)) : Response :=
  { r with headers := r.headers ++ headers }

end Response

/-! ### Answers -/

/-- The answer to a request that was carried out, or failed. -/
def respond {α : Type} (status : Nat) (toJson : α → Json.Value) (job : Job α) :
    Program Response := do
  match ← job.run with
  | .ok item => return .json status (.ofMembers [("ok", .bool true), ("item", toJson item)])
  | .error e => return .json e.status e.toJson

/-- The JSON value that a body is. -/
def readBody (body : List UInt8) : Job Json.Value :=
  match Json.Value.ofBytes body with
  | .ok value => pure value
  | .error fault => throw (.malformed s!"body is not valid JSON: {fault.message body}")

/-- The number of a version that a text asks for. -/
def readVersion (text : String) : Job Nat :=
  match number? text with
  | some n => pure n
  | none => throw (.malformed s!"version '{text}' is not a number")

/-- The answer to a parameter that is not UTF-8. -/
def badParameter (name : String) : Response :=
  .text 400 ("Invalid URL: Invalid UTF-8 in `" ++ name ++ "`")

/-- The answer to a request that addresses an algorithm, perhaps in one version. -/
def respondAddressed {α : Type} (toJson : α → Json.Value)
    (job : String → Option Nat → Job α) (name : List Char) (version : Option (List Char)) :
    Program Response :=
  match parameterText? name, version.map parameterText? with
  | none, _ => pure (badParameter "algo_name")
  | some _, some none => pure (badParameter "version")
  | some name, none => respond 200 toJson (job name none)
  | some name, some (some version) => respond 200 toJson do
    let number ← readVersion version
    job name (some number)

/-- The answer of a route. -/
def Route.respond (s : Service) (body : List UInt8) : Route → Program Response
  | .add => Web.respond 201 Record.toJson do s.create (← readBody body)
  | .update => Web.respond 200 Record.toJson do s.update (← readBody body)
  | .list => Web.respond 200 (fun items => .array (items.map Latest.toJson)) s.list
  | .health => pure (.json 200 (.ofMembers [("status", .string "ok")]))
  | .retrieve name version => respondAddressed Retrieved.toJson s.retrieve name version
  | .remove name version => respondAddressed Record.toJson s.delete name version

/-- The answer to a request. -/
def answer (s : Service) (request : WebRequest) : Program Response :=
  match route? (pathOf request.target.toList) with
  | none => pure (.bare 404 [])
  | some route =>
    if route.answers request.method then
      if request.method = "HEAD" then do return (← route.respond s request.body).head
      else route.respond s request.body
    else pure (.bare 405 [("allow", route.allow)])

/-! ### Pages from elsewhere -/

/-- What every answer says to pages from elsewhere. -/
def openHeaders : List (String × String) :=
  [("access-control-allow-origin", "*"), ("access-control-expose-headers", "*")]

/-- The answer to a request for options when pages from elsewhere are welcome. -/
def preflight (route : Option Route) : Response :=
  .bare 200 ([("access-control-allow-origin", "*"), ("access-control-allow-methods", "*"),
    ("access-control-allow-headers", "*")] ++ (route.map fun r => ("allow", r.allow)).toList)

/-- The answer to a request, with `cors` where pages from elsewhere are welcome. -/
def serve (s : Service) (cors : Bool) (request : WebRequest) : Program Response :=
  if !cors then answer s request
  else if request.method = "OPTIONS" then
    pure (preflight (route? (pathOf request.target.toList)))
  else do return (← answer s request).withHeaders openHeaders

end ScriptRegistry.Web
