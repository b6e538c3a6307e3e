/-
ScriptRegistry/Validation/Algorithm.lean

The rules for algorithms, in the order in which objections are told.

The description is a text that is not empty.  A script comes as an object.
Every problem of it is found, whatever the others are: the class name and the
source text must be texts, the source text must be a payload and keep the
policy, the main script names a reducer, and the privacy script brings the
access key.  A privacy script may be left out.

The access key is compared as a whole and shown nowhere: all keys look the same.
-/
import ScriptRegistry.Algorithm.Submission
import ScriptRegistry.Source.Analysis
import ScriptRegistry.Validation.Name

namespace ScriptRegistry.Validation

/-! ### Access keys -/

/-- The secret of a service. -/
structure AccessKey where
  secret : String
  deriving DecidableEq

namespace AccessKey

/-- Whether a text is the key. -/
def opens (k : AccessKey) (candidate : String) : Bool :=
  k.secret == candidate

/-- Whether the key is the empty text. -/
def isEmpty (k : AccessKey) : Bool :=
  k.secret.isEmpty

/-- What is shown in place of any key. -/
def render (_ : AccessKey) : String :=
  "AccessKey(<redacted>)"

end AccessKey

/-! ### Descriptions -/

/-- The field that holds the description. -/
def descriptionField : String := "description"

/-- Decides on a description. -/
def judgeDescription : Option Json.Value → Except Objection Unit
  | none => .error (.because .invalid "description not available")
  | some (.string text) =>
    if text.isEmpty then .error (.because .invalid "description must be non-empty string.")
    else .ok ()
  | some _ => .error (.because .invalid "description must be non-empty string.")

/-- The rule for the description. -/
def descriptionRule : FieldRule :=
  (FieldRule.unchecked descriptionField).forActions [.create, .update] fun request =>
    pure (judgeDescription (request.field? descriptionField))

/-! ### Problems -/

/-- Why a member of a script is not the text it should be. -/
inductive MemberFault
  | absent
  | notText
  deriving DecidableEq, Repr

/-- The message of a member's fault. -/
def MemberFault.message (member : String) : MemberFault → String
  | .absent => s!"{member} not available"
  | .notText => s!"{member} must be a string"

/-- A problem of a script. -/
inductive ScriptProblem
  | className (fault : MemberFault)
  | code (fault : MemberFault)
  | payload (fault : InputError)
  | violation (found : Source.Violation)
  | noReducer
  | unknownReducer
  | key (fault : MemberFault)
  | wrongKey
  deriving DecidableEq, Repr

/-- The message of a problem. -/
def ScriptProblem.message : ScriptProblem → String
  | .className fault => fault.message "className"
  | .code fault => fault.message "code"
  | .payload fault => s!"code could not be decoded: {fault.message}"
  | .violation found => found.message
  | .noReducer => "reducer not available"
  | .unknownReducer => "reducer must be from COUNT,SUM"
  | .key fault => fault.message "key"
  | .wrongKey => "key does not match"

/-! ### Looking for problems -/

/-- The text that a member of a script is. -/
def textMember (script : Json.Value) (member : String) : Except MemberFault String :=
  match script.field? member with
  | none => .error .absent
  | some (.string text) => .ok text
  | some _ => .error .notText

/-- How a source text breaks its policy; without a class name, only the rules on
libraries are looked at. -/
def sourceViolations (source : String) (policy : Source.Policy) :
    Option String → List Source.Violation
  | some className => Source.violations source.toList policy className
  | none =>
    Source.libraryViolations (Source.withoutComments source.toList) policy.forbidden policy.required

/-- The problems of the class name itself. -/
def classNameProblems (script : Json.Value) : List ScriptProblem :=
  match textMember script "className" with
  | .ok _ => []
  | .error fault => [.className fault]

/-- The problems of the source text. -/
def codeProblems (script : Json.Value) (policy : Source.Policy) : List ScriptProblem :=
  match textMember script "code" with
  | .error fault => [.code fault]
  | .ok code => match openPayload code with
    | .error fault => [.payload fault]
    | .ok source =>
      (sourceViolations source policy (textMember script "className").toOption).map .violation

/-- The problems of the reducer. -/
def reducerProblems (script : Json.Value) : List ScriptProblem :=
  match script.field? "reducer" with
  | none => [.noReducer]
  | some (.string name) => if (Reducer.ofString? name).isSome then [] else [.unknownReducer]
  | some _ => [.unknownReducer]

/-- The problems of the access key. -/
def keyProblems (script : Json.Value) (key : AccessKey) : List ScriptProblem :=
  match textMember script "key" with
  | .ok candidate => if key.opens candidate then [] else [.wrongKey]
  | .error fault => [.key fault]

/-- The problems of a main script. -/
def mainProblems (script : Json.Value) (policy : Source.Policy) : List ScriptProblem :=
  classNameProblems script ++ codeProblems script policy ++ reducerProblems script

/-- The problems of a privacy script. -/
def privacyProblems (script : Json.Value) (policy : Source.Policy) (key : AccessKey) :
    List ScriptProblem :=
  keyProblems script key ++ classNameProblems script ++ codeProblems script policy

/-! ### Scripts -/

/-- The field that holds the main script. -/
def mainField : String := "algorithm"

/-- The field that holds the privacy script. -/
def privacyField : String := "privacyAlgorithm"

/-- Decides on a script by its problems; anything but an object is no script. -/
def judgeScript (field : String) (problems : Json.Value → List ScriptProblem) :
    Json.Value → Except Objection Unit
  | .object members => acceptUnless ((problems (.object members)).map ScriptProblem.message)
  | _ => .error (.because .invalid s!"{field} must be an object")

/-- Decides on the main script, which must be there. -/
def judgeMain (policy : Source.Policy) : Option Json.Value → Except Objection Unit
  | none => .error (.because .invalid s!"{mainField} not available")
  | some script => judgeScript mainField (mainProblems · policy) script

/-- Decides on the privacy script, which may be absent. -/
def judgePrivacy (policy : Source.Policy) (key : AccessKey) :
    Option Json.Value → Except Objection Unit
  | none => .ok ()
  | some script => judgeScript privacyField (privacyProblems · policy key) script

/-- The rule for the main script. -/
def mainRule (policy : Source.Policy) : FieldRule :=
  (FieldRule.unchecked mainField).forActions [.create, .update] fun request =>
    pure (judgeMain policy (request.field? mainField))

/-- The rule for the privacy script. -/
def privacyRule (policy : Source.Policy) (key : AccessKey) : FieldRule :=
  (FieldRule.unchecked privacyField).forActions [.create, .update] fun request =>
    pure (judgePrivacy policy key (request.field? privacyField))

/-! ### All rules -/

/-- The policies and the key that scripts are held to. -/
structure Standards where
  main : Source.Policy
  privacy : Source.Policy
  accessKey : AccessKey

/-- The usual policies with a key. -/
def Standards.withKey (key : AccessKey) : Standards :=
  ⟨.main, .privacy, key⟩

/-- The rules for algorithms. -/
def algorithmRules (standards : Standards) : List FieldRule :=
  [nameRule, descriptionRule, mainRule standards.main,
    privacyRule standards.privacy standards.accessKey]

end ScriptRegistry.Validation
