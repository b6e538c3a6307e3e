/-
ScriptRegistry/Source/Analysis.lean

Whether a script keeps its policy.

Every forbidden and every required library is looked at by itself, then the
class is looked for; all violations are reported, in that order.  `violations`
looks at the text without its comments.
-/
import ScriptRegistry.Source.ClassDecl
import ScriptRegistry.Source.Piece
import ScriptRegistry.Source.Policy

namespace ScriptRegistry.Source

/-- One way in which a script breaks its policy. -/
inductive Violation
  | forbiddenLibrary (library : String)
  | missingLibrary (library : String)
  | invalidClassName (className : String)
  | classNotFound (className baseClass : String)
  deriving DecidableEq, Repr

/-- The message of a violation. -/
def Violation.message : Violation → String
  | .forbiddenLibrary library => s!"code contains restricted library {library}"
  | .missingLibrary library => s!"code does not import required library {library}"
  | .invalidClassName className =>
    s!"invalid className '{className}': only letters, digits and underscore are allowed"
  | .classNotFound className baseClass =>
    s!"class {className} with base class {baseClass} not found"

/-- Whether a text imports a library in any way. -/
def usesLibrary (text : List Char) (library : String) : Bool :=
  importsStatically text library || importsDynamically text library

/-- The violations of the library rules: forbidden libraries that are used, then required ones that
no statement imports. -/
def libraryViolations (text : List Char) (forbidden required : List String) : List Violation :=
  (forbidden.filter (usesLibrary text)).map .forbiddenLibrary ++
    (required.filter fun library => !importsStatically text library).map .missingLibrary

/-- The violation of the class rule, if there is one. -/
def classViolation? (text : List Char) (className baseClass : String) : Option Violation :=
  if !isClassName className then some (.invalidClassName className)
  else if declares text className baseClass then none
  else some (.classNotFound className baseClass)

/-- The violations of a policy by the script with the given class. -/
def violations (text : List Char) (policy : Policy) (className : String) : List Violation :=
  let code := withoutComments text
  libraryViolations code policy.forbidden policy.required ++
    (classViolation? code className policy.baseClass).toList

end ScriptRegistry.Source
