/-
ScriptRegistry/Source/ClassDecl.lean

Class declarations and the classes they derive from.

A declaration is `class`, the name of the class, its bases in round brackets and
a colon.  Inside the bases brackets may be nested once.  The bases are split at
the commas outside of inner brackets; what counts of each is the part behind its
last dot, without the blanks around it.

A class name is taken to be short enough for its pattern: one so long that the
pattern for it cannot be built has no counterpart here.
-/
import ScriptRegistry.Source.Import

namespace ScriptRegistry.Source

open Text

/-! ### Base lists -/

/-- Splits a base list at its top-level commas; `depth` counts the brackets that are open and
`entry` holds the characters of the current entry, the last first. -/
def splitBases (depth : Nat) (entry : List Char) : List Char → List (List Char)
  | [] => [entry.reverse]
  | c :: cs =>
    if c = ',' ∧ depth = 0 then entry.reverse :: splitBases 0 [] cs
    else if c = '(' then splitBases (depth + 1) (c :: entry) cs
    else if c = ')' then splitBases (depth - 1) (c :: entry) cs
    else splitBases depth (c :: entry) cs

/-- The entries of a base list. -/
def baseEntries (bases : List Char) : List (List Char) :=
  splitBases 0 [] bases

/-- The part of an entry that names a class: what stands behind its last dot. -/
def lastComponent (entry : List Char) : List Char :=
  trim ((trim entry).reverse.takeWhile (· ≠ '.')).reverse

/-- Whether a base list has the given class among its entries. -/
def namesBase (bases : List Char) (baseClass : String) : Bool :=
  (baseEntries bases).any fun entry => lastComponent entry == baseClass.toList

/-! ### Declarations -/

/-- A character other than a round bracket. -/
def notBracket : Pattern :=
  .char fun c => c != '(' && c != ')'

/-- What stands between the brackets of a declaration. -/
def baseList : Pattern :=
  .many (.either notBracket
    (.all [.char (· == '('), .many notBracket, .char (· == ')')]))

/-- A declaration of the class up to the opening bracket. -/
def declarationHead (className : String) : Pattern :=
  .all [keyword "class", blanks, .exactly className.toList, anyBlanks, .char (· == '(')]

/-- A declaration from the closing bracket on. -/
def declarationTail : Pattern :=
  .all [.char (· == ')'), anyBlanks, .char (· == ':')]

/-- The declaration of the class that starts at a site: its bases and the site behind it. -/
def declarationAt (className : String) (s : Site) : Option (List Char × Site) :=
  (((declarationHead className).sites s).flatMap fun opened =>
    (baseList.sites opened).flatMap fun closed =>
      (declarationTail.sites closed).map fun behind => (opened.upTo closed, behind)).head?

/-- Whether one of the declarations of the class, taken from left to right without overlap, lists
the base class; the first `skip` characters belong to a declaration that has been looked at. -/
def declaresFrom (className baseClass : String) (skip : Nat) (before : Option Char) :
    List Char → Bool
  | [] => false
  | c :: cs =>
    match skip with
    | skip + 1 => declaresFrom className baseClass skip (some c) cs
    | 0 =>
      match declarationAt className ⟨before, c :: cs⟩ with
      | none => declaresFrom className baseClass 0 (some c) cs
      | some (bases, behind) =>
        namesBase bases baseClass ||
          declaresFrom className baseClass (cs.length - behind.after.length) (some c) cs

/-- Whether a text declares the class with the base class among its bases. -/
def declares (text : List Char) (className baseClass : String) : Bool :=
  declaresFrom className baseClass 0 none text

/-! ### Class names -/

/-- Whether a character may stand in the name of a class. -/
def isClassNameChar (c : Char) : Bool :=
  c.isAlphanum || c == '_'

/-- Whether a text is a plain name of a class. -/
def isClassName (s : String) : Bool :=
  !s.toList.isEmpty && s.toList.all isClassNameChar

end ScriptRegistry.Source
