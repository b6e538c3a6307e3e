/-
ScriptRegistry/Source/Import.lean

Import statements, as far as they can be told without running the code.

A library is imported statically where, behind `import` and any number of other
modules with their aliases and commas, its name stands, or behind `from`.  It is
imported dynamically where `__import__` or `import_module` is called with a
quoted name.  In each form the name may be the library or something inside it:
all that is asked is that a word ends behind the library's name.

A library is taken to be short enough for its patterns: one whose name is so
long that the patterns for it cannot be built has no counterpart here.
-/
import ScriptRegistry.Text.Blank
import ScriptRegistry.Text.Pattern

namespace ScriptRegistry.Source

open Text

/-- One or more blanks. -/
def blanks : Pattern :=
  .some (.char isBlank)

/-- Any number of blanks. -/
def anyBlanks : Pattern :=
  .many (.char isBlank)

/-- A word at whose start a word starts. -/
def keyword (word : String) : Pattern :=
  .seq .boundary (.exactly word.toList)

/-- The name of a library, with a word boundary behind it. -/
def libraryName (library : String) : Pattern :=
  .seq (.exactly library.toList) .boundary

/-- A module in a list of imports, with the comma behind it: a dotted name and perhaps an alias. -/
def listedModule : Pattern :=
  .all [.some (.char fun c => isWord c || c == '.'),
    .optional (.all [blanks, .exactly ['a', 's'], blanks, .some (.char isWord)]),
    anyBlanks, .char (· == ','), anyBlanks]

/-- A statement that imports the library. -/
def staticImport (library : String) : Pattern :=
  .either
    (.all [keyword "import", blanks, .many listedModule, libraryName library])
    (.all [keyword "from", blanks, libraryName library])

/-- A call that imports the library. -/
def dynamicImport (library : String) : Pattern :=
  .all [.boundary, .either (.exactly "__import__".toList) (.exactly "import_module".toList),
    anyBlanks, .char (· == '('), anyBlanks, .char (fun c => c == '\'' || c == '"'),
    libraryName library]

/-- Whether a text imports a library by a statement. -/
def importsStatically (text : List Char) (library : String) : Bool :=
  (staticImport library).occursIn text

/-- Whether a text imports a library by a call. -/
def importsDynamically (text : List Char) (library : String) : Bool :=
  (dynamicImport library).occursIn text

end ScriptRegistry.Source
