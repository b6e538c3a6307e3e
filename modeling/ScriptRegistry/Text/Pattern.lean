/-
ScriptRegistry/Text/Pattern.lean

Patterns in texts.

A `Site` is a place in a text, with the character before it and the text after
it.  A pattern leads from a site to other sites: `Pattern.sites` lists all of
them, the preferred one first.  Repetition prefers to go on, and of two
alternatives the first is preferred, so the head of the list is the match that a
search which tries possibilities in order would settle for, and the list is
empty exactly if there is no match.

The body of a repetition has to read something: `many` goes round at most once
for each character that is left.
-/
import ScriptRegistry.Text.Word

namespace ScriptRegistry.Text

/-- A place in a text. -/
structure Site where
  before : Option Char
  after : List Char
  deriving DecidableEq, Repr

/-- The start of a text. -/
def Site.start (text : List Char) : Site :=
  ⟨none, text⟩

/-- The text between a site and a later one. -/
def Site.upTo (s t : Site) : List Char :=
  s.after.take (s.after.length - t.after.length)

/-- What a stretch of text may look like. -/
inductive Pattern
  /-- Nothing. -/
  | nothing
  /-- One character of a class. -/
  | char (p : Char → Bool)
  /-- The given characters. -/
  | exactly (cs : List Char)
  /-- A word boundary, of no length. -/
  | boundary
  /-- One pattern after another. -/
  | seq (p q : Pattern)
  /-- One of two patterns. -/
  | either (p q : Pattern)
  /-- Any number of stretches. -/
  | many (p : Pattern)

namespace Pattern

/-- The site behind the given characters. -/
def readExactly : List Char → Site → Option Site
  | [], s => some s
  | c :: cs, s =>
    match s.after with
    | [] => none
    | d :: rest => if d = c then readExactly cs ⟨some d, rest⟩ else none

/-- The sites reached by going round at most `n` times, before the sites of `acc`. -/
def manySites (step : Site → List Site) : Nat → Site → List Site → List Site
  | 0, s, acc => s :: acc
  | n + 1, s, acc => (step s).foldr (manySites step n) (s :: acc)

/-- The sites that a pattern leads to, the preferred one first. -/
def sites : Pattern → Site → List Site
  | nothing, s => [s]
  | char p, s =>
    match s.after with
    | [] => []
    | c :: rest => if p c then [⟨some c, rest⟩] else []
  | exactly cs, s => (readExactly cs s).toList
  | boundary, s => if isBoundary s.before s.after.head? then [s] else []
  | seq p q, s => (p.sites s).flatMap q.sites
  | either p q, s => p.sites s ++ q.sites s
  | many p, s => manySites p.sites s.after.length s []

/-- One or more stretches. -/
def some (p : Pattern) : Pattern :=
  seq p (many p)

/-- A stretch that may be left out. -/
def optional (p : Pattern) : Pattern :=
  either p nothing

/-- Patterns one after another. -/
def all : List Pattern → Pattern
  | [] => nothing
  | [p] => p
  | p :: ps => seq p (all ps)

/-- Whether a pattern matches at the site of the given neighbours or anywhere behind it. -/
def occursFrom (p : Pattern) (before : Option Char) : List Char → Bool
  | [] => !(p.sites ⟨before, []⟩).isEmpty
  | c :: cs => !(p.sites ⟨before, c :: cs⟩).isEmpty || p.occursFrom (Option.some c) cs

/-- Whether a pattern matches anywhere in a text. -/
def occursIn (p : Pattern) (text : List Char) : Bool :=
  p.occursFrom none text

end Pattern

end ScriptRegistry.Text
