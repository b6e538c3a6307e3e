/-
ScriptRegistry/Store/Program.lean

Operations as programs over calls.

An operation on stored algorithms touches nothing by itself: it makes calls to
the catalog of records, to the stored texts, to the source of tokens and to the
clock, and goes on with their answers.  `Program` is the tree of what it does
next for every answer; `Program.run` walks the tree with one way of answering.
Between two calls other clients may act, so that the calls are also the points
at which operations interleave.
-/
import ScriptRegistry.Algorithm.Record
import ScriptRegistry.Store.Error

namespace ScriptRegistry.Store

/-- A call that an operation makes. -/
inductive Call
  | latest (name : AlgorithmName)
  | find (name : AlgorithmName) (version : Option Version)
  | enroll (record : Record) (expected : Option Version)
  | remove (name : AlgorithmName) (version : Option Version)
  | newest
  | writeText (key : Artifact.Key) (text : String)
  | readText (key : Artifact.Key)
  | removeText (key : Artifact.Key)
  | drawToken
  | readClock
  deriving DecidableEq, Repr

/-- What a call is answered with. -/
abbrev Call.Answer : Call → Type
  | .latest _ => Except StoreError (Option Version)
  | .find _ _ => Except StoreError (Option Record)
  | .enroll _ _ => Except StoreError Unit
  | .remove _ _ => Except StoreError (Option Record)
  | .newest => Except StoreError (List Latest)
  | .writeText _ _ => Except StoreError Unit
  | .readText _ => Except StoreError String
  | .removeText _ => Except StoreError Unit
  | .drawToken => Artifact.Token
  | .readClock => Time.Moment

/-- A finished result, or a call and what follows each of its answers. -/
inductive Program (α : Type)
  | done (result : α)
  | ask (call : Call) (next : call.Answer → Program α)

namespace Program

variable {α β σ : Type}

/-- One program after another. -/
def bind : Program α → (α → Program β) → Program β
  | .done a, f => f a
  | .ask call next, f => .ask call fun answer => (next answer).bind f

instance : Monad Program where
  pure := .done
  bind := Program.bind

/-- Makes one call. -/
def call (c : Call) : Program c.Answer :=
  .ask c .done

/-- Runs a program in a state that answers calls. -/
def run (answer : σ → (c : Call) → c.Answer × σ) : Program α → σ → α × σ
  | .done a, s => (a, s)
  | .ask c next, s => (next (answer s c).1).run answer (answer s c).2

@[simp]
theorem pure_eq (a : α) : (pure a : Program α) = .done a := rfl

@[simp]
theorem done_bind (a : α) (f : α → Program β) : (Program.done a >>= f) = f a := rfl

@[simp]
theorem ask_bind (c : Call) (next : c.Answer → Program α) (f : α → Program β) :
    (Program.ask c next >>= f) = .ask c fun answer => next answer >>= f := rfl

@[simp]
theorem run_done (answer : σ → (c : Call) → c.Answer × σ) (a : α) (s : σ) :
    (Program.done a).run answer s = (a, s) := rfl

@[simp]
theorem run_ask (answer : σ → (c : Call) → c.Answer × σ) (c : Call) (next : c.Answer → Program α)
    (s : σ) :
    (Program.ask c next).run answer s = (next (answer s c).1).run answer (answer s c).2 := rfl

/-- A program after another starts from the state that the first leaves. -/
theorem run_bind (answer : σ → (c : Call) → c.Answer × σ) (p : Program α) (f : α → Program β)
    (s : σ) :
    (p >>= f).run answer s = (f (p.run answer s).1).run answer (p.run answer s).2 := by
  induction p generalizing s with
  | done a => rfl
  | ask c next ih => rw [ask_bind, run_ask, run_ask, ih]

end Program

/-- A program that may fail. -/
abbrev Operation (α : Type) := ExceptT StoreError Program α

end ScriptRegistry.Store
