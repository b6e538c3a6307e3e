/-
ScriptRegistry/Proofs/Program.lean

Reasoning about programs over calls.

`Ends R Q p s` says that every way through the program `p` ends well: whatever
answers the calls get, as long as `R` allows each of them, the result and the
last state satisfy `Q`.  The state is whatever one wants to keep track of; it
moves with each answer.  `Ends` follows the tree of the program, so that it also
holds of what is left of a program after any number of its calls.  `Abides` says
besides that each call may be made in the state where it is made.

A run answers each call in one way.  It is computed by the equations
`run_*_except` for programs that may fail: a failure skips what follows, unless
it is caught.
-/
import ScriptRegistry.Store.Operation

namespace ScriptRegistry.Store

namespace Program

variable {α β ε σ : Type}

/-! ### All ways through a program -/

/-- Every call of the program is allowed where it is made, and every way through ends with a
result and a state as in `Q`, if the state moves as `R` says with each answer. -/
def Abides (allowed : σ → Call → Prop) (R : σ → (c : Call) → c.Answer → σ → Prop)
    (Q : α → σ → Prop) : Program α → σ → Prop
  | .done a, s => Q a s
  | .ask c next, s => allowed s c ∧ ∀ a s', R s c a s' → Abides allowed R Q (next a) s'

/-- Every way through the program ends with a result and a state as in `Q`, if the
state moves as `R` says with each answer. -/
def Ends (R : σ → (c : Call) → c.Answer → σ → Prop) (Q : α → σ → Prop) : Program α → σ → Prop
  | .done a, s => Q a s
  | .ask c next, s => ∀ a s', R s c a s' → Ends R Q (next a) s'

variable {allowed : σ → Call → Prop} {R : σ → (c : Call) → c.Answer → σ → Prop}

theorem Abides.mono {P Q : α → σ → Prop} {p : Program α} {s : σ} (h : Abides allowed R P p s)
    (hPQ : ∀ a s', P a s' → Q a s') : Abides allowed R Q p s := by
  induction p generalizing s with
  | done a => exact hPQ a s h
  | ask c next ih => exact ⟨h.1, fun a s' hs => ih a (h.2 a s' hs)⟩

/-- One program after another. -/
theorem Abides.bind {P : α → σ → Prop} {Q : β → σ → Prop} {p : Program α} {f : α → Program β}
    {s : σ} (h : Abides allowed R P p s) (hf : ∀ a s', P a s' → Abides allowed R Q (f a) s') :
    Abides allowed R Q (p >>= f) s := by
  induction p generalizing s with
  | done a => exact hf a s h
  | ask c next ih => exact ⟨h.1, fun a s' hs => ih a (h.2 a s' hs)⟩

/-- A program that may fail, and what follows if it does not. -/
theorem Abides.bind_except {P : Except ε α → σ → Prop} {Q : Except ε β → σ → Prop}
    {x : ExceptT ε Program α} {f : α → ExceptT ε Program β} {s : σ}
    (h : Abides allowed R P x.run s)
    (hok : ∀ a s', P (.ok a) s' → Abides allowed R Q (f a).run s')
    (herror : ∀ e s', P (.error e) s' → Q (.error e) s') :
    Abides allowed R Q (x >>= f).run s := by
  refine Abides.bind h fun r s' hr => ?_
  rcases r with e | a
  · exact herror e s' hr
  · exact hok a s' hr

/-- A program that may fail, and what is done if it does. -/
theorem Abides.catch_except {P Q : Except ε α → σ → Prop} {x : ExceptT ε Program α}
    {f : ε → ExceptT ε Program α} {s : σ} (h : Abides allowed R P x.run s)
    (hok : ∀ a s', P (.ok a) s' → Q (.ok a) s')
    (herror : ∀ e s', P (.error e) s' → Abides allowed R Q (f e).run s') :
    Abides allowed R Q (tryCatch x f).run s := by
  refine Abides.bind h fun r s' hr => ?_
  rcases r with e | a
  · exact herror e s' hr
  · exact hok a s' hr

/-- Where every call is allowed, only the end counts. -/
theorem ends_iff_abides {Q : α → σ → Prop} {p : Program α} {s : σ} :
    Ends R Q p s ↔ Abides (fun _ _ => True) R Q p s := by
  induction p generalizing s with
  | done a => exact Iff.rfl
  | ask c next ih => simp only [Ends, Abides, ih, true_and]

theorem Ends.mono {P Q : α → σ → Prop} {p : Program α} {s : σ} (h : Ends R P p s)
    (hPQ : ∀ a s', P a s' → Q a s') : Ends R Q p s :=
  ends_iff_abides.mpr ((ends_iff_abides.mp h).mono hPQ)

/-- One program after another. -/
theorem Ends.bind {P : α → σ → Prop} {Q : β → σ → Prop} {p : Program α} {f : α → Program β} {s : σ}
    (h : Ends R P p s) (hf : ∀ a s', P a s' → Ends R Q (f a) s') : Ends R Q (p >>= f) s :=
  ends_iff_abides.mpr ((ends_iff_abides.mp h).bind fun a s' ha => ends_iff_abides.mp (hf a s' ha))

/-- A program that may fail, and what follows if it does not. -/
theorem Ends.bind_except {P : Except ε α → σ → Prop} {Q : Except ε β → σ → Prop}
    {x : ExceptT ε Program α} {f : α → ExceptT ε Program β} {s : σ} (h : Ends R P x.run s)
    (hok : ∀ a s', P (.ok a) s' → Ends R Q (f a).run s')
    (herror : ∀ e s', P (.error e) s' → Q (.error e) s') : Ends R Q (x >>= f).run s :=
  ends_iff_abides.mpr ((ends_iff_abides.mp h).bind_except
    (fun a s' ha => ends_iff_abides.mp (hok a s' ha)) herror)

/-- A program that may fail, and what is done if it does. -/
theorem Ends.catch_except {P Q : Except ε α → σ → Prop} {x : ExceptT ε Program α}
    {f : ε → ExceptT ε Program α} {s : σ} (h : Ends R P x.run s)
    (hok : ∀ a s', P (.ok a) s' → Q (.ok a) s')
    (herror : ∀ e s', P (.error e) s' → Ends R Q (f e).run s') :
    Ends R Q (tryCatch x f).run s :=
  ends_iff_abides.mpr ((ends_iff_abides.mp h).catch_except hok
    fun e s' he => ends_iff_abides.mp (herror e s' he))

/-! ### Runs -/

variable {answer : σ → (c : Call) → c.Answer × σ}

/-- A run is one of the ways through. -/
theorem Ends.run {Q : α → σ → Prop} {p : Program α} {s : σ}
    (h : Ends (fun s c a s' => answer s c = (a, s')) Q p s) :
    Q (p.run answer s).1 (p.run answer s).2 := by
  induction p generalizing s with
  | done a => exact h
  | ask c next ih => exact ih _ (h _ _ rfl)

/-- What follows a program that succeeds. -/
theorem run_bind_ok {x : ExceptT ε Program α} {s s' : σ} {a : α}
    (h : Program.run answer x.run s = (.ok a, s')) (f : α → ExceptT ε Program β) :
    Program.run answer (x >>= f).run s = Program.run answer (f a).run s' := by
  show Program.run answer (x.run >>= ExceptT.bindCont f) s = _
  rw [run_bind, h]
  rfl

/-- What follows a program that fails. -/
theorem run_bind_error {x : ExceptT ε Program α} {s s' : σ} {e : ε}
    (h : Program.run answer x.run s = (.error e, s')) (f : α → ExceptT ε Program β) :
    Program.run answer (x >>= f).run s = (.error e, s') := by
  show Program.run answer (x.run >>= ExceptT.bindCont f) s = _
  rw [run_bind, h]
  rfl

/-- Nothing is caught where nothing fails. -/
theorem run_catch_ok {x : ExceptT ε Program α} {s s' : σ} {a : α}
    (h : Program.run answer x.run s = (.ok a, s')) (f : ε → ExceptT ε Program α) :
    Program.run answer (tryCatch x f).run s = (.ok a, s') := by
  show Program.run answer (x.run >>= fun r => _) s = _
  rw [run_bind, h]
  rfl

theorem run_catch_error {x : ExceptT ε Program α} {s s' : σ} {e : ε}
    (h : Program.run answer x.run s = (.error e, s')) (f : ε → ExceptT ε Program α) :
    Program.run answer (tryCatch x f).run s = Program.run answer (f e).run s' := by
  show Program.run answer (x.run >>= fun r => _) s = _
  rw [run_bind, h]
  rfl

theorem run_lift (p : Program α) (s : σ) :
    Program.run answer (ExceptT.lift p : ExceptT ε Program α).run s
      = (.ok (p.run answer s).1, (p.run answer s).2) := by
  show Program.run answer (p >>= fun a => .done (Except.ok a : Except ε α)) s = _
  rw [run_bind]
  rfl

end Program

/-! ### Errands -/

/-- What a client is there for. -/
inductive Errand
  | create (draft : Draft)
  | update (draft : Draft) (attempts : Nat)
  | delete (name : AlgorithmName) (version : Option Version)

/-- The program of an errand. -/
def Errand.program : Errand → Program (Except StoreError Record)
  | .create draft => (Store.create draft).run
  | .update draft attempts => (Store.update draft attempts).run
  | .delete name version => (Store.delete name version).run

/-- The draft that an errand is to store. -/
def Errand.draft? : Errand → Option Draft
  | .create draft => some draft
  | .update draft _ => some draft
  | .delete _ _ => none

end ScriptRegistry.Store
