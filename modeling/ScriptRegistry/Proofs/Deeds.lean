/-
ScriptRegistry/Proofs/Deeds.lean

What one client does with its texts, whatever its calls are answered.

The log of a client has its calls with their answers, and the changes that were
made by them, told or not.  From the log one can tell what the client has in hand
(`Hand`): the token that its next text will bear, the keys that are its own to
remove, and the texts that it holds for the record to come.  A client keeps to
`Hand.Permits`: it writes only under a key with its token, it inserts only a record
of the texts that it holds, and it removes only what is its own.

An insert that is refused leaves the texts with the client, and any other ending
of it takes them away, because then the record may be stored.  This is why texts are
dropped after a conflict and not after any other error.

Main result: `abides_program`.
-/
import Mathlib.Data.List.Induction
import ScriptRegistry.Proofs.Depot

namespace ScriptRegistry.Store

open Artifact
open Program (Abides)

/-! ### Logs -/

/-- A call with its answer, and the change that was made by it. -/
structure Deed where
  call : Call
  answer : call.Answer
  change : Option Change

/-- The record that is left to others by a call: it was inserted, or nobody knows. -/
def Call.entrusted? : (c : Call) → c.Answer → Option Record
  | .enroll record _, .ok () => some record
  | .enroll _ _, .error (.versionConflict _ _ _) => none
  | .enroll record _, .error _ => some record
  | .remove _ _, _ => none
  | .latest _, _ => none
  | .find _ _, _ => none
  | .newest, _ => none
  | .writeText _ _, _ => none
  | .readText _, _ => none
  | .removeText _, _ => none
  | .drawToken, _ => none
  | .readClock, _ => none

/-- The key that a call has written a text under. -/
def Call.written? : (c : Call) → c.Answer → Option Key
  | .writeText key _, .ok () => some key
  | .writeText _ _, .error _ => none
  | .enroll _ _, _ => none
  | .remove _ _, _ => none
  | .latest _, _ => none
  | .find _ _, _ => none
  | .newest, _ => none
  | .readText _, _ => none
  | .removeText _, _ => none
  | .drawToken, _ => none
  | .readClock, _ => none

/-- The keys that texts were written under. -/
def written (log : List Deed) : List Key :=
  log.filterMap fun deed => deed.call.written? deed.answer

/-- The changes that were made. -/
def changes (log : List Deed) : List Change :=
  log.filterMap (·.change)

/-! ### What a client has in hand -/

/-- A token for the next text, the keys that are one's own to remove, and the texts that
are held for the record to come. -/
structure Hand where
  blank : Option Token
  own : List Key
  held : List TextRef

namespace Hand

/-- Nothing in hand. -/
def empty : Hand :=
  ⟨none, [], []⟩

/-- What is in hand after a call. -/
def note (h : Hand) : (c : Call) → c.Answer → Hand
  | .drawToken, token => { h with blank := some token }
  | .writeText key text, .ok () => ⟨none, h.own ++ [key], h.held ++ [⟨key, .ofText text⟩]⟩
  | .writeText _ _, .error _ => { h with blank := none }
  | .removeText key, _ => { h with held := h.held.filter (·.key ≠ key) }
  | .remove _ _, .ok (some record) => { h with own := h.own ++ record.keys }
  | .remove _ _, .ok none => h
  | .remove _ _, .error _ => h
  | .enroll record expected, answer =>
    if ((Call.enroll record expected).entrusted? answer).isSome then ⟨h.blank, [], []⟩ else h
  | .latest _, _ => h
  | .find _ _, _ => h
  | .newest, _ => h
  | .readText _, _ => h
  | .readClock, _ => h

end Hand

/-- What a client with the given log has in hand. -/
def hand (log : List Deed) : Hand :=
  log.foldl (fun h deed => h.note deed.call deed.answer) .empty

/-- The key is one of a text that bears the token. -/
def Bears (key : Key) (token : Token) : Prop :=
  ∃ name version role, key = Key.fresh name version role token

/-- What a client may call for. -/
def Hand.Permits (h : Hand) : Call → Prop
  | .writeText key _ => ∃ token, h.blank = some token ∧ Bears key token
  | .enroll record _ => record.refs = h.held
  | .removeText key => key ∈ h.own
  | .remove _ _ => True
  | .latest _ => True
  | .find _ _ => True
  | .newest => True
  | .readText _ => True
  | .drawToken => True
  | .readClock => True

/-- A client may make a call. -/
def Permits (log : List Deed) (c : Call) : Prop :=
  (hand log).Permits c

/-- The log after a call that some depot has answered. -/
def Logged (log : List Deed) (c : Call) (answer : c.Answer) (log' : List Deed) : Prop :=
  ∃ (d d' : Depot) (change : Option Change), d.records.Sound ∧ d.Answers c answer change d' ∧
    log' = log ++ [⟨c, answer, change⟩]

theorem hand_append (log : List Deed) (deed : Deed) :
    hand (log ++ [deed]) = (hand log).note deed.call deed.answer := by
  rw [hand, List.foldl_append]
  rfl

theorem written_append (log : List Deed) (deed : Deed) :
    written (log ++ [deed]) = written log ++ (deed.call.written? deed.answer).toList := by
  rw [written, List.filterMap_append]
  rcases hw : deed.call.written? deed.answer with - | key
  · simp [written, hw]
  · simp [written, hw]

/-- What is held is one's own to remove. -/
theorem mem_own_of_held {log : List Deed} {ref : TextRef} (h : ref ∈ (hand log).held) :
    ref.key ∈ (hand log).own := by
  induction log using List.reverseRecOn with
  | nil => cases h
  | append_singleton log deed ih =>
    rw [hand_append] at h ⊢
    obtain ⟨call, answer, change⟩ := deed
    cases call with
    | writeText key text =>
      rcases answer with e | ⟨⟩
      · exact ih h
      · rcases List.mem_append.mp h with h | h
        · exact List.mem_append_left _ (ih h)
        · rw [List.mem_singleton.mp h]
          exact List.mem_append_right _ (List.mem_singleton.mpr rfl)
    | removeText key => exact ih (List.mem_filter.mp h).1
    | remove name version =>
      rcases answer with e | - | record
      · exact ih h
      · exact ih h
      · exact List.mem_append_left _ (ih h)
    | enroll record expected =>
      rw [Hand.note] at h ⊢
      split at h
      · cases h
      · next hnone => rw [if_neg hnone]; exact ih h
    | drawToken => exact ih h
    | latest name => exact ih h
    | find name version => exact ih h
    | newest => exact ih h
    | readText key => exact ih h
    | readClock => exact ih h

/-! ### Between two calls -/

/-- The texts of the references are held; nothing was changed so far, and nothing left to
others. -/
structure Idle (log : List Deed) (refs : List TextRef) : Prop where
  held : (hand log).held = refs
  clean : ∀ deed ∈ log, deed.change = none ∧ deed.call.entrusted? deed.answer = none

/-- The last call was an insert that failed as input and output do, and with just the error
that is told; nothing was changed before. -/
def CutShort (e : StoreError) (log : List Deed) : Prop :=
  ∃ earlier record expected change, log = earlier ++ [⟨.enroll record expected, .error e, change⟩] ∧
    e.isIo = true ∧ (change = none ∨ change = some (.inserted record)) ∧ Idle earlier record.refs

/-- Another has inserted a record first; the texts are still held. -/
def TooLate (record : Record) (e : StoreError) (log : List Deed) : Prop :=
  Idle log record.refs ∧ ∃ name expected actual, e = .versionConflict name expected actual

/-- One who is told of an error holds nothing and has changed nothing, or was cut short. -/
def Backed : Except StoreError Record → List Deed → Prop
  | .ok _, _ => True
  | .error e, log => Idle log [] ∨ CutShort e log

/-- The texts that are held after a step, by its result. -/
def After {α : Type} (refs : α → List TextRef) (left : List TextRef) :
    Except StoreError α → List Deed → Prop
  | .ok a, log => Idle log (refs a)
  | .error _, log => Idle log left

variable {log : List Deed} {refs : List TextRef}

theorem idle_nil : Idle [] [] :=
  ⟨rfl, fun _ h => by cases h⟩

/-- A call that changes nothing and leaves nothing to others. -/
theorem Idle.append (h : Idle log refs) {deed : Deed} {refs' : List TextRef}
    (hchange : deed.change = none) (hnone : deed.call.entrusted? deed.answer = none)
    (hheld : ((hand log).note deed.call deed.answer).held = refs') :
    Idle (log ++ [deed]) refs' where
  held := by rw [hand_append, hheld]
  clean other hother := by
    rcases List.mem_append.mp hother with hother | hother
    · exact h.clean other hother
    · rw [List.mem_singleton.mp hother]
      exact ⟨hchange, hnone⟩

/-- Calls that do nothing leave everything as it is. -/
theorem abides_still {α : Type} {Q : α → List Deed → Prop} {c : Call}
    {next : c.Answer → Program α} (hc : Depot.IsStill c) (h : Idle log refs)
    (hnext : ∀ answer log', Idle log' refs → Abides Permits Logged Q (next answer) log') :
    Abides Permits Logged Q (.ask c next) log := by
  refine ⟨?_, ?_⟩
  · cases c with
    | writeText key text => cases hc
    | enroll record expected => cases hc
    | removeText key => cases hc
    | _ => trivial
  · rintro answer _ ⟨d, d', change, -, hanswer, rfl⟩
    obtain ⟨rfl, -⟩ := hanswer.still hc
    refine hnext answer _ (h.append rfl ?_ ?_)
    · cases c with
      | enroll record expected => cases hc
      | _ => rfl
    · cases c with
      | enroll record expected => cases hc
      | remove name version => cases hc
      | writeText key text => cases hc
      | removeText key => cases hc
      | drawToken => cases hc
      | _ => exact h.held

theorem abides_latest (name : AlgorithmName) (h : Idle log refs) :
    Abides Permits Logged (fun _ log' => Idle log' refs) (latest name).run log :=
  abides_still (c := .latest name) trivial h fun _ _ h' => h'

theorem abides_readClock (h : Idle log refs) :
    Abides Permits Logged (fun result log' => (∃ now, result = .ok now) ∧ Idle log' refs)
      (ExceptT.lift (Program.call .readClock) : Operation Time.Moment).run log :=
  abides_still (c := .readClock) trivial h fun now _ h' => ⟨⟨now, rfl⟩, h'⟩

/-! ### The steps of operations -/

/-- What is one's own may be dropped, and is not held any longer. -/
theorem abides_dropTexts {keys : List Key} (hown : ∀ key ∈ keys, key ∈ (hand log).own) :
    Abides Permits Logged (fun result log' => result = .ok () ∧
        ∀ refs, Idle log refs → Idle log' (refs.filter fun ref => ref.key ∉ keys))
      (dropTexts keys).run log := by
  induction keys generalizing log with
  | nil =>
    refine ⟨rfl, fun refs h => ?_⟩
    rw [List.filter_eq_self.mpr fun ref _ => decide_eq_true List.not_mem_nil]
    exact h
  | cons key keys ih =>
    refine Abides.bind_except (P := fun result log' => (∃ answer, result = .ok answer) ∧
      (hand log').own = (hand log).own ∧
      ∀ refs, Idle log refs → Idle log' (refs.filter (·.key ≠ key)))
      ⟨hown key List.mem_cons_self, ?_⟩ ?_ ?_
    · rintro answer _ ⟨d, d', change, -, hanswer, rfl⟩
      obtain ⟨rfl, -⟩ := hanswer.removeText
      refine ⟨⟨answer, rfl⟩, by rw [hand_append]; rfl, fun refs h => h.append rfl rfl ?_⟩
      rw [← h.held]
      rfl
    · rintro _ log' ⟨-, hsame, hidle⟩
      refine (ih fun k hk => ?_).mono ?_
      · rw [hsame]
        exact hown k (List.mem_cons_of_mem _ hk)
      · rintro result log'' ⟨hok, hrest⟩
        refine ⟨hok, fun refs h => ?_⟩
        have hfilter : refs.filter (fun ref => decide (ref.key ∉ key :: keys))
            = (refs.filter (·.key ≠ key)).filter fun ref => ref.key ∉ keys := by
          rw [List.filter_filter]
          exact List.filter_congr fun ref _ => by simp [Bool.and_comm]
        rw [hfilter]
        exact hrest _ (hidle refs h)
    · rintro e log' ⟨⟨_, herror⟩, -⟩
      cases herror

/-- A text that is written is held. -/
theorem abides_writeScript (h : Idle log refs) (name : AlgorithmName) (version : Version)
    (role : Role) (source : String) :
    Abides Permits Logged (After (fun ref => refs ++ [ref]) refs)
      (writeScript name version role source).run log := by
  rw [writeScript]
  refine Abides.bind_except (P := fun result log' => ∃ token, result = .ok token ∧
    Idle log' refs ∧ (hand log').blank = some token) ⟨trivial, ?_⟩ ?_ ?_
  · rintro token _ ⟨d, d', change, -, hanswer, rfl⟩
    obtain ⟨rfl, -⟩ := hanswer.drawToken
    exact ⟨token, rfl, h.append rfl rfl h.held, by rw [hand_append]; rfl⟩
  · rintro token log' ⟨_, ⟨⟩, h', hblank⟩
    let ref : TextRef := ⟨Key.fresh name version role token, .ofText source⟩
    refine Abides.bind_except (P := After (fun _ : Unit => refs ++ [ref]) refs)
      ⟨⟨token, hblank, name, version, role, rfl⟩, ?_⟩ (fun _ _ h'' => h'') fun _ _ h'' => h''
    rintro answer _ ⟨d, d', change, -, hanswer, rfl⟩
    obtain ⟨rfl, ⟨rfl, -⟩ | ⟨⟨e, rfl⟩, -⟩⟩ := hanswer.writeText
    · exact h'.append rfl rfl (by rw [← h'.held]; rfl)
    · exact h'.append rfl rfl h'.held
  · rintro e _ ⟨_, ⟨⟩, -⟩

/-- The privacy script joins the main one, or neither is held. -/
theorem abides_writePrivacy (draft : Draft) (version : Version) (main : TextRef)
    (h : Idle log [main]) :
    Abides Permits Logged (After (fun p => main :: (p.map (·.artifact)).toList) [])
      (writePrivacy draft version main).run log := by
  rw [writePrivacy]
  split
  · exact h
  · next script _ =>
    refine Abides.catch_except (P := After (fun p : Option RecordPrivacy =>
      main :: (p.map (·.artifact)).toList) [main]) ?_ (fun _ _ h' => h') fun e log' h' => ?_
    · exact Abides.bind_except (abides_writeScript h _ _ _ _) (fun _ _ h' => h') fun _ _ h' => h'
    · have h' : Idle log' [main] := h'
      have hown : ∀ key ∈ [main.key], key ∈ (hand log').own := by
        intro key hkey
        rw [List.mem_singleton.mp hkey]
        exact mem_own_of_held (by rw [h'.held]; exact List.mem_singleton.mpr rfl)
      refine Abides.bind_except (abides_dropTexts hown) ?_ ?_
      · rintro _ log'' ⟨-, hdropped⟩
        have hnone : Idle log'' [] := by simpa using hdropped _ h'
        exact hnone
      · rintro _ _ ⟨⟨⟩, -⟩

/-- An insert of what is held: if it fails, the texts are still there, or one is cut short. -/
theorem abides_enroll {record : Record} (h : Idle log record.refs) (expected : Option Version) :
    Abides Permits Logged (fun result log' => ∀ e, result = .error e →
        TooLate record e log' ∨ CutShort e log')
      (enroll record expected).run log := by
  refine ⟨h.held.symm, ?_⟩
  rintro answer _ ⟨d, d', change, hd, hanswer, rfl⟩
  obtain ⟨rfl, -⟩ | ⟨⟨latest, rfl⟩, rfl, -⟩ | ⟨e, rfl, hio, hchange⟩ := hanswer.enroll hd
  · intro e he
    cases he
  · intro e he
    cases he
    exact Or.inl ⟨h.append rfl rfl h.held, _, _, _, rfl⟩
  · intro e' he
    cases he
    refine Or.inr ⟨log, record, expected, change, rfl, hio, ?_, h⟩
    exact hchange.imp (·.1) (·.1)

/-- What is done about an insert that failed: texts are dropped if it was refused. -/
theorem abides_giveUp {record : Record} {e : StoreError}
    (h : TooLate record e log ∨ CutShort e log) :
    Abides Permits Logged (fun result log' => ∃ e, result = .error e ∧
        (Idle log' [] ∨ CutShort e log'))
      (do
        match e with
        | .versionConflict _ _ _ => dropTexts record.keys
        | _ => pure ()
        throw e : Operation Unit).run log := by
  rcases h with ⟨hidle, name, expected, actual, rfl⟩ | hcut
  · have hown : ∀ key ∈ record.keys, key ∈ (hand log).own := by
      intro key hkey
      rw [Record.keys_eq] at hkey
      obtain ⟨ref, href, rfl⟩ := List.mem_map.mp hkey
      exact mem_own_of_held (by rw [hidle.held]; exact href)
    refine Abides.bind_except (abides_dropTexts hown) ?_ ?_
    · rintro _ log' ⟨-, hdropped⟩
      refine ⟨_, rfl, Or.inl ?_⟩
      have hnone : record.refs.filter (fun ref => ref.key ∉ record.keys) = [] := by
        rw [List.filter_eq_nil_iff]
        intro ref href
        rw [Record.keys_eq]
        simpa using List.mem_map_of_mem (f := (·.key)) href
      rw [← hnone]
      exact hdropped _ hidle
    · rintro _ _ ⟨⟨⟩, -⟩
  · obtain ⟨earlier, record, expected, change, hlog, hio, hrest⟩ := hcut
    cases e with
    | file fault => exact ⟨_, rfl, Or.inr ⟨earlier, record, expected, change, hlog, rfl, hrest⟩⟩
    | interrupted reason =>
      exact ⟨_, rfl, Or.inr ⟨earlier, record, expected, change, hlog, rfl, hrest⟩⟩
    | _ => cases hio

theorem abides_publish (draft : Draft) (expected : Option Version) (h : Idle log []) :
    Abides Permits Logged Backed (publish draft expected).run log := by
  rw [publish]
  rcases Version.following expected with fault | version
  · exact Or.inl h
  refine Abides.bind_except (P := fun result log' => result = .ok version ∧ Idle log' [])
    ⟨rfl, h⟩ ?_ ?_
  · rintro _ log₁ ⟨⟨⟩, h₁⟩
    refine Abides.bind_except (abides_writeScript h₁ _ _ _ _) (fun main log₂ h₂ => ?_)
      fun e log₂ h₂ => Or.inl h₂
    refine Abides.bind_except (abides_writePrivacy draft version main h₂)
      (fun privacy log₃ h₃ => ?_) fun e log₃ h₃ => Or.inl h₃
    refine Abides.bind_except (abides_readClock h₃) ?_ ?_
    · rintro createdAt log₄ ⟨-, h₄⟩
      let record : Record := ⟨draft.name, version, draft.description,
        ⟨main, draft.main.className, draft.main.reducer⟩, privacy, createdAt⟩
      have h₄ : Idle log₄ record.refs := h₄
      refine Abides.bind_except (P := fun result log' => ∀ e, result = .error e →
        Idle log' [] ∨ CutShort e log') ?_ (fun _ _ _ => trivial) fun e _ herror => herror e rfl
      refine Abides.catch_except (abides_enroll h₄ expected) (fun _ _ _ e he => by cases he)
        fun e log₅ h₅ => ?_
      refine (abides_giveUp (h₅ e rfl)).mono ?_
      rintro _ log₆ ⟨e', rfl, h₆⟩ _ ⟨⟩
      exact h₆
    · rintro _ _ ⟨⟨_, ⟨⟩⟩, -⟩
  · rintro _ _ ⟨⟨⟩, -⟩

/-! ### Errands -/

/-- One who is told of a conflict was not cut short. -/
theorem idle_of_versionConflict {name : AlgorithmName} {expected actual : Option Version}
    (h : Backed (.error (.versionConflict name expected actual)) log) : Idle log [] := by
  rcases h with h | ⟨_, _, _, _, _, ⟨⟩, _⟩
  exact h

theorem abides_updateOnce (draft : Draft) {again : StoreError → Operation Record}
    (hagain : ∀ e log, Idle log [] → Abides Permits Logged Backed (again e).run log)
    (h : Idle log []) : Abides Permits Logged Backed (updateOnce draft again).run log := by
  rw [updateOnce]
  refine Abides.bind_except (abides_latest draft.name h) (fun found log' h' => ?_)
    fun _ _ h' => Or.inl h'
  rcases found with - | latest
  · exact Or.inl h'
  · refine Abides.catch_except (abides_publish draft _ h') (fun _ _ hr => hr)
      fun e log'' h'' => ?_
    split
    · exact hagain _ _ (idle_of_versionConflict h'')
    · exact h''

theorem abides_updateRetrying (draft : Draft) (retries : Nat) (h : Idle log []) :
    Abides Permits Logged Backed (updateRetrying draft retries).run log := by
  induction retries generalizing log with
  | zero => exact abides_updateOnce draft (fun _ _ h' => Or.inl h') h
  | succ left ih => exact abides_updateOnce draft (fun _ _ h' => ih h') h

theorem abides_create (draft : Draft) (h : Idle log []) :
    Abides Permits Logged Backed (create draft).run log := by
  rw [create]
  refine Abides.bind_except (abides_latest draft.name h) (fun found log' h' => ?_)
    fun _ _ h' => Or.inl h'
  dsimp only
  split
  · exact Or.inl h'
  · refine Abides.catch_except (abides_publish draft none h') (fun _ _ hr => hr)
      fun e log'' h'' => ?_
    split
    · exact Or.inl (idle_of_versionConflict h'')
    · exact h''

/-- One who takes out a record removes its texts. -/
theorem abides_delete (name : AlgorithmName) (version : Option Version) :
    Abides Permits Logged (fun _ _ => True) (delete name version).run log := by
  rw [delete]
  refine Abides.bind_except (P := fun result log' => ∀ record, result = .ok (some record) →
    ∀ key ∈ record.keys, key ∈ (hand log').own) ⟨trivial, ?_⟩ (fun found log' hown => ?_)
    fun _ _ _ => trivial
  · rintro answer _ ⟨d, d', change, -, -, rfl⟩ record hok key hkey
    obtain rfl : answer = .ok (some record) := hok
    rw [hand_append]
    exact List.mem_append_right _ hkey
  · rcases found with - | record
    · trivial
    · exact Abides.bind_except (abides_dropTexts (hown record rfl)) (fun _ _ _ => trivial)
        fun _ _ _ => trivial

/-- A client that is to store a draft and is told of an error has taken everything back, or
was cut short. -/
def Errand.Kept (errand : Errand) (result : Except StoreError Record) (log : List Deed) : Prop :=
  errand.draft?.isSome = true → Backed result log

/-- **Every client keeps to what it is permitted**, and takes everything back when it
fails, unless it is cut short. -/
theorem abides_program (errand : Errand) :
    Abides Permits Logged errand.Kept errand.program [] := by
  cases errand with
  | create draft => exact (abides_create draft idle_nil).mono fun _ _ h _ => h
  | update draft attempts =>
    exact (abides_updateRetrying draft (attempts - 1) idle_nil).mono fun _ _ h _ => h
  | delete name version => exact (abides_delete name version).mono fun _ _ _ h => by cases h

end ScriptRegistry.Store
