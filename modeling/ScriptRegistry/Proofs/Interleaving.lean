/-
ScriptRegistry/Proofs/Interleaving.lean

Clients that create, update and delete at the same time.

Each client works through the program of its errand call by call, and between
two calls of one client any calls of the others may come.  The records answer
the calls that are about them; every other call may be answered in any way, so
that nothing is assumed about the texts.  The world keeps a history of all
changes to the records, with who made them and what the records were before.

The invariant has two sides.  What a single client still does is told by `Ends`:
whatever answers it gets from here on, it will in the end have made exactly the
change that its result tells of (`ends_program`).  This depends on the client's
own answers only, so no other client can spoil it.  What a call does to the
records is told by the catalog: an insert that goes through comes right behind
the latest version of its name, so nothing stood at its place.

Main result: `Reachable.changes_accounted`.  That clients of one backend are a
case of this, whatever the order of their calls, is `reachable_play`.
-/
import ScriptRegistry.Proofs.Catalog
import ScriptRegistry.Proofs.Program
import ScriptRegistry.Store.Backend
import ScriptRegistry.Store.Operation

namespace ScriptRegistry.Store

/-! ### Changes -/

/-- A change to the records. -/
inductive Change
  | inserted (record : Record)
  | removed (record : Record)
  deriving DecidableEq

/-- The change that a call has made, given its answer. -/
def Call.change? : (c : Call) → c.Answer → Option Change
  | .enroll record _, .ok () => some (.inserted record)
  | .remove _ _, .ok (some record) => some (.removed record)
  | .enroll _ _, .error _ => none
  | .remove _ _, .ok none => none
  | .remove _ _, .error _ => none
  | .latest _, _ => none
  | .find _ _, _ => none
  | .newest, _ => none
  | .writeText _ _, _ => none
  | .readText _, _ => none
  | .removeText _, _ => none
  | .drawToken, _ => none
  | .readClock, _ => none

/-- The changes made so far grow by the change that a call makes. -/
def Notes (made : List Change) (c : Call) (answer : c.Answer) (made' : List Change) : Prop :=
  made' = made ++ (c.change? answer).toList

namespace Errand

/-- The change that an errand is to make. -/
def change : Errand → Record → Change
  | .create _, record => .inserted record
  | .update _ _, record => .inserted record
  | .delete _ _, record => .removed record

end Errand

/-- The changes made are the one that the result tells of; a failure tells of none. -/
def Accounts (change : Record → Change) : Except StoreError Record → List Change → Prop
  | .ok record, made => made = [change record]
  | .error _, made => made = []

/-- The changes made are those that the result of a step stands for. -/
def Made {α : Type} (changes : α → List Change) (result : Except StoreError α)
    (made : List Change) : Prop :=
  made = (result.toOption.map changes).getD []

/-! ### What one client does -/

/-- Every way through the program leaves the records alone. -/
def Quiet {α : Type} (p : Program α) : Prop :=
  ∀ made, p.Ends Notes (fun _ made' => made' = made) made

section Quiet

theorem quiet_ask {α : Type} {c : Call} {next : c.Answer → Program α}
    (hc : ∀ answer, c.change? answer = none) (h : ∀ answer, Quiet (next answer)) :
    Quiet (.ask c next) := by
  intro made answer made' hm
  rw [Notes, hc answer, Option.toList_none, List.append_nil] at hm
  subst hm
  exact h answer _

theorem quiet_done {α : Type} (a : α) : Quiet (.done a) := fun _ => rfl

theorem Quiet.bind {α β ε : Type} {x : ExceptT ε Program α} {f : α → ExceptT ε Program β}
    (hx : Quiet x.run) (hf : ∀ a, Quiet (f a).run) : Quiet (x >>= f).run := by
  intro made
  refine Program.Ends.bind_except (hx made) (fun a made' hm => ?_) (fun e made' hm => hm)
  rw [hm]
  exact hf a made

theorem quiet_latest (name : AlgorithmName) : Quiet (latest name).run :=
  quiet_ask (fun _ => rfl) quiet_done

/-- Dropping texts never fails. -/
theorem ends_dropTexts (keys : List Artifact.Key) (made : List Change) :
    (dropTexts keys).run.Ends Notes (fun r made' => r = .ok () ∧ made' = made) made := by
  induction keys with
  | nil => exact ⟨rfl, rfl⟩
  | cons key keys ih =>
    refine Program.Ends.bind_except (P := fun r made' => (∃ a, r = .ok a) ∧ made' = made)
      (fun answer made' hm => ⟨⟨answer, rfl⟩, ?_⟩) (fun _ made' hm => ?_) (fun e made' hm => ?_)
    · exact hm.trans (List.append_nil made)
    · rw [hm.2]; exact ih
    · obtain ⟨⟨_, herr⟩, -⟩ := hm
      cases herr

theorem quiet_dropTexts (keys : List Artifact.Key) : Quiet (dropTexts keys).run :=
  fun made => (ends_dropTexts keys made).mono fun _ _ h => h.2

theorem quiet_writeScript (name : AlgorithmName) (version : Version) (role : Artifact.Role)
    (source : String) : Quiet (writeScript name version role source).run := by
  refine Quiet.bind (quiet_ask (fun _ => rfl) fun _ => quiet_done _) fun token => ?_
  refine Quiet.bind (quiet_ask (fun _ => rfl) quiet_done) fun _ => quiet_done _

theorem quiet_writePrivacy (draft : Draft) (version : Version) (main : TextRef) :
    Quiet (writePrivacy draft version main).run := by
  rw [writePrivacy]
  split
  · exact quiet_done _
  · next script _ =>
    intro made
    refine Program.Ends.catch_except
      (Quiet.bind (quiet_writeScript _ _ _ _) (fun _ => quiet_done _) made)
      (fun _ _ hm => hm) (fun e made' hm => ?_)
    rw [hm]
    exact Quiet.bind (quiet_dropTexts _) (fun _ => quiet_done _) made

end Quiet

/-- A record is published in full or not at all. -/
theorem ends_publish (draft : Draft) (expected : Option Version) :
    (publish draft expected).run.Ends Notes (Accounts .inserted) [] := by
  rw [publish]
  refine Program.Ends.bind_except (quiet_done _ []) (fun version made hm => ?_) (fun _ _ hm => hm)
  subst hm
  refine Program.Ends.bind_except (quiet_writeScript _ _ _ _ []) (fun main made hm => ?_)
    (fun _ _ hm => hm)
  subst hm
  refine Program.Ends.bind_except (quiet_writePrivacy _ _ _ []) (fun privacy made hm => ?_)
    (fun _ _ hm => hm)
  subst hm
  refine Program.Ends.bind_except (quiet_ask (fun _ => rfl) (fun _ => quiet_done _) [])
    (fun createdAt made hm => ?_) (fun _ _ hm => hm)
  subst hm
  -- the one call that can change the records
  let record : Record := ⟨draft.name, version, draft.description,
    ⟨main, draft.main.className, draft.main.reducer⟩, privacy, createdAt⟩
  refine Program.Ends.bind_except (P := Made fun _ : Unit => [.inserted record]) ?_
    (fun _ made hm => hm) (fun _ made hm => hm)
  refine Program.Ends.catch_except (P := Made fun _ : Unit => [.inserted record]) ?_
    (fun _ made hm => hm) (fun e made hm => ?_)
  · intro answer made hm
    rcases answer with e | ⟨⟩
    · exact hm
    · exact hm
  · rw [show made = [] from hm]
    -- whatever the failure, it is told on, and at most texts are dropped before
    dsimp only
    split
    · exact Program.Ends.bind_except (quiet_dropTexts _ []) (fun _ _ hm => hm) (fun _ _ hm => hm)
    · exact (rfl : ([] : List Change) = [])

theorem ends_updateOnce (draft : Draft) {again : StoreError → Operation Record}
    (hagain : ∀ e, (again e).run.Ends Notes (Accounts .inserted) []) :
    (updateOnce draft again).run.Ends Notes (Accounts .inserted) [] := by
  rw [updateOnce]
  refine Program.Ends.bind_except (quiet_latest _ []) (fun found made hm => ?_) (fun _ _ hm => hm)
  subst hm
  rcases found with - | latest
  · rfl
  · refine Program.Ends.catch_except (ends_publish draft _) (fun _ _ hm => hm) (fun e made hm => ?_)
    obtain rfl : made = [] := hm
    split
    · exact hagain _
    · rfl

theorem ends_updateRetrying (draft : Draft) (retries : Nat) :
    (updateRetrying draft retries).run.Ends Notes (Accounts .inserted) [] := by
  induction retries with
  | zero => exact ends_updateOnce draft fun _ => (rfl : ([] : List Change) = [])
  | succ left ih => exact ends_updateOnce draft fun _ => ih

theorem ends_create (draft : Draft) :
    (create draft).run.Ends Notes (Accounts .inserted) [] := by
  rw [create]
  refine Program.Ends.bind_except (quiet_latest _ []) (fun found made hm => ?_) (fun _ _ hm => hm)
  subst hm
  dsimp only
  split
  · exact (rfl : ([] : List Change) = [])
  · refine Program.Ends.catch_except (ends_publish draft none) (fun _ _ hm => hm)
      (fun e made hm => ?_)
    split
    · exact hm
    · exact hm

theorem ends_delete (name : AlgorithmName) (version : Option Version) :
    (delete name version).run.Ends Notes (Accounts .removed) [] := by
  rw [delete]
  refine Program.Ends.bind_except
    (P := Made fun found : Option Record => (found.map Change.removed).toList)
    (fun answer made hm => ?_) (fun found made hm => ?_) (fun _ _ hm => hm)
  · rcases answer with e | - | record
    · exact hm
    · exact hm
    · exact hm
  · rcases found with - | record
    · exact hm
    · obtain rfl : made = [.removed record] := hm
      refine Program.Ends.bind_except (ends_dropTexts _ _) (fun _ made' hm' => hm'.2)
        (fun e made' hm' => ?_)
      exact absurd hm'.1 (by simp)

/-- A client whose errand is over has made exactly the change it tells of. -/
theorem ends_program (errand : Errand) :
    errand.program.Ends Notes (Accounts errand.change) [] := by
  cases errand with
  | create draft => exact ends_create draft
  | update draft attempts => exact ends_updateRetrying draft (attempts - 1)
  | delete name version => exact ends_delete name version

/-! ### Many clients -/

/-- A client: its errand and what is left to do of it. -/
structure Client where
  errand : Errand
  rest : Program (Except StoreError Record)

/-- A change to the records, with the client who made it and the records before. -/
structure Event where
  client : Nat
  change : Change
  before : Catalog

/-- The records, the clients, and all that has happened to the records, the oldest
first. -/
structure World where
  records : Catalog
  clients : List Client
  history : List Event

/-- The records answer the calls about them; any other call may be answered in any
way and leaves the records alone. -/
def Catalog.Answers (c : Catalog) : (call : Call) → call.Answer → Catalog → Prop
  | .latest name, answer, c' => answer = .ok (c.latest? name) ∧ c' = c
  | .find name version, answer, c' => answer = .ok (c.find? name version) ∧ c' = c
  | .enroll record expected, answer, c' => (answer, c') = c.enroll record expected
  | .remove name version, answer, c' =>
    answer = .ok (c.remove name version).1 ∧ c' = (c.remove name version).2
  | .newest, answer, c' => answer = .ok c.newest ∧ c' = c
  | .writeText _ _, _, c' => c' = c
  | .readText _, _, c' => c' = c
  | .removeText _, _, c' => c' = c
  | .drawToken, _, c' => c' = c
  | .readClock, _, c' => c' = c

namespace World

/-- No records, and nobody there. -/
def start : World :=
  ⟨.empty, [], []⟩

/-- A new client comes. -/
def join (w : World) (errand : Errand) : World :=
  { w with clients := w.clients ++ [⟨errand, errand.program⟩] }

/-- The world after a call of a client. -/
def proceed (w : World) (i : Nat) (client : Client) (c : Call) (answer : c.Answer)
    (rest : Program (Except StoreError Record)) (records : Catalog) : World :=
  ⟨records, w.clients.set i { client with rest },
    w.history ++ (c.change? answer).toList.map fun change => ⟨i, change, w.records⟩⟩

/-- One step: somebody comes, or one client makes its next call. -/
inductive Step : World → World → Prop
  | join (w : World) (errand : Errand) : Step w (w.join errand)
  | call {w : World} {i : Nat} {client : Client} {c : Call}
      {next : c.Answer → Program (Except StoreError Record)} {answer : c.Answer}
      {records : Catalog} :
      w.clients[i]? = some client → client.rest = .ask c next →
      w.records.Answers c answer records →
      Step w (w.proceed i client c answer (next answer) records)

/-- The worlds that can come about, in any order of steps. -/
inductive Reachable : World → Prop
  | start : Reachable .start
  | step {w w' : World} : Reachable w → Step w w' → Reachable w'

/-- The changes that a client has made. -/
def changesBy (w : World) (i : Nat) : List Change :=
  (w.history.filter (·.client == i)).map (·.change)

/-- How many records have been inserted. -/
def insertions (w : World) : Nat :=
  w.history.countP fun e => match e.change with
    | .inserted _ => true
    | .removed _ => false

/-- How many records have been removed. -/
def removals (w : World) : Nat :=
  w.history.countP fun e => match e.change with
    | .inserted _ => false
    | .removed _ => true

end World

/-- An insert comes right behind the latest version, at a place that is free; a removed
record was there. -/
def Event.Lawful (e : Event) : Prop :=
  match e.change with
  | .inserted r => e.before.IsNext r ∧ e.before.find? r.name (some r.version) = none
  | .removed r => e.before.find? r.name (some r.version) = some r

/-- The version that follows has the next number. -/
theorem number_of_following {latest : Option Version} {v : Version}
    (h : Version.following latest = .ok v) : v.number = (latest.map Version.number).getD 0 + 1 := by
  rcases latest with - | last
  · obtain rfl := Except.ok.inj h
    rfl
  · rw [Version.following, Version.next] at h
    split at h
    · exact (congrArg Version.number (Except.ok.inj h)).symm
    · cases h

namespace World

/-- The invariant of all steps. -/
structure Sound (w : World) : Prop where
  catalog : w.records.Sound
  lawful : ∀ e ∈ w.history, e.Lawful
  counted : w.records.size + w.removals = w.insertions
  present : ∀ e ∈ w.history, e.client < w.clients.length
  clients : ∀ (i : Nat) (client : Client), w.clients[i]? = some client →
    client.rest.Ends Notes (Accounts client.errand.change) (w.changesBy i)

theorem sound_start : start.Sound where
  catalog := Catalog.sound_empty
  lawful _ h := by cases h
  counted := rfl
  present _ h := by cases h
  clients _ _ h := by cases h

/-- One who has just come has changed nothing. -/
theorem Sound.join {w : World} (h : w.Sound) (errand : Errand) : (w.join errand).Sound where
  catalog := h.catalog
  lawful := h.lawful
  counted := h.counted
  present e he := by
    rw [World.join, List.length_append]
    exact Nat.lt_add_right _ (h.present e he)
  clients i client hi := by
    rw [World.join, List.getElem?_append] at hi
    split at hi
    · exact h.clients i client hi
    · next hge =>
      -- the history tells only of clients who were there before
      have hnone : w.changesBy i = [] := by
        rw [changesBy, List.map_eq_nil_iff, List.filter_eq_nil_iff]
        intro e he heq
        exact hge (by rw [← eq_of_beq heq]; exact h.present e he)
      obtain rfl : client = ⟨errand, errand.program⟩ := by
        rw [List.getElem?_singleton] at hi
        split at hi
        · exact (Option.some.inj hi).symm
        · cases hi
      show errand.program.Ends Notes (Accounts errand.change) (w.changesBy i)
      rw [hnone]
      exact ends_program errand

/-- What a call does to the records, by the change that it makes. -/
theorem records_of_answers {c c' : Catalog} (h : c.Sound) {call : Call} {answer : call.Answer}
    (ha : c.Answers call answer c') :
    (call.change? answer = none ∧ c' = c) ∨
    (∃ r, call.change? answer = some (.inserted r) ∧ c.IsNext r ∧ c' = c.add r) ∨
    (∃ r, call.change? answer = some (.removed r) ∧ c.find? r.name (some r.version) = some r ∧
      c' = c.drop r.name r.version) := by
  cases call with
  | enroll r expected =>
    have ha : (answer, c') = c.enroll r expected := ha
    obtain ⟨-, hnext, heq⟩ | ⟨-, heq⟩ := h.enroll_cases r expected
    · rw [heq] at ha
      cases ha
      exact Or.inr (Or.inl ⟨r, rfl, hnext, rfl⟩)
    · rw [heq] at ha
      cases ha
      exact Or.inl ⟨rfl, rfl⟩
  | remove name version =>
    obtain ⟨ha, hc⟩ : answer = .ok (c.remove name version).1 ∧ c' = (c.remove name version).2 := ha
    obtain ⟨-, heq⟩ | ⟨r, hfind, hname, heq⟩ := h.remove_cases name version
    · rw [heq] at ha hc
      subst ha
      exact Or.inl ⟨rfl, hc⟩
    · rw [heq] at ha hc
      subst ha
      subst hname
      exact Or.inr (Or.inr ⟨r, rfl, (h.labelled hfind).2, hc⟩)
  | latest name => exact Or.inl ⟨rfl, ha.2⟩
  | find name version => exact Or.inl ⟨rfl, ha.2⟩
  | newest => exact Or.inl ⟨rfl, ha.2⟩
  | writeText key text => exact Or.inl ⟨rfl, ha⟩
  | readText key => exact Or.inl ⟨rfl, ha⟩
  | removeText key => exact Or.inl ⟨rfl, ha⟩
  | drawToken => exact Or.inl ⟨rfl, ha⟩
  | readClock => exact Or.inl ⟨rfl, ha⟩

section Proceed

variable {w : World} {i : Nat} {client : Client} {c : Call} {answer : c.Answer}
  {rest : Program (Except StoreError Record)} {records : Catalog}

theorem changesBy_proceed_self :
    (w.proceed i client c answer rest records).changesBy i
      = w.changesBy i ++ (c.change? answer).toList := by
  rw [changesBy, proceed, changesBy, List.filter_append, List.map_append]
  congr 1
  rcases c.change? answer with - | change <;> simp

theorem changesBy_proceed_ne {j : Nat} (hj : j ≠ i) :
    (w.proceed i client c answer rest records).changesBy j = w.changesBy j := by
  rw [changesBy, proceed, changesBy, List.filter_append, List.map_append]
  rcases c.change? answer with - | change
  · simp
  · simp [Ne.symm hj]

theorem history_proceed_none (hc : c.change? answer = none) :
    (w.proceed i client c answer rest records).history = w.history := by
  rw [proceed, hc]
  exact List.append_nil w.history

theorem history_proceed_some {change : Change} (hc : c.change? answer = some change) :
    (w.proceed i client c answer rest records).history
      = w.history ++ [⟨i, change, w.records⟩] := by
  rw [proceed, hc]
  rfl

/-- What a call does to the records and to the history, whoever makes it. -/
theorem Sound.records_proceed (h : w.Sound) (ha : w.records.Answers c answer records) :
    records.Sound ∧
      (∀ e ∈ (w.proceed i client c answer rest records).history, e.Lawful) ∧
      records.size + (w.proceed i client c answer rest records).removals
        = (w.proceed i client c answer rest records).insertions := by
  have hcount := h.counted
  rw [removals, insertions] at *
  obtain ⟨hc, rfl⟩ | ⟨r, hc, hnext, rfl⟩ | ⟨r, hc, hfind, rfl⟩ :=
    records_of_answers h.catalog ha
  · rw [history_proceed_none hc]
    exact ⟨h.catalog, h.lawful, hcount⟩
  · -- an insert comes right behind the latest version, where nothing stands
    rw [history_proceed_some hc]
    refine ⟨h.catalog.add hnext, fun e he => ?_, ?_⟩
    · rcases List.mem_append.mp he with he | he
      · exact h.lawful e he
      · rw [List.mem_singleton.mp he]
        exact ⟨hnext, h.catalog.find?_following hnext⟩
    · rw [Catalog.size_add h.catalog, List.countP_append, List.countP_append]
      simp only [List.countP_singleton, Bool.false_eq_true, if_true, if_false]
      omega
  · -- a removal takes out a record that is there
    rw [history_proceed_some hc]
    refine ⟨h.catalog.drop r.name r.version, fun e he => ?_, ?_⟩
    · rcases List.mem_append.mp he with he | he
      · exact h.lawful e he
      · rw [List.mem_singleton.mp he]
        exact hfind
    · have hsize := Catalog.size_drop h.catalog hfind
      rw [List.countP_append, List.countP_append]
      simp only [List.countP_singleton, Bool.false_eq_true, if_true, if_false]
      omega

/-- A call keeps the invariant, whoever makes it. -/
theorem Sound.proceed (h : w.Sound) (hi : w.clients[i]? = some client)
    {next : c.Answer → Program (Except StoreError Record)} (hrest : client.rest = .ask c next)
    (ha : w.records.Answers c answer records) :
    (w.proceed i client c answer (next answer) records).Sound := by
  have hends : client.rest.Ends Notes (Accounts client.errand.change) (w.changesBy i) :=
    h.clients i client hi
  rw [hrest] at hends
  have hlen : i < w.clients.length := (List.getElem?_eq_some_iff.mp hi).1
  obtain ⟨hcatalog, hlawful, hcounted⟩ := h.records_proceed ha
  refine ⟨hcatalog, hlawful, hcounted, fun e he => ?_, fun j client' hj => ?_⟩
  · rw [World.proceed, List.length_set]
    rcases List.mem_append.mp he with he | he
    · exact h.present e he
    · obtain ⟨change, -, rfl⟩ := List.mem_map.mp he
      exact hlen
  · rw [World.proceed, List.getElem?_set] at hj
    by_cases hij : i = j
    · -- the client has one call less to make, and its change is noted
      subst hij
      rw [if_pos rfl, if_pos hlen] at hj
      obtain rfl := Option.some.inj hj
      rw [changesBy_proceed_self]
      exact hends answer _ rfl
    · -- the others have neither moved nor changed anything
      rw [if_neg hij] at hj
      rw [changesBy_proceed_ne (Ne.symm hij)]
      exact h.clients j client' hj

end Proceed

theorem Reachable.sound {w : World} (h : w.Reachable) : w.Sound := by
  induction h with
  | start => exact sound_start
  | step _ hstep ih =>
    cases hstep with
    | join errand => exact ih.join errand
    | call hi hrest ha => exact ih.proceed hi hrest ha

/-! ### Clients of one backend -/

/-- A backend is one of those who may answer. -/
theorem answers_answer (b : Backend) (c : Call) :
    b.records.Answers c (b.answer c).1 (b.answer c).2.records := by
  cases c with
  | latest name => exact ⟨rfl, rfl⟩
  | find name version => exact ⟨rfl, rfl⟩
  | enroll record expected => rfl
  | remove name version => exact ⟨rfl, rfl⟩
  | newest => exact ⟨rfl, rfl⟩
  | writeText key text => rfl
  | readText key => rfl
  | removeText key => rfl
  | drawToken => rfl
  | readClock => rfl

/-- A move in a play: a new errand, or the next call of a client. -/
inductive Move
  | join (errand : Errand)
  | turn (i : Nat)

/-- The world and the backend after a move; a client that is done does nothing more. -/
def move (w : World) (b : Backend) : Move → World × Backend
  | .join errand => (w.join errand, b)
  | .turn i =>
    match w.clients[i]? with
    | none => (w, b)
    | some client =>
      match client.rest with
      | .done _ => (w, b)
      | .ask c next =>
        (w.proceed i client c (b.answer c).1 (next (b.answer c).1) (b.answer c).2.records,
          (b.answer c).2)

/-- The world after moves of clients of one backend. -/
def play (w : World) (b : Backend) : List Move → World
  | [] => w
  | m :: ms => (w.move b m).1.play (w.move b m).2 ms

theorem Reachable.move {w : World} {b : Backend} (h : w.Reachable) (hb : b.records = w.records)
    (m : Move) : (w.move b m).1.Reachable ∧ (w.move b m).2.records = (w.move b m).1.records := by
  cases m with
  | join errand => exact ⟨.step h (.join w errand), hb⟩
  | turn i =>
    rw [World.move]
    rcases hi : w.clients[i]? with - | client
    · exact ⟨h, hb⟩
    · rcases hrest : client.rest with r | ⟨c, next⟩
      · exact ⟨by simpa [hrest] using h, by simpa [hrest] using hb⟩
      · simp only [hrest]
        refine ⟨.step h (.call hi hrest ?_), rfl⟩
        rw [← hb]
        exact answers_answer b c

/-- Clients of one backend are a case of all this, in any order of their calls. -/
theorem reachable_play (tokens : Nat → Artifact.Token) (now : Time.Moment) (root : Root)
    (moves : List Move) : (start.play (.fresh tokens now root) moves).Reachable := by
  suffices hplay : ∀ (w : World) (b : Backend), w.Reachable → b.records = w.records →
      (w.play b moves).Reachable from hplay _ _ .start rfl
  induction moves with
  | nil => exact fun w b h _ => h
  | cons m ms ih => exact fun w b h hb => ih _ _ (h.move hb m).1 (h.move hb m).2

/-! ### All changes are accounted for -/

/-- **Whatever the order of calls, all changes are accounted for.**  Every insert found
its place free and took the number one above the latest of its name, or one; a client
that is done has made exactly the change that its result tells of, and none if it
failed; and the number of records is that of inserts less that of removals. -/
theorem Reachable.changes_accounted {w : World} (h : w.Reachable) :
    (∀ e ∈ w.history, ∀ r, e.change = .inserted r →
      e.before.find? r.name (some r.version) = none ∧
      r.version.number = ((e.before.latest? r.name).map Version.number).getD 0 + 1) ∧
    (∀ (i : Nat) (client : Client) (r : Record), w.clients[i]? = some client →
      client.rest = .done (.ok r) → w.changesBy i = [client.errand.change r]) ∧
    (∀ (i : Nat) (client : Client) (error : StoreError), w.clients[i]? = some client →
      client.rest = .done (.error error) → w.changesBy i = []) ∧
    w.records.size + w.removals = w.insertions := by
  have hw := h.sound
  refine ⟨fun e he r hr => ?_, fun i client r hi hdone => ?_, fun i client error hi hdone => ?_,
    hw.counted⟩
  · have hlaw := hw.lawful e he
    rw [Event.Lawful, hr] at hlaw
    exact ⟨hlaw.2, number_of_following hlaw.1⟩
  · have hends := hw.clients i client hi
    rw [hdone] at hends
    exact hends
  · have hends := hw.clients i client hi
    rw [hdone] at hends
    exact hends

/-- Two clients have asked for the latest version before either of them inserts. -/
def lostRace : World :=
  let draft : Draft := ⟨⟨"mean", by decide⟩, "A mean.", ⟨"pass", "Mean", .sum⟩, none⟩
  start.play (.fresh Artifact.Token.ofNat .epoch)
    [.join (.create draft), .join (.create draft), .turn 0, .turn 1,
      .turn 0, .turn 0, .turn 0, .turn 0, .turn 1, .turn 1, .turn 1, .turn 1, .turn 1]

/-- The one who comes second is told that the name is taken, and has changed nothing. -/
theorem changes_accounted_lostRace :
    lostRace.Reachable ∧
    (∃ client name, lostRace.clients[1]? = some client ∧
      client.rest = .done (.error (.alreadyExists name))) ∧
    lostRace.changesBy 1 = [] ∧ lostRace.insertions = 1 ∧
    lostRace.records.size + lostRace.removals = lostRace.insertions := by
  have h : lostRace.Reachable := reachable_play _ _ _ _
  have hlost := Reachable.changes_accounted h
  exact ⟨h, ⟨_, _, rfl, rfl⟩, hlost.2.2.1 1 _ _ rfl rfl, by decide, hlost.2.2.2⟩

end World

end ScriptRegistry.Store
