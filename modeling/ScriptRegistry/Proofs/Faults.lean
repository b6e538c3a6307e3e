/-
ScriptRegistry/Proofs/Faults.lean

No stored record dangles, whatever fails and whatever the order of calls.

A scene is a depot with the clients at work and their logs.  A script tells, move by
move, who comes or whose call is next, and all that chance decides about the call;
`Scene.play` runs it.  Every script is a run, and so is every interleaving of calls.

A scene is sound if the depot and the logs are as in `Kept`, and what is left of every
client's program still abides by what the client may do.  Each move keeps a scene
sound; the rest is read off from where a failed client has ended.

Main result: `Scene.play_never_dangles`.
-/
import ScriptRegistry.Proofs.Keeping

namespace ScriptRegistry.Store

open Artifact
open Program (Abides)

/-! ### Scenes -/

/-- A client at work: its errand, what is left to do of it, and what it has done. -/
structure Agent where
  errand : Errand
  rest : Program (Except StoreError Record)
  log : List Deed

/-- A depot and its clients. -/
structure Scene where
  depot : Depot
  agents : List Agent

namespace Scene

/-- Nothing is stored, and nobody there. -/
def start : Scene :=
  ⟨.empty, []⟩

/-- A move in a script: a new errand, or the next call of a client with its chances. -/
inductive Move
  | join (errand : Errand)
  | call (i : Nat) (luck : Luck)

/-- The scene after a call was answered. -/
def proceed (s : Scene) (i : Nat) (agent : Agent) (c : Call) (answer : c.Answer)
    (change : Option Change) (rest : Program (Except StoreError Record)) (depot : Depot) : Scene :=
  ⟨depot, s.agents.set i ⟨agent.errand, rest, agent.log ++ [⟨c, answer, change⟩]⟩⟩

/-- The scene after a move; nothing happens where nobody is left to call, and where chance
cannot decide so. -/
def move (s : Scene) : Move → Scene
  | .join errand => { s with agents := s.agents ++ [⟨errand, errand.program, []⟩] }
  | .call i luck =>
    match s.agents[i]? with
    | none => s
    | some agent =>
      match agent.rest with
      | .done _ => s
      | .ask c next =>
        match s.depot.answer? luck c with
        | none => s
        | some (answer, change, depot) => s.proceed i agent c answer change (next answer) depot

/-- The scene after a script. -/
def play (s : Scene) (script : List Move) : Scene :=
  script.foldl move s

/-- The logs of all clients; who has not come has done nothing. -/
def logs (s : Scene) : Logs := fun i =>
  (s.agents[i]?.map (·.log)).getD []

/-! ### Soundness -/

/-- The invariant of all moves. -/
structure Sound (s : Scene) : Prop where
  kept : Kept s.depot s.logs
  abides : ∀ (i : Nat) (agent : Agent), s.agents[i]? = some agent →
    agent.rest.Abides Permits Logged agent.errand.Kept agent.log

theorem sound_start : start.Sound :=
  ⟨kept_empty, fun _ _ h => by cases h⟩

variable {s : Scene}

theorem logs_eq {i : Nat} {agent : Agent} (hi : s.agents[i]? = some agent) :
    s.logs i = agent.log := by
  rw [logs, hi]
  rfl

theorem Sound.join (h : s.Sound) (errand : Errand) : (s.move (.join errand)).Sound := by
  have hlogs : (s.move (.join errand)).logs = s.logs := by
    funext i
    rw [logs, logs, move, List.getElem?_append]
    split
    · rfl
    · next hi =>
      rw [List.getElem?_eq_none (Nat.le_of_not_lt hi)]
      rcases i - s.agents.length with - | k
      · rfl
      · rfl
  refine ⟨by rw [hlogs]; exact h.kept, fun i agent hi => ?_⟩
  rw [move, List.getElem?_append] at hi
  split at hi
  · exact h.abides i agent hi
  · obtain rfl := List.mem_singleton.mp (List.mem_of_getElem? hi)
    exact abides_program errand

section Proceed

variable {i : Nat} {agent : Agent} {c : Call} {next : c.Answer → Program (Except StoreError Record)}
  {answer : c.Answer} {change : Option Change} {d : Depot}

theorem logs_proceed (hi : s.agents[i]? = some agent) :
    (s.proceed i agent c answer change (next answer) d).logs
      = s.logs.extend i ⟨c, answer, change⟩ := by
  funext j
  rw [logs, proceed]
  by_cases hj : j = i
  · rw [hj, extend_self, logs_eq hi, List.getElem?_set_self (List.getElem?_eq_some_iff.mp hi).1]
    rfl
  · rw [extend_other _ _ hj, List.getElem?_set_ne (Ne.symm hj)]
    rfl

theorem Sound.proceed (h : s.Sound) (hi : s.agents[i]? = some agent)
    (hrest : agent.rest = .ask c next) (ha : s.depot.Answers c answer change d) :
    (s.proceed i agent c answer change (next answer) d).Sound := by
  have hstep := h.abides i agent hi
  rw [hrest] at hstep
  refine ⟨?_, fun j agent' hj => ?_⟩
  · rw [logs_proceed hi]
    exact h.kept.call (by rw [logs_eq hi]; exact hstep.1) ha
  · rw [Scene.proceed, List.getElem?_set] at hj
    split at hj
    · split at hj
      · cases hj
        exact hstep.2 answer _ ⟨s.depot, d, change, h.kept.catalog, ha, rfl⟩
      · cases hj
    · exact h.abides j agent' hj

end Proceed

theorem Sound.move (h : s.Sound) (m : Move) : (s.move m).Sound := by
  cases m with
  | join errand => exact h.join errand
  | call i luck =>
    rw [Scene.move]
    rcases hi : s.agents[i]? with - | agent
    · exact h
    · rcases hrest : agent.rest with result | ⟨c, next⟩
      · simpa only [hrest] using h
      · simp only [hrest]
        rcases ha : s.depot.answer? luck c with - | ⟨answer, change, d⟩
        · exact h
        · exact h.proceed hi hrest ⟨luck, ha⟩

theorem sound_play (script : List Move) : (start.play script).Sound := by
  induction script using List.reverseRecOn with
  | nil => exact sound_start
  | append_singleton script m ih =>
    rw [play, List.foldl_append]
    exact ih.move m

end Scene

/-! ### Clients that have failed -/

/-- The last call was an insert that failed as input and output do, and with just the error
that is told. -/
def LostInsert (e : StoreError) (record : Record) (change : Option Change) (log : List Deed) :
    Prop :=
  e.isIo = true ∧ ∃ earlier expected, log = earlier ++ [⟨.enroll record expected, .error e, change⟩]

/-- Whether a call is there to store something. -/
def Call.isStoring : Call → Bool
  | .writeText _ _ => true
  | .enroll _ _ => true
  | .remove _ _ => false
  | .latest _ => false
  | .find _ _ => false
  | .newest => false
  | .readText _ => false
  | .removeText _ => false
  | .drawToken => false
  | .readClock => false

/-- The last call that was there to store something. -/
def lastStoring? (log : List Deed) : Option Deed :=
  (log.filter (·.call.isStoring)).getLast?

/-- A text was not written, or an insert came too late. -/
def Deed.IsSetback : Deed → Prop
  | ⟨.writeText _ _, .error _, _⟩ => True
  | ⟨.enroll _ _, .error (.versionConflict _ _ _), _⟩ => True
  | _ => False

/-- What has come of a client that was to store a draft and is told of an error. -/
structure Failed (d : Depot) (e : StoreError) (log : List Deed) : Prop where
  /-- It has changed nothing, unless it was not told of an insert that was done. -/
  unchanged : changes log = [] ∨
    ∃ record, changes log = [.inserted record] ∧ LostInsert e record (some (.inserted record)) log
  /-- The texts that it wrote are gone, but for those whose removal failed, and for those of a
  record whose insert may have been done. -/
  cleared : ∀ key ∈ written log, d.texts key = none ∨ Stuck log key ∨
    ∃ record change, LostInsert e record change log ∧ key ∈ record.keys
  /-- No record may be there where a text was not written, or another came first. -/
  withdrawn : ∀ deed, lastStoring? log = some deed → deed.IsSetback →
    ∀ key ∈ written log, d.texts key = none ∨ Stuck log key

section Failed

variable {log : List Deed} {refs : List TextRef} {d : Depot} {e : StoreError}

theorem Idle.unchanged (h : Idle log refs) : changes log = [] :=
  List.filterMap_eq_nil_iff.mpr fun deed hdeed => (h.clean deed hdeed).1

theorem Idle.not_entrusted (h : Idle log refs) (key : Key) : ¬ Entrusted log key := by
  rintro ⟨deed, hdeed, r, hgiven, -⟩
  rw [(h.clean deed hdeed).2] at hgiven
  cases hgiven

theorem Idle.failed (h : Idle log []) (hleft : ∀ key ∈ written log, Accounted d log key) :
    Failed d e log := by
  have hgone : ∀ key ∈ written log, d.texts key = none ∨ Stuck log key := by
    intro key hkey
    rcases hleft key hkey with ⟨ref, href, -⟩ | hgone | hstuck | hgiven
    · rw [h.held] at href
      cases href
    · exact Or.inl hgone
    · exact Or.inr hstuck
    · exact absurd hgiven (h.not_entrusted key)
  exact ⟨Or.inl h.unchanged, fun key hkey => (hgone key hkey).imp_right Or.inl, fun _ _ _ => hgone⟩

/-- An insert that was lost was no setback. -/
theorem LostInsert.not_isSetback {record : Record} {change : Option Change}
    (h : LostInsert e record change log) {deed : Deed} (hlast : lastStoring? log = some deed) :
    ¬ deed.IsSetback := by
  obtain ⟨hio, earlier, expected, rfl⟩ := h
  have hdeed : deed = ⟨.enroll record expected, .error e, change⟩ := by
    rw [lastStoring?, List.filter_append,
      show ([⟨.enroll record expected, .error e, change⟩] : List Deed).filter
        (·.call.isStoring) = [⟨.enroll record expected, .error e, change⟩] from rfl,
      List.getLast?_concat] at hlast
    exact (Option.some.inj hlast).symm
  rw [hdeed]
  cases e with
  | versionConflict name expected actual => cases hio
  | _ => exact fun h => h

theorem CutShort.failed (h : CutShort e log) (hleft : ∀ key ∈ written log, Accounted d log key) :
    Failed d e log := by
  obtain ⟨earlier, record, expected, change, rfl, hio, hchange, hidle⟩ := h
  have hlost : LostInsert e record change
      (earlier ++ [⟨.enroll record expected, .error e, change⟩]) := ⟨hio, earlier, expected, rfl⟩
  have hchanges : changes (earlier ++ [⟨.enroll record expected, .error e, change⟩])
      = change.toList := by
    rw [changes, List.filterMap_append, ← changes, hidle.unchanged]
    rcases change with - | change
    · rfl
    · rfl
  refine ⟨?_, fun key hkey => ?_,
    fun deed hlast hsetback => absurd hsetback (hlost.not_isSetback hlast)⟩
  · rcases hchange with rfl | rfl
    · exact Or.inl hchanges
    · exact Or.inr ⟨record, hchanges, hlost⟩
  · rcases hleft key hkey with ⟨ref, href, -⟩ | hgone | hstuck | ⟨deed, hdeed, r, hgiven, hmem⟩
    · rw [hand_entrusted (entrusted_of_isIo hio)] at href
      cases href
    · exact Or.inl hgone
    · exact Or.inr (Or.inl hstuck)
    · refine Or.inr (Or.inr ⟨record, change, hlost, ?_⟩)
      rcases List.mem_append.mp hdeed with hdeed | hdeed
      · exact absurd ⟨deed, hdeed, r, hgiven, hmem⟩ (hidle.not_entrusted key)
      · obtain rfl := List.mem_singleton.mp hdeed
        rw [entrusted_of_isIo hio] at hgiven
        cases hgiven
        exact hmem

end Failed

namespace Scene

/-- **No stored record dangles**, whatever fails and in whatever order the clients call: each
text that a stored record refers to is there, and it is the one that the digest was made of.
A client that was to store a draft and failed has changed no records, unless its insert
was done and failed nevertheless; its texts are gone, but for those that it could not
remove, and for those that a record may refer to, which is not the case if a text was not
written, or another came first. -/
theorem play_never_dangles (script : List Move) :
    (∀ r, (start.play script).depot.records.Stored r →
      ∀ ref ∈ r.refs, (start.play script).depot.Stands ref) ∧
    ∀ (i : Nat) (agent : Agent) (e : StoreError), (start.play script).agents[i]? = some agent →
      agent.errand.draft?.isSome = true → agent.rest = .done (.error e) →
      Failed (start.play script).depot e agent.log := by
  have h := sound_play script
  refine ⟨fun r hr => h.kept.stored r (h.kept.catalog.find?_of_stored hr),
    fun i agent e hi hdraft hdone => ?_⟩
  have hends := h.abides i agent hi
  rw [hdone] at hends
  have hleft := h.kept.left i
  rw [logs_eq hi] at hleft
  rcases hends hdraft with hidle | hcut
  · exact hidle.failed hleft
  · exact hcut.failed hleft

/-- The next token, and no fault. -/
def calm (n : Nat) : Luck :=
  ⟨.ofNat n, .epoch, none⟩

/-- An insert is done, but the client is told that it was interrupted. -/
def unheard : List Move :=
  let draft : Draft := ⟨⟨"median", by decide⟩, "A median.", ⟨"pass", "Median", .sum⟩, none⟩
  [.join (.create draft), .call 0 (calm 0), .call 0 (calm 0), .call 0 (calm 0), .call 0 (calm 0),
    .call 0 { calm 0 with fault := some (.after (.interrupted "reset")) }]

/-- The record is stored, and its text is there. -/
theorem play_never_dangles_unheard :
    ∃ (r : Record) (agent : Agent) (e : StoreError),
      (start.play unheard).depot.records.Stored r ∧
      (∀ ref ∈ r.refs, (start.play unheard).depot.Stands ref) ∧
      (start.play unheard).agents[0]? = some agent ∧ agent.rest = .done (.error e) ∧
      changes agent.log = [.inserted r] ∧ Failed (start.play unheard).depot e agent.log := by
  have h := play_never_dangles unheard
  have hr : (start.play unheard).depot.records.Stored _ :=
    ⟨_, List.mem_cons_self, _, List.mem_cons_self⟩
  exact ⟨_, _, _, hr, h.1 _ hr, rfl, rfl, rfl, h.2 0 _ _ rfl rfl rfl⟩

end Scene

end ScriptRegistry.Store
