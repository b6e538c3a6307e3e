/-
ScriptRegistry/Proofs/Depot.lean

Records and texts behind calls that may fail.

A depot keeps the catalog of records and texts that are written once.  Chance
decides how a call goes: a call about texts may fail with any error and without
an effect; a call about records may fail as input and output do, and one that
changes the records does so before or after the change.  `Depot.answer?` computes
the answer and what comes of it, so that a script of chances is a run.

What a call can do is said once, in a lemma for each kind of call; everything else
is derived from these.
-/
import Mathlib.Logic.Function.Basic
import ScriptRegistry.Proofs.Interleaving
import ScriptRegistry.Store.Disturbance

namespace ScriptRegistry

open Artifact

/-- The references to the texts of a record, the main one first. -/
def Record.refs (r : Record) : List TextRef :=
  r.main.artifact :: (r.privacy.map (·.artifact)).toList

theorem Record.keys_eq (r : Record) : r.keys = r.refs.map (·.key) := by
  rw [Record.keys, Record.refs]
  rcases r.privacy with - | p <;> rfl

/-- Whether an error is one of input and output. -/
def StoreError.isIo : StoreError → Bool
  | .file _ => true
  | .interrupted _ => true
  | .notFound _ => false
  | .versionNotFound _ _ => false
  | .alreadyExists _ => false
  | .versionConflict _ _ _ => false
  | .artifactNotFound _ => false
  | .escapesRoot _ => false
  | .digestMismatch _ => false
  | .input _ => false

namespace Store

/-- Whether a call is about records. -/
def Call.isOfRecords : Call → Bool
  | .latest _ => true
  | .find _ _ => true
  | .enroll _ _ => true
  | .remove _ _ => true
  | .newest => true
  | .writeText _ _ => false
  | .readText _ => false
  | .removeText _ => false
  | .drawToken => false
  | .readClock => false

/-- Whether a call is there to change records. -/
def Call.isChange : Call → Bool
  | .enroll _ _ => true
  | .remove _ _ => true
  | .latest _ => false
  | .find _ _ => false
  | .newest => false
  | .writeText _ _ => false
  | .readText _ => false
  | .removeText _ => false
  | .drawToken => false
  | .readClock => false

/-- The records after a change. -/
def Catalog.changed (c : Catalog) : Option Change → Catalog
  | none => c
  | some (.inserted r) => c.add r
  | some (.removed r) => c.drop r.name r.version

/-- Records, texts that are written once, and the tokens drawn so far. -/
structure Depot where
  records : Catalog
  texts : Key → Option String
  drawn : List Token

/-- How a call fails: before it has done anything, or after. -/
inductive Fault
  | before (e : StoreError)
  | after (e : StoreError)

/-- What chance decides about a call: the token that is drawn, the time, and a fault. -/
structure Luck where
  token : Token
  now : Time.Moment
  fault : Option Fault

namespace Depot

/-- Nothing is kept. -/
def empty : Depot :=
  ⟨.empty, fun _ => none, []⟩

/-- Answers a call without a fault. -/
def serve (d : Depot) (token : Token) (now : Time.Moment) : (c : Call) → c.Answer × Depot
  | .latest name => (.ok (d.records.latest? name), d)
  | .find name version => (.ok (d.records.find? name version), d)
  | .enroll record expected =>
    ((d.records.enroll record expected).1,
      { d with records := (d.records.enroll record expected).2 })
  | .remove name version =>
    (.ok (d.records.remove name version).1,
      { d with records := (d.records.remove name version).2 })
  | .newest => (.ok d.records.newest, d)
  | .writeText key text => match d.texts key with
    | none => (.ok (), { d with texts := Function.update d.texts key (some text) })
    | some _ => (.error (.file .taken), d)
  | .readText key => match d.texts key with
    | none => (.error (.artifactNotFound key), d)
    | some text => (.ok text, d)
  | .removeText key => match d.texts key with
    | none => (.error (.artifactNotFound key), d)
    | some _ => (.ok (), { d with texts := Function.update d.texts key none })
  | .drawToken => (token, { d with drawn := token :: d.drawn })
  | .readClock => (now, d)

/-- The answer to a call, the change that was made, and what is left; none if chance cannot
decide so, as no token is drawn twice. -/
def answer? (d : Depot) (luck : Luck) (c : Call) : Option (c.Answer × Option Change × Depot) :=
  let (answer, after) := d.serve luck.token luck.now c
  match luck.fault with
  | none =>
    if c = .drawToken ∧ luck.token ∈ d.drawn then none
    else some (answer, c.change? answer, after)
  | some (.before e) =>
    if c.isOfRecords ∧ e.isIo = false then none
    else (c.failure? e).map fun failure => (failure, none, d)
  | some (.after e) =>
    if c.isChange ∧ e.isIo then (c.failure? e).map fun failure => (failure, c.change? answer, after)
    else none

/-- A call may be answered so. -/
def Answers (d : Depot) (c : Call) (answer : c.Answer) (change : Option Change) (after : Depot) :
    Prop :=
  ∃ luck, d.answer? luck c = some (answer, change, after)

variable {d d' : Depot} {change : Option Change}

/-! ### What a call can do -/

/-- A call that neither draws, writes, removes nor changes anything. -/
def IsStill : Call → Prop
  | .latest _ => True
  | .find _ _ => True
  | .newest => True
  | .readText _ => True
  | .readClock => True
  | .enroll _ _ => False
  | .remove _ _ => False
  | .writeText _ _ => False
  | .removeText _ => False
  | .drawToken => False

/-- The three ways in which a call can go. -/
theorem Answers.ways {c : Call} {answer : c.Answer} (h : d.Answers c answer change d') :
    (∃ token now, (c = .drawToken → token ∉ d.drawn) ∧ d.serve token now c = (answer, d') ∧
      change = c.change? answer) ∨
    (∃ e, (c.isOfRecords = true → e.isIo = true) ∧ c.failure? e = some answer ∧ change = none ∧
      d' = d) ∨
    ∃ e token now, c.isChange = true ∧ e.isIo = true ∧ c.failure? e = some answer ∧
      change = c.change? (d.serve token now c).1 ∧ d' = (d.serve token now c).2 := by
  obtain ⟨⟨token, now, fault⟩, h⟩ := h
  rcases fault with - | e | e
  · simp only [answer?] at h
    split at h
    · cases h
    · next hfresh =>
      cases h
      exact Or.inl ⟨token, now, fun hdraw htaken => hfresh ⟨hdraw, htaken⟩, rfl, rfl⟩
  · simp only [answer?] at h
    split at h
    · cases h
    · next hio =>
      obtain ⟨failure, hfailure, heq⟩ := Option.map_eq_some_iff.mp h
      cases heq
      refine Or.inr (Or.inl ⟨e, fun hrecords => ?_, hfailure, rfl, rfl⟩)
      exact Bool.of_not_eq_false fun hfalse => hio ⟨hrecords, hfalse⟩
  · simp only [answer?] at h
    split at h
    · next hchange =>
      obtain ⟨failure, hfailure, heq⟩ := Option.map_eq_some_iff.mp h
      cases heq
      exact Or.inr (Or.inr ⟨e, token, now, hchange.1, hchange.2, hfailure, rfl, rfl⟩)
    · cases h

theorem Answers.still {c : Call} {answer : c.Answer} (h : d.Answers c answer change d')
    (hc : IsStill c) : change = none ∧ d' = d := by
  rcases h.ways with ⟨token, now, -, hserve, rfl⟩ | ⟨e, -, -, rfl, rfl⟩ |
    ⟨e, token, now, hchange, -⟩
  · cases c with
    | latest name => cases hserve; exact ⟨rfl, rfl⟩
    | find name version => cases hserve; exact ⟨rfl, rfl⟩
    | newest => cases hserve; exact ⟨rfl, rfl⟩
    | readClock => cases hserve; exact ⟨rfl, rfl⟩
    | readText key =>
      rw [serve] at hserve
      split at hserve
      · cases hserve; exact ⟨rfl, rfl⟩
      · cases hserve; exact ⟨rfl, rfl⟩
    | _ => cases hc
  · exact ⟨rfl, rfl⟩
  · cases c with
    | enroll record expected => cases hc
    | remove name version => cases hc
    | _ => cases hchange

theorem Answers.drawToken {token : Token} (h : d.Answers .drawToken token change d') :
    change = none ∧ token ∉ d.drawn ∧ d' = { d with drawn := token :: d.drawn } := by
  rcases h.ways with ⟨token', now, hfresh, hserve, rfl⟩ | ⟨e, -, hfailure, -⟩ |
    ⟨e, token', now, hchange, -⟩
  · cases hserve
    exact ⟨rfl, hfresh rfl, rfl⟩
  · cases hfailure
  · cases hchange

theorem Answers.writeText {key : Key} {text : String} {answer : Except StoreError Unit}
    (h : d.Answers (.writeText key text) answer change d') :
    change = none ∧
      ((answer = .ok () ∧ d' = { d with texts := Function.update d.texts key (some text) }) ∨
        ((∃ e, answer = .error e) ∧ d' = d)) := by
  rcases h.ways with ⟨token, now, -, hserve, rfl⟩ | ⟨e, -, hfailure, rfl, rfl⟩ |
    ⟨e, token, now, hchange, -⟩
  · rw [serve] at hserve
    split at hserve
    · cases hserve
      exact ⟨rfl, Or.inl ⟨rfl, rfl⟩⟩
    · cases hserve
      exact ⟨rfl, Or.inr ⟨⟨_, rfl⟩, rfl⟩⟩
  · cases hfailure
    exact ⟨rfl, Or.inr ⟨⟨e, rfl⟩, rfl⟩⟩
  · cases hchange

theorem Answers.removeText {key : Key} {answer : Except StoreError Unit}
    (h : d.Answers (.removeText key) answer change d') :
    change = none ∧
      ((answer = .ok () ∧ d' = { d with texts := Function.update d.texts key none }) ∨
        ((∃ e, answer = .error e) ∧ d' = d)) := by
  rcases h.ways with ⟨token, now, -, hserve, rfl⟩ | ⟨e, -, hfailure, rfl, rfl⟩ |
    ⟨e, token, now, hchange, -⟩
  · rw [serve] at hserve
    split at hserve
    · cases hserve
      exact ⟨rfl, Or.inr ⟨⟨_, rfl⟩, rfl⟩⟩
    · cases hserve
      exact ⟨rfl, Or.inl ⟨rfl, rfl⟩⟩
  · cases hfailure
    exact ⟨rfl, Or.inr ⟨⟨e, rfl⟩, rfl⟩⟩
  · cases hchange

/-- An insert is done, or refused, or it fails and may have been done. -/
theorem Answers.enroll (hd : d.records.Sound) {r : Record} {expected : Option Version}
    {answer : Except StoreError Unit} (h : d.Answers (.enroll r expected) answer change d') :
    (answer = .ok () ∧ change = some (.inserted r) ∧ d.records.IsNext r ∧
      d' = { d with records := d.records.add r }) ∨
    ((∃ latest, answer = .error (.versionConflict r.name expected latest)) ∧ change = none ∧
      d' = d) ∨
    ∃ e, answer = .error e ∧ e.isIo = true ∧ ((change = none ∧ d' = d) ∨
      (change = some (.inserted r) ∧ d.records.IsNext r ∧
        d' = { d with records := d.records.add r })) := by
  rcases h.ways with ⟨token, now, -, hserve, rfl⟩ | ⟨e, hio, hfailure, rfl, rfl⟩ |
    ⟨e, token, now, -, hio, hfailure, hchange, hd'⟩
  · rw [serve] at hserve
    rcases hd.enroll_cases r expected with ⟨-, hnext, heq⟩ | ⟨-, heq⟩
    · rw [heq] at hserve
      cases hserve
      exact Or.inl ⟨rfl, rfl, hnext, rfl⟩
    · rw [heq] at hserve
      cases hserve
      exact Or.inr (Or.inl ⟨⟨_, rfl⟩, rfl, rfl⟩)
  · cases hfailure
    exact Or.inr (Or.inr ⟨e, rfl, hio rfl, Or.inl ⟨rfl, rfl⟩⟩)
  · cases hfailure
    refine Or.inr (Or.inr ⟨e, rfl, hio, ?_⟩)
    rw [serve] at hchange hd'
    rcases hd.enroll_cases r expected with ⟨-, hnext, heq⟩ | ⟨-, heq⟩
    · rw [heq] at hchange hd'
      exact Or.inr ⟨hchange, hnext, hd'⟩
    · rw [heq] at hchange hd'
      exact Or.inl ⟨hchange, hd'⟩

/-- A removal takes a record out and tells of it, or finds none, or it fails and may have
taken one out. -/
theorem Answers.remove (hd : d.records.Sound) {name : AlgorithmName} {version : Option Version}
    {answer : Except StoreError (Option Record)}
    (h : d.Answers (.remove name version) answer change d') :
    (answer = .ok none ∧ change = none ∧ d' = d) ∨
    ((∃ e, answer = .error e) ∧ change = none ∧ d' = d) ∨
    ∃ r, (answer = .ok (some r) ∨ ∃ e, answer = .error e) ∧ change = some (.removed r) ∧
      d.records.find? r.name (some r.version) = some r ∧
      d' = { d with records := d.records.drop r.name r.version } := by
  have hcases : ∀ token now, (d.serve token now (.remove name version) = (.ok none, d)) ∨
      ∃ r, d.records.find? r.name (some r.version) = some r ∧
        d.serve token now (.remove name version)
          = (.ok (some r), { d with records := d.records.drop r.name r.version }) := by
    intro token now
    rw [serve]
    rcases hd.remove_cases name version with ⟨-, heq⟩ | ⟨r, hfind, rfl, heq⟩
    · rw [heq]
      exact Or.inl rfl
    · rw [heq]
      exact Or.inr ⟨r, (hd.labelled hfind).2, rfl⟩
  rcases h.ways with ⟨token, now, -, hserve, rfl⟩ | ⟨e, -, hfailure, rfl, rfl⟩ |
    ⟨e, token, now, -, -, hfailure, hchange, hd'⟩
  · rcases hcases token now with heq | ⟨r, hfind, heq⟩
    · rw [heq] at hserve
      cases hserve
      exact Or.inl ⟨rfl, rfl, rfl⟩
    · rw [heq] at hserve
      cases hserve
      exact Or.inr (Or.inr ⟨r, Or.inl rfl, rfl, hfind, rfl⟩)
  · cases hfailure
    exact Or.inr (Or.inl ⟨⟨e, rfl⟩, rfl, rfl⟩)
  · cases hfailure
    rcases hcases token now with heq | ⟨r, hfind, heq⟩
    · rw [heq] at hchange hd'
      exact Or.inr (Or.inl ⟨⟨e, rfl⟩, hchange, hd'⟩)
    · rw [heq] at hchange hd'
      exact Or.inr (Or.inr ⟨r, Or.inr ⟨e, rfl⟩, hchange, hfind, hd'⟩)

/-- The change that is noted of a call, told or not, is just what it has done to the
records. -/
theorem Answers.records_eq (hd : d.records.Sound) {c : Call} {answer : c.Answer}
    (h : d.Answers c answer change d') : d'.records = d.records.changed change := by
  have hstill : IsStill c → d'.records = d.records.changed change := by
    intro hc
    obtain ⟨rfl, rfl⟩ := h.still hc
    rfl
  cases c with
  | enroll r expected =>
    obtain ⟨-, rfl, -, rfl⟩ | ⟨-, rfl, rfl⟩ | ⟨e, -, -, ⟨rfl, rfl⟩ | ⟨rfl, -, rfl⟩⟩ := h.enroll hd
    all_goals rfl
  | remove name version =>
    obtain ⟨-, rfl, rfl⟩ | ⟨-, rfl, rfl⟩ | ⟨r, -, rfl, -, rfl⟩ := h.remove hd
    all_goals rfl
  | writeText key text =>
    obtain ⟨rfl, ⟨-, rfl⟩ | ⟨-, rfl⟩⟩ := h.writeText
    all_goals rfl
  | removeText key =>
    obtain ⟨rfl, ⟨-, rfl⟩ | ⟨-, rfl⟩⟩ := h.removeText
    all_goals rfl
  | drawToken =>
    obtain ⟨rfl, -, rfl⟩ := h.drawToken
    rfl
  | latest name => exact hstill trivial
  | find name version => exact hstill trivial
  | newest => exact hstill trivial
  | readText key => exact hstill trivial
  | readClock => exact hstill trivial

end Depot

end Store

end ScriptRegistry
