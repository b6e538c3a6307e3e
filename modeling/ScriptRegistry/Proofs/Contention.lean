/-
ScriptRegistry/Proofs/Contention.lean

An update among other clients.

On a stage one client works on a depot, and before each of its calls about records
the others make any calls of theirs.  As long as the client itself changes nothing,
what it finds is decided by the others alone (`Surroundings.seen`), so that one can say
without the client which attempt is the last one and how it ends.

The invariant of a run (`Midway`) says which calls were made, and that of the texts
written so far just those are there that the client is about to refer to.  An attempt
that is lost takes its texts back, so that the next one starts as the first did.

Main result: `update_decided`.
-/
import ScriptRegistry.Proofs.Attempts
import ScriptRegistry.Proofs.Deeds
import ScriptRegistry.Proofs.Keys

namespace ScriptRegistry.Store

open Artifact
open Program (Ends)

/-! ### The others -/

/-- The records after a call by another client. -/
def Catalog.after (c : Catalog) : Call → Catalog
  | .enroll record expected => (c.enroll record expected).2
  | .remove name version => (c.remove name version).2
  | .latest _ => c
  | .find _ _ => c
  | .newest => c
  | .writeText _ _ => c
  | .readText _ => c
  | .removeText _ => c
  | .drawToken => c
  | .readClock => c

/-- What surrounds a client: the calls that others make before each of its calls about records,
and the token and the time at each of its calls. -/
structure Surroundings where
  others : Nat → List Call
  tokens : Nat → Token
  clock : Nat → Time.Moment

namespace Surroundings

/-- The records after some rounds of the others. -/
def rounds (w : Surroundings) (c : Catalog) : Nat → Catalog
  | 0 => c
  | n + 1 => (w.others n).foldl Catalog.after (w.rounds c n)

/-- The latest version of a name that a client finds with its call about records of the given
number, if it has changed nothing before. -/
def seen (w : Surroundings) (c : Catalog) (name : AlgorithmName) (n : Nat) : Option Version :=
  (w.rounds c (n + 1)).latest? name

end Surroundings

/-! ### The stage -/

/-- A depot that a client works on, the rounds of the others so far, and the log of the client. -/
structure Stage where
  depot : Depot
  rounds : Nat
  log : List Deed

namespace Stage

/-- Before the first call. -/
def start (d : Depot) : Stage :=
  ⟨d, 0, []⟩

/-- The others make their calls. -/
def interrupt (w : Surroundings) (s : Stage) : Stage :=
  { s with
    depot := { s.depot with records := (w.others s.rounds).foldl Catalog.after s.depot.records }
    rounds := s.rounds + 1 }

/-- Answers a call of the client without a fault. -/
def serve (w : Surroundings) (s : Stage) (c : Call) : c.Answer × Stage :=
  let (answer, depot) := s.depot.serve (w.tokens s.log.length) (w.clock s.log.length) c
  (answer, { s with depot := depot, log := s.log ++ [⟨c, answer, c.change? answer⟩] })

/-- Answers a call of the client, about records after a round of the others. -/
def answer (w : Surroundings) (s : Stage) (c : Call) : c.Answer × Stage :=
  if c.isOfRecords then (s.interrupt w).serve w c else s.serve w c

end Stage

/-- The stage moves on as it answers. -/
def Moves (w : Surroundings) (s : Stage) (c : Call) (answer : c.Answer) (s' : Stage) : Prop :=
  s.answer w c = (answer, s')

/-- Whether a call is an insert. -/
def Call.isInsert : Call → Bool
  | .enroll _ _ => true
  | .remove _ _ => false
  | .latest _ => false
  | .find _ _ => false
  | .newest => false
  | .writeText _ _ => false
  | .readText _ => false
  | .removeText _ => false
  | .drawToken => false
  | .readClock => false

/-- How many inserts were tried. -/
def inserts (log : List Deed) : Nat :=
  log.countP (·.call.isInsert)

/-- An update among other clients. -/
def updateAmid (w : Surroundings) (d : Depot) (draft : Draft) (attempts : Nat) :
    Except StoreError Record × Stage :=
  Program.run (Stage.answer w) (update draft attempts).run (.start d)

/-! ### Texts underway -/

/-- Of the texts written on a stage, those under the given keys are there; all other keys are as
they were before. -/
structure Left (texts : Key → Option String) (keys : List Key) (s : Stage) : Prop where
  present : ∀ key ∈ keys, key ∈ written s.log ∧ s.depot.texts key ≠ none
  others : ∀ key, key ∉ keys → s.depot.texts key = texts key
  free : ∀ key ∈ written s.log, texts key = none

/-- After the given numbers of rounds and inserts nothing has changed but the texts underway. -/
structure Midway (w : Surroundings) (d : Depot) (rounds tried : Nat) (keys : List Key)
    (s : Stage) : Prop extends Left d.texts keys s where
  rounds_eq : s.rounds = rounds
  records_eq : s.depot.records = w.rounds d.records rounds
  inserts_eq : inserts s.log = tried

/-- The keys of a record that is returned. -/
def kept : Except StoreError Record → List Key
  | .ok record => record.keys
  | .error _ => []

section Steps

variable {w : Surroundings} {d : Depot} {s : Stage} {rounds tried : Nat} {keys : List Key}

/-- The others do not meddle with texts. -/
theorem Stage.answer_of_texts {c : Call} (hc : c.isOfRecords = false) :
    s.answer w c = s.serve w c := by
  rw [Stage.answer, hc]
  rfl

theorem inserts_append (log : List Deed) (deed : Deed) :
    inserts (log ++ [deed]) = inserts log + if deed.call.isInsert then 1 else 0 := by
  rw [inserts, List.countP_append, List.countP_singleton]
  rfl

theorem midway_start (w : Surroundings) (d : Depot) : Midway w d 0 0 [] (.start d) where
  present := fun _ h => by cases h
  others := fun _ _ => rfl
  free := fun _ h => by cases h
  rounds_eq := rfl
  records_eq := rfl
  inserts_eq := rfl

/-- A call that is answered and noted. -/
theorem Left.call (h : Left d.texts keys s) {depot : Depot} {deed : Deed} {keys' : List Key}
    (hwritten : ∀ key, deed.call.written? deed.answer = some key → d.texts key = none)
    (hpresent : ∀ key ∈ keys', depot.texts key ≠ none ∧
      (key ∈ keys ∨ deed.call.written? deed.answer = some key))
    (hothers : ∀ key, key ∉ keys' → depot.texts key = d.texts key) :
    Left d.texts keys' { s with depot := depot, log := s.log ++ [deed] } where
  present key hkey := by
    refine ⟨?_, (hpresent key hkey).1⟩
    rw [written_append, List.mem_append, Option.mem_toList]
    exact (hpresent key hkey).2.imp_left fun hold => (h.present key hold).1
  others := hothers
  free key hkey := by
    rw [written_append, List.mem_append, Option.mem_toList] at hkey
    exact hkey.elim (h.free key) (hwritten key)

/-- A call that leaves the texts as they are. -/
theorem Left.pass (h : Left d.texts keys s) {depot : Depot} {deed : Deed}
    (htexts : depot.texts = s.depot.texts) (hwritten : deed.call.written? deed.answer = none) :
    Left d.texts keys { s with depot := depot, log := s.log ++ [deed] } := by
  refine h.call ?_ ?_ ?_
  · intro key hkey
    rw [hwritten] at hkey
    cases hkey
  · intro key hkey
    rw [htexts]
    exact ⟨(h.present key hkey).2, Or.inl hkey⟩
  · rw [htexts]
    exact h.others

/-- A call that is no insert and leaves the records as they are. -/
theorem Midway.call (h : Midway w d rounds tried keys s) {depot : Depot} {deed : Deed}
    {keys' : List Key} (hrecords : depot.records = s.depot.records)
    (hinsert : deed.call.isInsert = false)
    (hleft : Left d.texts keys' { s with depot := depot, log := s.log ++ [deed] }) :
    Midway w d rounds tried keys' { s with depot := depot, log := s.log ++ [deed] } where
  toLeft := hleft
  rounds_eq := h.rounds_eq
  records_eq := hrecords.trans h.records_eq
  inserts_eq := by
    rw [inserts_append, hinsert, h.inserts_eq]
    rfl

/-- A call that touches neither texts nor records. -/
theorem Midway.pass (h : Midway w d rounds tried keys s) {drawn : List Token} {deed : Deed}
    (hwritten : deed.call.written? deed.answer = none) (hinsert : deed.call.isInsert = false) :
    Midway w d rounds tried keys
      { s with depot := { s.depot with drawn := drawn }, log := s.log ++ [deed] } :=
  h.call rfl hinsert (h.toLeft.pass rfl hwritten)

/-- A text that is written under a free key is underway. -/
theorem Midway.write (h : Midway w d rounds tried keys s) {key : Key} (text : String)
    (hfree : d.texts key = none) :
    Midway w d rounds tried (keys ++ [key])
      { s with depot := { s.depot with texts := Function.update s.depot.texts key (some text) },
               log := s.log ++ [⟨.writeText key text, .ok (), none⟩] } := by
  refine h.call rfl rfl (h.toLeft.call ?_ ?_ ?_)
  · rintro _ ⟨⟩
    exact hfree
  · intro k hk
    show Function.update s.depot.texts key (some text) k ≠ none ∧ _
    by_cases heq : k = key
    · subst heq
      rw [Function.update_self]
      exact ⟨Option.some_ne_none _, Or.inr rfl⟩
    · have hold : k ∈ keys := by simpa [heq] using hk
      rw [Function.update_of_ne heq]
      exact ⟨(h.present k hold).2, Or.inl hold⟩
  · intro k hk
    rw [List.mem_append, List.mem_singleton, not_or] at hk
    show Function.update s.depot.texts key (some text) k = d.texts k
    rw [Function.update_of_ne hk.2]
    exact h.others k hk.1

/-- A text that is removed is no longer underway. -/
theorem Midway.drop (h : Midway w d rounds tried keys s) {key : Key}
    (answer : Except StoreError Unit) (hfree : d.texts key = none) :
    Midway w d rounds tried (keys.filter (· ≠ key))
      { s with depot := { s.depot with texts := Function.update s.depot.texts key none },
               log := s.log ++ [⟨.removeText key, answer, none⟩] } := by
  refine h.call rfl rfl (h.toLeft.call ?_ ?_ ?_)
  · rintro _ ⟨⟩
  · intro k hk
    rw [List.mem_filter, decide_eq_true_iff] at hk
    show Function.update s.depot.texts key none k ≠ none ∧ _
    rw [Function.update_of_ne hk.2]
    exact ⟨(h.present k hk.1).2, Or.inl hk.1⟩
  · intro k hk
    show Function.update s.depot.texts key none k = d.texts k
    by_cases heq : k = key
    · rw [heq, Function.update_self, hfree]
    · rw [Function.update_of_ne heq]
      exact h.others k fun hold => hk (List.mem_filter.mpr ⟨hold, decide_eq_true heq⟩)

/-- A round of the others. -/
theorem Midway.interrupt (h : Midway w d rounds tried keys s) :
    Midway w d (rounds + 1) tried keys (s.interrupt w) where
  present := h.present
  others := h.others
  free := h.free
  rounds_eq := congrArg (· + 1) h.rounds_eq
  records_eq := by
    rw [Surroundings.rounds, ← h.records_eq, ← h.rounds_eq]
    rfl
  inserts_eq := h.inserts_eq

/-! ### The steps of an update -/

theorem Midway.latest (h : Midway w d rounds tried keys s) (name : AlgorithmName) :
    Ends (Moves w) (fun result s' => result = .ok (w.seen d.records name rounds) ∧
        Midway w d (rounds + 1) tried keys s')
      (Store.latest name).run s := by
  rintro answer s' hmove
  obtain ⟨rfl, rfl⟩ := Prod.mk.inj hmove
  have hround := h.interrupt
  refine ⟨?_, hround.pass rfl rfl⟩
  show Except.ok ((s.interrupt w).depot.records.latest? name) = _
  rw [hround.records_eq]
  rfl

theorem Midway.readClock (h : Midway w d rounds tried keys s) :
    Ends (Moves w) (fun result s' => (∃ now, result = .ok now) ∧ Midway w d rounds tried keys s')
      (ExceptT.lift (Program.call .readClock) : Operation Time.Moment).run s := by
  rintro now s' hmove
  obtain ⟨rfl, rfl⟩ := Prod.mk.inj hmove
  exact ⟨⟨_, rfl⟩, h.pass rfl rfl⟩

/-- No key with one of the tokens to come is taken. -/
def Unspent (w : Surroundings) (d : Depot) : Prop :=
  ∀ n key, Bears key (w.tokens n) → d.texts key = none

/-- A script is stored under a key of its role. -/
theorem Midway.writeScript (hfree : Unspent w d) (h : Midway w d rounds tried keys s)
    (name : AlgorithmName) (version : Version) (role : Role) (source : String)
    (hrole : ∀ token, Key.fresh name version role token ∉ keys) :
    Ends (Moves w) (fun result s' => ∃ ref token, result = .ok ref ∧
        ref.key = Key.fresh name version role token ∧
        Midway w d rounds tried (keys ++ [ref.key]) s')
      (Store.writeScript name version role source).run s := by
  rw [Store.writeScript]
  refine Ends.bind_except (P := fun result s' => (∃ n, result = .ok (w.tokens n)) ∧
    Midway w d rounds tried keys s') ?_ ?_ ?_
  · rintro token s' hmove
    obtain ⟨rfl, rfl⟩ := Prod.mk.inj hmove
    exact ⟨⟨_, rfl⟩, h.pass rfl rfl⟩
  · rintro _ s' ⟨⟨n, ⟨⟩⟩, h'⟩
    have hkey : d.texts (Key.fresh name version role (w.tokens n)) = none :=
      hfree n _ ⟨name, version, role, rfl⟩
    have hnone : s'.depot.texts (Key.fresh name version role (w.tokens n)) = none :=
      (h'.others _ (hrole _)).trans hkey
    refine Ends.bind_except (P := fun result s'' => result = .ok () ∧
      Midway w d rounds tried (keys ++ [Key.fresh name version role (w.tokens n)]) s'') ?_ ?_ ?_
    · rintro answer s'' hmove
      rw [Moves, Stage.answer_of_texts rfl, Stage.serve, Depot.serve, hnone] at hmove
      obtain ⟨rfl, rfl⟩ := Prod.mk.inj hmove
      exact ⟨rfl, h'.write source hkey⟩
    · rintro _ s'' ⟨-, h''⟩
      exact ⟨_, w.tokens n, rfl, rfl, h''⟩
    · rintro e s'' ⟨⟨⟩, -⟩
  · rintro e s' ⟨⟨n, ⟨⟩⟩, -⟩

/-- What is dropped is no longer underway. -/
theorem Midway.dropTexts (h : Midway w d rounds tried keys s) {dropped : List Key}
    (hfree : ∀ key ∈ dropped, d.texts key = none) :
    Ends (Moves w) (fun result s' => result = .ok () ∧
        Midway w d rounds tried (keys.filter fun key => key ∉ dropped) s')
      (Store.dropTexts dropped).run s := by
  induction dropped generalizing s keys with
  | nil =>
    refine ⟨rfl, ?_⟩
    rw [List.filter_eq_self.mpr fun key _ => decide_eq_true List.not_mem_nil]
    exact h
  | cons key dropped ih =>
    rw [Store.dropTexts]
    refine Ends.bind_except (P := fun result s' => (∃ answer, result = .ok answer) ∧
      Midway w d rounds tried (keys.filter (· ≠ key)) s') ?_ ?_ ?_
    · rintro answer s' hmove
      rw [Moves, Stage.answer_of_texts rfl, Stage.serve, Depot.serve] at hmove
      rcases hkey : s.depot.texts key with - | text
      · -- nothing is there to be removed
        rw [hkey] at hmove
        obtain ⟨rfl, rfl⟩ := Prod.mk.inj hmove
        have hdrop := h.drop (.error (.artifactNotFound key)) (hfree key List.mem_cons_self)
        rw [← hkey, Function.update_eq_self] at hdrop
        exact ⟨⟨_, rfl⟩, hdrop⟩
      · rw [hkey] at hmove
        obtain ⟨rfl, rfl⟩ := Prod.mk.inj hmove
        exact ⟨⟨_, rfl⟩, h.drop (.ok ()) (hfree key List.mem_cons_self)⟩
    · rintro _ s' ⟨-, h'⟩
      refine (ih h' fun k hk => hfree k (List.mem_cons_of_mem _ hk)).mono ?_
      rintro result s'' ⟨hok, h''⟩
      refine ⟨hok, ?_⟩
      rw [List.filter_filter] at h''
      have hfilter : keys.filter (fun k => decide (k ∉ key :: dropped))
          = keys.filter fun k => decide (k ∉ dropped) && decide (k ≠ key) :=
        List.filter_congr fun k _ => by simp [Bool.and_comm]
      rw [hfilter]
      exact h''
    · rintro e s' ⟨⟨_, ⟨⟩⟩, -⟩

/-- The two scripts of a version have different keys. -/
theorem fresh_privacy_ne_main (name : AlgorithmName) (version : Version) (token token' : Token) :
    Key.fresh name version .privacy token ≠ Key.fresh name version .main token' := by
  intro heq
  have htext := congrArg (fun key => key.text.toList) heq
  rw [text_fresh, text_fresh, List.append_cancel_left_eq, List.cons.injEq] at htext
  cases (fileName_inj htext.2).2.1

/-- The privacy script joins the main one. -/
theorem Midway.writePrivacy (hfree : Unspent w d) (draft : Draft) (version : Version)
    {main : TextRef} (hmain : ∃ token, main.key = Key.fresh draft.name version .main token)
    (h : Midway w d rounds tried [main.key] s) :
    Ends (Moves w) (fun result s' => ∃ p : Option RecordPrivacy, result = .ok p ∧
        Midway w d rounds tried (main.key :: (p.map (·.artifact.key)).toList) s')
      (Store.writePrivacy draft version main).run s := by
  rw [Store.writePrivacy]
  split
  · exact ⟨none, rfl, h⟩
  · next script _ =>
    obtain ⟨token', hmain⟩ := hmain
    have hrole : ∀ token, Key.fresh draft.name version .privacy token ∉ [main.key] := by
      intro token hmem
      rw [List.mem_singleton, hmain] at hmem
      exact fresh_privacy_ne_main _ _ _ _ hmem
    refine Ends.catch_except (P := fun result s' => ∃ p : RecordPrivacy, result = .ok (some p) ∧
      Midway w d rounds tried [main.key, p.artifact.key] s') ?_ ?_ ?_
    · refine Ends.bind_except (h.writeScript hfree _ _ _ _ hrole) ?_ ?_
      · rintro ref s' ⟨_, token, ⟨⟩, hkey, h'⟩
        exact ⟨⟨ref, script.className⟩, rfl, h'⟩
      · rintro e s' ⟨_, _, ⟨⟩, -⟩
    · rintro _ s' ⟨p, ⟨⟩, h'⟩
      exact ⟨some p, rfl, h'⟩
    · rintro e s' ⟨_, ⟨⟩, -⟩

/-- A record that follows the expected version is inserted exactly if that is the latest one. -/
theorem Catalog.enroll_following (c : Catalog) {record : Record} {expected : Option Version}
    (hnext : Version.following expected = .ok record.version) :
    (c.latest? record.name = expected → (c.enroll record expected).1 = .ok ()) ∧
    (c.latest? record.name ≠ expected → c.enroll record expected
      = (.error (.versionConflict record.name expected (c.latest? record.name)), c)) := by
  have hfollows : Catalog.follows record expected = true := by
    rw [Catalog.follows, hnext]
    exact beq_self_eq_true record.version
  constructor
  · intro hlatest
    simp [Catalog.enroll, hlatest, hfollows]
  · intro hlatest
    simp [Catalog.enroll, hlatest]

/-- A record that follows the expected version is inserted, if no other version is found. -/
theorem Midway.enroll {record : Record} {expected : Option Version}
    (hnext : Version.following expected = .ok record.version)
    (h : Midway w d rounds tried keys s) :
    Ends (Moves w) (fun result s' =>
        (w.seen d.records record.name rounds = expected ∧ result = .ok () ∧
          inserts s'.log = tried + 1 ∧ Left d.texts keys s') ∨
        (w.seen d.records record.name rounds ≠ expected ∧
          (∃ actual, result = .error (.versionConflict record.name expected actual)) ∧
          Midway w d (rounds + 1) (tried + 1) keys s'))
      (Store.enroll record expected).run s := by
  rintro answer s' hmove
  have hround := h.interrupt
  have hseen : (s.interrupt w).depot.records.latest? record.name
      = w.seen d.records record.name rounds := by
    rw [hround.records_eq]
    rfl
  obtain ⟨hinserted, hrefused⟩ :=
    (s.interrupt w).depot.records.enroll_following hnext
  rw [hseen] at hinserted hrefused
  obtain ⟨rfl, rfl⟩ := Prod.mk.inj hmove
  have hinserts : ∀ answer change,
      inserts (s.log ++ [⟨.enroll record expected, answer, change⟩]) = tried + 1 := by
    intro answer change
    rw [inserts_append, h.inserts_eq]
    rfl
  by_cases hlatest : w.seen d.records record.name rounds = expected
  · exact Or.inl ⟨hlatest, hinserted hlatest, hinserts _ _, hround.toLeft.pass rfl rfl⟩
  · refine Or.inr ⟨hlatest, ⟨_, congrArg Prod.fst (hrefused hlatest)⟩,
      hround.toLeft.pass rfl rfl, hround.rounds_eq, ?_, hinserts _ _⟩
    rw [← hround.records_eq]
    exact congrArg Prod.snd (hrefused hlatest)

/-- A version is followed by the next number, unless there is none. -/
theorem next_cases (v : Version) :
    (v.number + 1 < versionBound ∧ ∃ next, v.next = .ok next ∧ next.number = v.number + 1) ∨
    (v.number + 1 = versionBound ∧ v.next = .error (.versionsExhausted v.number)) := by
  by_cases hnext : v.number + 1 < versionBound
  · exact Or.inl ⟨hnext, _, dif_pos hnext, rfl⟩
  · have hbound := v.bounded
    exact Or.inr ⟨by omega, dif_neg hnext⟩

/-- How it goes to publish the version after `v`. -/
inductive Published (w : Surroundings) (d : Depot) (name : AlgorithmName) (rounds tried : Nat)
    (v : Version) : Except StoreError Record → Stage → Prop
  | exhausted {s : Stage} (hlast : v.number + 1 = versionBound)
      (h : Midway w d rounds tried [] s) :
      Published w d name rounds tried v (.error (.input (.versionsExhausted v.number))) s
  | inserted {record : Record} {s : Stage} (hnext : v.number + 1 < versionBound)
      (hnumber : record.version.number = v.number + 1)
      (hseen : w.seen d.records name rounds = some v) (hinserts : inserts s.log = tried + 1)
      (h : Left d.texts record.keys s) : Published w d name rounds tried v (.ok record) s
  | refused {actual : Option Version} {s : Stage} (hnext : v.number + 1 < versionBound)
      (hseen : w.seen d.records name rounds ≠ some v)
      (h : Midway w d (rounds + 1) (tried + 1) [] s) :
      Published w d name rounds tried v (.error (.versionConflict name (some v) actual)) s

/-- A refused record is taken back with its texts. -/
theorem Midway.giveUp {record : Record} {e : StoreError} {name : AlgorithmName}
    {expected actual : Option Version} (he : e = .versionConflict name expected actual)
    (h : Midway w d rounds tried record.keys s) :
    Ends (Moves w) (fun result s' => result = .error e ∧ Midway w d rounds tried [] s')
      (do
        match e with
        | .versionConflict _ _ _ => Store.dropTexts record.keys
        | _ => pure ()
        throw e : Operation Unit).run s := by
  subst he
  have hfree : ∀ key ∈ record.keys, d.texts key = none :=
    fun key hkey => h.free key (h.present key hkey).1
  refine Ends.bind_except (h.dropTexts hfree) ?_ ?_
  · rintro _ s' ⟨-, h'⟩
    have hnone : (record.keys.filter fun key => key ∉ record.keys) = [] := by
      rw [List.filter_eq_nil_iff]
      intro key hkey
      simp [hkey]
    rw [hnone] at h'
    exact ⟨rfl, h'⟩
  · rintro _ s' ⟨⟨⟩, -⟩

/-- A record whose texts are underway is inserted, or it is refused and taken back. -/
theorem Midway.submit {v : Version} {record : Record} (hlt : v.number + 1 < versionBound)
    (hnext : v.next = .ok record.version) (hnumber : record.version.number = v.number + 1)
    (h : Midway w d rounds tried record.keys s) :
    Ends (Moves w) (fun result s' =>
        Published w d record.name rounds tried v (result.map fun _ => record) s')
      (tryCatch (Store.enroll record (some v)) fun e => do
        match e with
        | .versionConflict _ _ _ => Store.dropTexts record.keys
        | _ => pure ()
        throw e).run s := by
  have hfollowing : Version.following (some v) = .ok record.version := hnext
  refine Ends.catch_except (h.enroll hfollowing) ?_ ?_
  · rintro _ s' (⟨hseen, -, hinserts, hleft⟩ | ⟨-, ⟨_, ⟨⟩⟩, -⟩)
    exact Published.inserted hlt hnumber hseen hinserts hleft
  · rintro e s' (⟨-, ⟨⟩, -⟩ | ⟨hseen, ⟨actual, herror⟩, h'⟩)
    obtain rfl := Except.error.inj herror
    refine (h'.giveUp rfl).mono ?_
    rintro _ s'' ⟨rfl, h''⟩
    exact Published.refused hlt hseen h''

/-- **An attempt leaves texts only with its record.** -/
theorem Midway.publish (hfree : Unspent w d) (draft : Draft) (v : Version)
    (h : Midway w d rounds tried [] s) :
    Ends (Moves w) (Published w d draft.name rounds tried v)
      (Store.publish draft (some v)).run s := by
  rw [Store.publish]
  rcases next_cases v with ⟨hlt, version, hnext, hnumber⟩ | ⟨hlast, hnext⟩
  · rw [Version.following, hnext]
    refine Ends.bind_except (P := fun result s' => result = .ok version ∧
      Midway w d rounds tried [] s') ⟨rfl, h⟩ ?_ ?_
    · rintro _ s₁ ⟨⟨⟩, h₁⟩
      refine Ends.bind_except (h₁.writeScript hfree _ _ _ _ fun _ => List.not_mem_nil) ?_ ?_
      · rintro main s₂ ⟨_, token, ⟨⟩, hmain, h₂⟩
        refine Ends.bind_except (h₂.writePrivacy hfree draft version ⟨token, hmain⟩) ?_ ?_
        · rintro privacy s₃ ⟨_, ⟨⟩, h₃⟩
          refine Ends.bind_except h₃.readClock ?_ ?_
          · rintro createdAt s₄ ⟨-, h₄⟩
            let record : Record := ⟨draft.name, version, draft.description,
              ⟨main, draft.main.className, draft.main.reducer⟩, privacy, createdAt⟩
            have hkeys : record.keys = main.key :: (privacy.map (·.artifact.key)).toList := by
              cases privacy <;> rfl
            rw [← hkeys] at h₄
            refine Ends.bind_except (h₄.submit hlt hnext hnumber) ?_ ?_
            · exact fun _ _ h₅ => h₅
            · exact fun _ _ h₅ => h₅
          · rintro e s₄ ⟨⟨_, ⟨⟩⟩, -⟩
        · rintro e s₃ ⟨_, ⟨⟩, -⟩
      · rintro e s₂ ⟨_, _, ⟨⟩, -⟩
    · rintro e s₁ ⟨⟨⟩, -⟩
  · rw [Version.following, hnext]
    exact Published.exhausted hlast h

/-! ### Attempt after attempt -/

/-- One of the attempts is the last one, all before it are lost, and nothing is left but what the
result refers to. -/
def Settled (w : Surroundings) (d : Depot) (name : AlgorithmName) (tries : Nat)
    (result : Except StoreError Record) (s : Stage) : Prop :=
  ∃ k < tries, Reached (w.seen d.records name) k ∧
    Concludes (w.seen d.records name) name tries k result ∧ inserts s.log ≤ k + 1 ∧
    Left d.texts (kept result) s

variable {k tries : Nat}

/-- One more attempt settles the update, or it is lost and `again` settles it. -/
theorem Midway.updateOnce (hfree : Unspent w d) (draft : Draft)
    {again : StoreError → Operation Record} (hk : k < tries)
    (hreached : Reached (w.seen d.records draft.name) k) (h : Midway w d (2 * k) k [] s)
    (hagain : ∀ expected actual s', Loses (w.seen d.records draft.name) k →
      Midway w d (2 * (k + 1)) (k + 1) [] s' → Ends (Moves w) (Settled w d draft.name tries)
        (again (.versionConflict draft.name expected actual)).run s') :
    Ends (Moves w) (Settled w d draft.name tries) (Store.updateOnce draft again).run s := by
  rw [Store.updateOnce]
  refine Ends.bind_except (h.latest draft.name) ?_ ?_
  · rintro _ s₁ ⟨⟨⟩, h₁⟩
    rcases hread : w.seen d.records draft.name (2 * k) with - | v
    · have hinserts : inserts s₁.log ≤ k + 1 := by
        rw [h₁.inserts_eq]
        exact Nat.le_succ k
      exact ⟨k, hk, hreached, Concludes.absent hread, hinserts, h₁.toLeft⟩
    · refine Ends.catch_except (h₁.publish hfree draft v) ?_ ?_
      · rintro record s₂ (- | ⟨hnext, hnumber, hseen, hinserts, hleft⟩ | -)
        exact ⟨k, hk, hreached, Concludes.won ⟨hread, hnext, hseen⟩ hnumber,
          Nat.le_of_eq hinserts, hleft⟩
      · rintro e s₂ (⟨hlast, h₂⟩ | - | ⟨hnext, hseen, h₂⟩)
        · have hinserts : inserts s₂.log ≤ k + 1 := by
            rw [h₂.inserts_eq]
            exact Nat.le_succ k
          exact ⟨k, hk, hreached, Concludes.exhausted ⟨v, hread, hlast⟩, hinserts, h₂.toLeft⟩
        · exact hagain _ _ _ ⟨v, hread, hnext, hseen⟩ h₂
  · rintro e s₁ ⟨⟨⟩, -⟩

/-- A lost attempt leaves the next one to begin as the first. -/
theorem Reached.succ {seen : Nat → Option Version} (h : Reached seen k) (hk : Loses seen k) :
    Reached seen (k + 1) := by
  intro j hj
  rcases Nat.lt_succ_iff_lt_or_eq.mp hj with hj | rfl
  · exact h j hj
  · exact hk

theorem Midway.updateRetrying (hfree : Unspent w d) (draft : Draft) (retries : Nat)
    (htries : k + retries + 1 = tries) (hreached : Reached (w.seen d.records draft.name) k)
    (h : Midway w d (2 * k) k [] s) :
    Ends (Moves w) (Settled w d draft.name tries) (Store.updateRetrying draft retries).run s := by
  induction retries generalizing k s with
  | zero =>
    refine h.updateOnce hfree draft (by omega) hreached fun expected actual s' hlost h' => ?_
    -- there is no other attempt
    exact ⟨k, by omega, hreached, Concludes.lost hlost htries, Nat.le_of_eq h'.inserts_eq,
      h'.toLeft⟩
  | succ left ih =>
    refine h.updateOnce hfree draft (by omega) hreached fun expected actual s' hlost h' => ?_
    exact ih (by omega) (hreached.succ hlost) h'

end Steps

/-! ### How an update ends -/

theorem settled_updateAmid {w : Surroundings} {d : Depot} (hfree : Unspent w d) (draft : Draft)
    (attempts : Nat) : Settled w d draft.name (max attempts 1) (updateAmid w d draft attempts).1
      (updateAmid w d draft attempts).2 := by
  have hnone : Reached (w.seen d.records draft.name) 0 := fun j hj => absurd hj (Nat.not_lt_zero j)
  refine Ends.run ((midway_start w d).updateRetrying hfree draft (attempts - 1) ?_ hnone)
  omega

/-- **An update is decided by what it finds.**  It makes no more inserts than it may, where one is
always allowed.  It succeeds exactly if, at one of its attempts, it finds the latest version
unchanged when it inserts; the new version is the next one.  It fails with a conflict exactly if it
loses at every attempt, as not found exactly if it finds no version at an attempt that it comes to,
and for want of versions exactly if it finds the last one there can be.  The texts that it has
written and that are still there are those of the record that it returns; the others are as they
were. -/
theorem update_decided (w : Surroundings) (d : Depot) (draft : Draft) (attempts : Nat)
    (hfree : Unspent w d) :
    let seen := w.seen d.records draft.name
    let tries := max attempts 1
    let result := (updateAmid w d draft attempts).1
    let final := (updateAmid w d draft attempts).2
    inserts final.log ≤ tries ∧
    ((∃ record, result = .ok record) ↔ ∃ k < tries, Reached seen k ∧ ∃ v, Wins seen k v) ∧
    (∀ record k v, result = .ok record → Reached seen k → Wins seen k v →
      record.version.number = v.number + 1) ∧
    ((∃ name expected actual, result = .error (.versionConflict name expected actual)) ↔
      ∀ k < tries, Loses seen k) ∧
    (result = .error (.notFound draft.name) ↔
      ∃ k < tries, Reached seen k ∧ seen (2 * k) = none) ∧
    ((∃ number, result = .error (.input (.versionsExhausted number))) ↔
      ∃ k < tries, Reached seen k ∧ Exhausts seen k) ∧
    (∀ key, key ∈ written final.log ∧ final.depot.texts key ≠ none ↔
      ∃ record, result = .ok record ∧ key ∈ record.keys) ∧
    ∀ key, key ∉ written final.log → final.depot.texts key = d.texts key := by
  intro seen tries result final
  obtain ⟨k, hk, hreached, hends, hinserts, hleft⟩ : Settled w d draft.name tries result final :=
    settled_updateAmid hfree draft attempts
  have hkept : ∀ key, key ∈ kept result ↔ ∃ record, result = .ok record ∧ key ∈ record.keys := by
    intro key
    rcases result with e | record <;> simp [kept]
  refine ⟨Nat.le_trans hinserts hk, hends.ok_iff hk hreached, ?_, hends.conflict_iff hk hreached,
    hends.notFound_iff hk hreached, hends.exhausted_iff hk hreached, ?_, ?_⟩
  · intro record k' v hok hreached' hwins
    rw [hok] at hends
    exact hends.number_eq hreached hreached' hwins
  · intro key
    rw [← hkept]
    constructor
    · rintro ⟨hwritten, hthere⟩
      by_contra hnot
      exact hthere ((hleft.others key hnot).trans (hleft.free key hwritten))
    · exact hleft.present key
  · intro key hnot
    exact hleft.others key fun hkey => hnot (hleft.present key hkey).1

/-- A rival stores a record on top of the first version, between the first read and the
first insert of a client. -/
def rivalry (record : Record) : Surroundings where
  others
    | 1 => [.enroll record (some .first)]
    | _ => []
  tokens := Token.ofNat
  clock _ := .epoch

/-- The second attempt succeeds with version 3, and leaves nothing of the first. -/
theorem update_decided_rivalry :
    let d : Depot := ⟨Catalog.empty.insertStub ⟨"mean", by decide⟩, fun _ => none, []⟩
    let draft : Draft := ⟨⟨"mean", by decide⟩, "A mean.", ⟨"pass", "Mean", .sum⟩,
      some ⟨"pass", "Privacy"⟩⟩
    let w := rivalry (stubRecord ⟨"mean", by decide⟩ ⟨2, by decide, by decide⟩)
    Unspent w d ∧ ∃ record, (updateAmid w d draft 3).1 = .ok record ∧
      record.version.number = 3 ∧
      ∀ key, key ∈ written (updateAmid w d draft 3).2.log ∧
        (updateAmid w d draft 3).2.depot.texts key ≠ none ↔ key ∈ record.keys := by
  intro d draft w
  have hfree : Unspent w d := fun _ _ _ => rfl
  obtain ⟨-, hok, hnumber, -, -, -, htexts, -⟩ := update_decided w d draft 3 hfree
  have hreached : Reached (w.seen d.records draft.name) 1 := by
    intro j hj
    obtain rfl := Nat.lt_one_iff.mp hj
    exact ⟨.first, rfl, by decide, by decide⟩
  have hwins : Wins (w.seen d.records draft.name) 1 ⟨2, by decide, by decide⟩ :=
    ⟨rfl, by decide, rfl⟩
  obtain ⟨record, hrecord⟩ := hok.mpr ⟨1, by decide, hreached, _, hwins⟩
  refine ⟨hfree, record, hrecord, hnumber record 1 _ hrecord hreached hwins, fun key => ?_⟩
  rw [htexts key, hrecord]
  simp

end ScriptRegistry.Store
