/-
ScriptRegistry/Proofs/Succession.lean

What can be told of a backend from an earlier state of it.

Every request draws its tokens behind those that were drawn before, and the keys
of a record that it stores bear these tokens.  So a later state (`Later`) has
records of the earlier one, and records whose keys bear tokens that were drawn in
between.  That a client writes and inserts nothing else is known from its log
(`abides_program`); here the tokens in its hand are followed on a backend.

If no token is drawn twice, a record that is gone does not come back
(`Later.not_stores`), its paths stay free (`Later.lookup_of_gone`), and one that
is still there has the entry that it had (`Models.find?_serveAll`).
-/
import ScriptRegistry.Proofs.Deeds
import ScriptRegistry.Proofs.Keeping
import ScriptRegistry.Proofs.Refinement

namespace ScriptRegistry.Store

open Artifact
open Program (Abides)

/-! ### A backend answers as some depot does -/

namespace Depot

variable {d d' : Depot} {c : Call}

theorem answers_of_serve {token : Token} {now : Time.Moment} {answer : c.Answer}
    (hdraw : c = .drawToken → token ∉ d.drawn) (h : d.serve token now c = (answer, d')) :
    d.Answers c answer (c.change? answer) d' := by
  refine ⟨⟨token, now, none⟩, ?_⟩
  rw [answer?, h]
  exact if_neg fun htaken => hdraw htaken.1 htaken.2

theorem answers_of_failure {e : StoreError} {answer : c.Answer} (hrecords : c.isOfRecords = false)
    (h : c.failure? e = some answer) : d.Answers c answer none d := by
  refine ⟨⟨.ofNat 0, .epoch, some (.before e)⟩, ?_⟩
  simp only [answer?, hrecords, h, Bool.false_eq_true, false_and, if_false, Option.map_some]

end Depot

namespace Backend

variable {b b' b'' : Backend} {l : Ledger} {c : Call} {log : List Deed}

/-- What a backend answers, some depot with the same records answers. -/
theorem exists_answers (b : Backend) (c : Call) : ∃ (d d' : Depot) (change : Option Change),
    d.records = b.records ∧ d.Answers c (b.answer c).1 change d' := by
  have hserved : ∀ texts : Key → Option String,
      ((⟨b.records, texts, []⟩ : Depot).serve (b.tokens b.drawn) b.now c).1 = (b.answer c).1 →
        ∃ (d d' : Depot) (change : Option Change),
          d.records = b.records ∧ d.Answers c (b.answer c).1 change d' := fun texts heq =>
    ⟨⟨b.records, texts, []⟩, _, _, rfl,
      Depot.answers_of_serve (fun _ => List.not_mem_nil) (Prod.ext heq rfl)⟩
  have hfailed : ∀ e, c.isOfRecords = false → c.failure? e = some (b.answer c).1 →
      ∃ (d d' : Depot) (change : Option Change),
        d.records = b.records ∧ d.Answers c (b.answer c).1 change d' := fun e hrecords hfailure =>
    ⟨⟨b.records, fun _ => none, []⟩, _, _, rfl, Depot.answers_of_failure hrecords hfailure⟩
  -- the depot has the text that is asked for, or the call fails there
  cases c with
  | writeText key text =>
    rcases hanswer : (b.answer (.writeText key text)).1 with e | ⟨⟩
    · exact hanswer ▸ hfailed e rfl (congrArg some hanswer.symm)
    · exact hanswer ▸ hserved (fun _ => none) hanswer.symm
  | readText key =>
    rcases hanswer : (b.answer (.readText key)).1 with e | text
    · exact hanswer ▸ hfailed e rfl (congrArg some hanswer.symm)
    · exact hanswer ▸ hserved (fun _ => some text) hanswer.symm
  | removeText key =>
    rcases hanswer : (b.answer (.removeText key)).1 with e | ⟨⟩
    · exact hanswer ▸ hfailed e rfl (congrArg some hanswer.symm)
    · exact hanswer ▸ hserved (fun _ => some "") hanswer.symm
  | _ => exact hserved (fun _ => none) rfl

/-! ### What was drawn and stored in between -/

/-- The record is stored. -/
def Stores (b : Backend) (r : Record) : Prop :=
  b.records.find? r.name (some r.version) = some r

instance (b : Backend) (r : Record) : Decidable (b.Stores r) :=
  inferInstanceAs (Decidable (_ = _))

/-- The key bears a token that was drawn, but not one of the first. -/
def Marks (b : Backend) (first : Nat) (key : Key) : Prop :=
  ∃ i, first ≤ i ∧ i < b.drawn ∧ Bears key (b.tokens i)

/-- A backend that has come from another one: what is stored was stored there, or bears tokens
that were drawn since. -/
structure Later (b b' : Backend) : Prop where
  tokens : b'.tokens = b.tokens
  drawn : b.drawn ≤ b'.drawn
  records : ∀ r, b'.Stores r → b.Stores r ∨ ∀ key ∈ r.keys, b'.Marks b.drawn key

theorem Later.refl (b : Backend) : Later b b :=
  ⟨rfl, Nat.le_refl _, fun _ hr => Or.inl hr⟩

/-- A key that bears a token drawn before still does when more are drawn. -/
theorem Marks.mono {first first' : Nat} {key : Key} (h : b.Marks first' key)
    (hfirst : first ≤ first') (htokens : b'.tokens = b.tokens) (hdrawn : b.drawn ≤ b'.drawn) :
    b'.Marks first key := by
  obtain ⟨i, hle, hlt, hbears⟩ := h
  refine ⟨i, Nat.le_trans hfirst hle, Nat.lt_of_lt_of_le hlt hdrawn, ?_⟩
  rw [htokens]
  exact hbears

theorem Later.trans (h : Later b b') (h' : Later b' b'') : Later b b'' where
  tokens := h'.tokens.trans h.tokens
  drawn := Nat.le_trans h.drawn h'.drawn
  records r hr := by
    rcases h'.records r hr with hr | hmarks
    · rcases h.records r hr with hr | hmarks
      · exact Or.inl hr
      · exact Or.inr fun key hkey => (hmarks key hkey).mono (Nat.le_refl _) h'.tokens h'.drawn
    · exact Or.inr fun key hkey => (hmarks key hkey).mono h.drawn rfl (Nat.le_refl _)

/-! ### One errand -/

/-- A client on its way that has begun in the backend `b`: its hand has tokens drawn since, and
texts that bear them. -/
structure Underway (b : Backend) (log : List Deed) (b' : Backend) : Prop extends Later b b' where
  sound : b'.records.Sound
  blank : ∀ token, (hand log).blank = some token →
    ∃ i, b.drawn ≤ i ∧ i < b'.drawn ∧ b'.tokens i = token
  held : ∀ ref ∈ (hand log).held, b'.Marks b.drawn ref.key

/-- One more call: what is newly in hand, and what is newly stored, bears tokens drawn since. -/
theorem Underway.append {deed : Deed} (h : Underway b log b') (htokens : b''.tokens = b'.tokens)
    (hdrawn : b'.drawn ≤ b''.drawn) (hsound : b''.records.Sound)
    (hrecords : ∀ r, b''.Stores r → b'.Stores r ∨ ∀ key ∈ r.keys, b'.Marks b.drawn key)
    (hblank : ∀ token, ((hand log).note deed.call deed.answer).blank = some token →
      (hand log).blank = some token ∨ ∃ i, b.drawn ≤ i ∧ i < b''.drawn ∧ b''.tokens i = token)
    (hheld : ∀ ref ∈ ((hand log).note deed.call deed.answer).held,
      ref ∈ (hand log).held ∨ b'.Marks b.drawn ref.key) :
    Underway b (log ++ [deed]) b'' where
  tokens := htokens.trans h.tokens
  drawn := Nat.le_trans h.drawn hdrawn
  records r hr := by
    have hmono : (∀ key ∈ r.keys, b'.Marks b.drawn key) → ∀ key ∈ r.keys, b''.Marks b.drawn key :=
      fun hmarks key hkey => (hmarks key hkey).mono (Nat.le_refl _) htokens hdrawn
    rcases hrecords r hr with hr | hmarks
    · exact (h.records r hr).imp id hmono
    · exact Or.inr (hmono hmarks)
  sound := hsound
  blank token htoken := by
    rw [hand_append] at htoken
    rcases hblank token htoken with hold | hnew
    · obtain ⟨i, hle, hlt, htoken⟩ := h.blank token hold
      refine ⟨i, hle, Nat.lt_of_lt_of_le hlt hdrawn, ?_⟩
      rw [htokens]
      exact htoken
    · exact hnew
  held ref href := by
    rw [hand_append] at href
    exact ((hheld ref href).elim (h.held ref) id).mono (Nat.le_refl _) htokens hdrawn

/-- A call that changes no record, and leaves the hand as it is. -/
theorem Underway.still {deed : Deed} (h : Underway b log b')
    (hnote : (hand log).note deed.call deed.answer = hand log) :
    Underway b (log ++ [deed]) b' :=
  h.append rfl (Nat.le_refl _) h.sound (fun _ hr => Or.inl hr)
    (fun token htoken => Or.inl (by rwa [hnote] at htoken))
    fun ref href => Or.inl (by rwa [hnote] at href)

/-- An insert leaves the hand as it is, or with less. -/
theorem note_enroll (hand : Hand) (r : Record) (expected : Option Version)
    (answer : Except StoreError Unit) :
    (hand.note (.enroll r expected) answer).blank = hand.blank ∧
      ∀ ref ∈ (hand.note (.enroll r expected) answer).held, ref ∈ hand.held := by
  rw [Hand.note]
  split
  · exact ⟨rfl, fun ref href => by cases href⟩
  · exact ⟨rfl, fun ref href => href⟩

/-- A removal leaves the token in hand and the texts that are held. -/
theorem note_remove (hand : Hand) (name : AlgorithmName) (version : Option Version)
    (answer : Except StoreError (Option Record)) :
    (hand.note (.remove name version) answer).blank = hand.blank ∧
      (hand.note (.remove name version) answer).held = hand.held := by
  rcases answer with e | - | r
  · exact ⟨rfl, rfl⟩
  · exact ⟨rfl, rfl⟩
  · exact ⟨rfl, rfl⟩

/-- **Every call that a client may make keeps it on its way.** -/
theorem Underway.call (h : Underway b log b') (hc : Permits log c) (change : Option Change) :
    Underway b (log ++ [⟨c, (b'.answer c).1, change⟩]) (b'.answer c).2 := by
  cases c with
  | latest name => exact h.still rfl
  | find name version => exact h.still rfl
  | newest => exact h.still rfl
  | readText key => exact h.still rfl
  | readClock => exact h.still rfl
  | removeText key =>
    exact h.append rfl (Nat.le_refl _) h.sound (fun _ hr => Or.inl hr)
      (fun _ htoken => Or.inl htoken) fun ref href => Or.inl (List.mem_filter.mp href).1
  | drawToken =>
    refine h.append rfl (Nat.le_succ _) h.sound (fun _ hr => Or.inl hr) (fun token htoken => ?_)
      fun ref href => Or.inl href
    exact Or.inr ⟨b'.drawn, h.drawn, Nat.lt_succ_self _, Option.some.inj htoken⟩
  | writeText key text =>
    obtain ⟨token, hblank, hbears⟩ := hc
    obtain ⟨i, hle, hlt, rfl⟩ := h.blank token hblank
    rcases hanswer : (b'.answer (.writeText key text)).1 with e | ⟨⟩
    · exact h.append rfl (Nat.le_refl _) h.sound (fun _ hr => Or.inl hr)
        (fun _ htoken => by cases htoken) fun ref href => Or.inl href
    · refine h.append rfl (Nat.le_refl _) h.sound (fun _ hr => Or.inl hr)
        (fun _ htoken => by cases htoken) fun ref href => ?_
      rcases List.mem_append.mp href with href | href
      · exact Or.inl href
      · rw [List.mem_singleton.mp href]
        exact Or.inr ⟨i, hle, hlt, hbears⟩
  | enroll r expected =>
    obtain ⟨hblank, hheld⟩ := note_enroll (hand log) r expected (b'.answer (.enroll r expected)).1
    have hrefs : r.refs = (hand log).held := hc
    rcases h.sound.enroll_cases r expected with ⟨-, hnext, henroll⟩ | ⟨-, henroll⟩
    · have hadded : (b'.answer (.enroll r expected)).2 = { b' with records := b'.records.add r } := by
        rw [answer, henroll]
      rw [hadded]
      refine h.append rfl (Nat.le_refl _) (h.sound.add hnext) (fun r' hr' => ?_)
        (fun token htoken => Or.inl (hblank ▸ htoken)) fun ref href => Or.inl (hheld ref href)
      rw [Stores, Catalog.find?_add h.sound hnext] at hr'
      split at hr'
      · -- the new record refers to the texts that were held
        obtain rfl := Option.some.inj hr'
        refine Or.inr fun key hkey => ?_
        rw [Record.keys_eq, hrefs] at hkey
        obtain ⟨ref, href, rfl⟩ := List.mem_map.mp hkey
        exact h.held ref href
      · exact Or.inl hr'
    · have hsame : (b'.answer (.enroll r expected)).2 = b' := by
        rw [answer, henroll]
      rw [hsame]
      exact h.append rfl (Nat.le_refl _) h.sound (fun _ hr => Or.inl hr)
        (fun token htoken => Or.inl (hblank ▸ htoken)) fun ref href => Or.inl (hheld ref href)
  | remove name version =>
    obtain ⟨hblank, hheld⟩ :=
      note_remove (hand log) name version (b'.answer (.remove name version)).1
    have hsound : (b'.answer (.remove name version)).2.records.Sound ∧
        ∀ r, (b'.answer (.remove name version)).2.Stores r → b'.Stores r := by
      rw [answer]
      rcases h.sound.remove_cases name version with ⟨-, hremove⟩ | ⟨r, -, -, hremove⟩
      · rw [hremove]
        exact ⟨h.sound, fun _ hr => hr⟩
      · rw [hremove]
        refine ⟨h.sound.drop _ _, fun r' hr' => ?_⟩
        rw [Stores, Catalog.find?_drop] at hr'
        split at hr'
        · cases hr'
        · exact hr'
    exact h.append rfl (Nat.le_refl _) hsound.1 (fun r hr => Or.inl (hsound.2 r hr))
      (fun token htoken => Or.inl (hblank ▸ htoken)) fun ref href => Or.inl (hheld ▸ href)

/-- A client that keeps to what it is permitted stays on its way to the end. -/
theorem Underway.run {α : Type} {Q : α → List Deed → Prop} {p : Program α}
    (hp : Abides Permits Logged Q p log) (h : Underway b log b') :
    ∃ log', Underway b log' (b'.run p).2 := by
  induction p generalizing log b' with
  | done a => exact ⟨log, h⟩
  | ask c next ih =>
    obtain ⟨d, d', change, hrecords, hanswers⟩ := exists_answers b' c
    have hlogged : Logged log c (b'.answer c).1 (log ++ [⟨c, (b'.answer c).1, change⟩]) :=
      ⟨d, d', change, hrecords ▸ h.sound, hanswers, rfl⟩
    exact ih _ (hp.2 _ _ hlogged) (h.call hp.1 change)

/-- An errand leads to a later backend. -/
theorem later_errand (hsound : b.records.Sound) (errand : Errand) :
    Later b (b.run errand.program).2 := by
  have hstart : Underway b [] b :=
    { Later.refl b with
      sound := hsound
      blank := fun _ hblank => nomatch hblank
      held := fun _ href => nomatch href }
  obtain ⟨log, hend⟩ := hstart.run (abides_program errand)
  exact hend.toLater

/-! ### Requests one after the other -/

/-- A request leads to a later backend. -/
theorem Models.later_serve (h : b.Models l) (now : Time.Moment) (request : Request) :
    Later b (b.serve now request).2 := by
  have hat : Later b { b with now := now } := ⟨rfl, Nat.le_refl _, fun _ hr => Or.inl hr⟩
  cases request with
  | change errand => exact hat.trans (later_errand (b := { b with now := now }) h.records errand)
  | list => exact hat
  | retrieve name version =>
    rw [Backend.serve, Backend.run, (h.at now).run_retrieve name version]
    exact hat

/-- **Requests lead to a later backend.** -/
theorem Models.later_serveAll (h : b.Models l) (requests : List (Time.Moment × Request)) :
    Later b (b.serveAll requests).2 := by
  induction requests generalizing b l with
  | nil => exact .refl b
  | cons timed requests ih =>
    obtain ⟨now, request⟩ := timed
    exact (h.later_serve now request).trans (ih (h.serve now request).2)

/-! ### Records that go and records that stay -/

/-- No token was drawn twice. -/
def Distinct (b : Backend) : Prop :=
  ∀ i < b.drawn, ∀ j < b.drawn, b.tokens i = b.tokens j → i = j

/-- What was drawn later was drawn before as well. -/
theorem Distinct.earlier (h : b'.Distinct) (hlater : Later b b') : b.Distinct := by
  intro i hi j hj heq
  rw [← hlater.tokens] at heq
  exact h i (Nat.lt_of_lt_of_le hi hlater.drawn) j (Nat.lt_of_lt_of_le hj hlater.drawn) heq

/-- A key that bears a token drawn before bears none that was drawn later. -/
theorem Later.not_marks (h : Later b b') (hdistinct : b'.Distinct) {key key' : Key}
    (hkey : b.Marks 0 key) (hkey' : b'.Marks b.drawn key') : key' ≠ key := by
  rintro rfl
  obtain ⟨i, -, hi, hbears⟩ := hkey
  obtain ⟨j, hle, hj, hbears'⟩ := hkey'
  rw [← h.tokens] at hbears
  have hsame : i = j :=
    hdistinct i (Nat.lt_of_lt_of_le hi h.drawn) j hj (bears_inj hbears hbears')
  omega

/-- The keys of everything that is stored bear tokens that were drawn. -/
def Marked (b : Backend) : Prop :=
  ∀ r, b.Stores r → ∀ key ∈ r.keys, b.Marks 0 key

/-- What a fresh backend leads to is marked. -/
theorem marked_of_later {tokens : Nat → Token} {start : Time.Moment} {root : Root}
    (h : Later (fresh tokens start root) b) : b.Marked := by
  intro r hr
  rcases h.records r hr with hnone | hmarks
  · cases hnone
  · exact hmarks

theorem Marked.later (h : b.Marked) (hlater : Later b b') : b'.Marked := by
  intro r hr key hkey
  rcases hlater.records r hr with hold | hmarks
  · exact (h r hold key hkey).mono (Nat.le_refl _) hlater.tokens hlater.drawn
  · exact (hmarks key hkey).mono (Nat.zero_le _) rfl (Nat.le_refl _)

/-- **A record that is gone does not come back.** -/
theorem Later.not_stores (h : Later b b') (hdistinct : b'.Distinct) {r : Record}
    (hmarks : ∀ key ∈ r.keys, b.Marks 0 key) (hgone : ¬ b.Stores r) : ¬ b'.Stores r := by
  intro hr
  rcases h.records r hr with hold | hnew
  · exact hgone hold
  · have hmain : r.main.artifact.key ∈ r.keys := List.mem_cons_self
    exact h.not_marks hdistinct (hmarks _ hmain) (hnew _ hmain) rfl

/-- **The paths of a record that is gone stay free.** -/
theorem Later.lookup_of_gone (h : Later b b') (hm : b.Models l) {l' : Ledger} (hm' : b'.Models l')
    (hmarked : b.Marked) (hdistinct : b'.Distinct) {r : Record} (hr : b.Stores r)
    (hgone : ¬ b'.Stores r) {key : Key} (hkey : key ∈ r.keys) {q : Path} (hlead : LeadsTo key q) :
    b'.files.files.lookup q = none := by
  rcases hl : b'.files.files.lookup q with - | content
  · rfl
  · -- the file would belong to another record, by a key with the same token
    obtain ⟨r', hr', key', hkey', hlead'⟩ := hm'.owned q content hl
    obtain ⟨e, -, -, hkeeps⟩ := hm.entry hr
    obtain ⟨role, token, rfl⟩ := hkeeps.fresh key hkey
    obtain ⟨e', -, -, hkeeps'⟩ := hm'.entry hr'
    obtain ⟨role', token', rfl⟩ := hkeeps'.fresh key' hkey'
    have hpath := (leadsTo_fresh_iff.mp hlead).symm.trans (leadsTo_fresh_iff.mp hlead')
    obtain ⟨hname, hversion, hrole, htoken⟩ := freshPath_inj hpath
    rcases h.records r' hr' with hold | hnew
    · rw [Stores, ← hname, ← hversion] at hold
      rw [Stores] at hr
      rw [hr] at hold
      exact absurd (Option.some.inj hold ▸ hr') hgone
    · refine absurd ?_ (h.not_marks hdistinct (hmarked r hr _ hkey) (hnew _ hkey'))
      rw [hname, hversion, hrole, htoken]

end Backend

/-- The version behind the latest one is free. -/
theorem Ledger.find?_following {l : Ledger} {name : AlgorithmName} {v : Version}
    (hv : Version.following (l.latest? name) = .ok v) : l.find? name v = none := by
  rcases hlatest : l.latest? name with - | last
  · exact Ledger.latest?_eq_none_iff.mp hlatest v
  · rw [hlatest, Version.following, Version.next] at hv
    split at hv
    · rcases he : l.find? name v with - | e
      · rfl
      · cases hv
        have hle := (Ledger.latest?_eq_some_iff.mp hlatest).2 _ (by rw [he]; rfl)
        exact absurd hle (Nat.not_succ_le_self _)
    · cases hv

/-- An entry that is still there is the one that was there. -/
theorem Ledger.find?_change {l : Ledger} {now : Time.Moment} {errand : Errand}
    {name : AlgorithmName} {v : Version} {e e' : Entry} (he : l.find? name v = some e)
    (he' : (l.change now errand).2.find? name v = some e') : e' = e := by
  have hsame : l.find? name v = some e' → e' = e := fun heq =>
    Option.some.inj (heq.symm.trans he)
  rcases hresult : (l.change now errand).1 with fault | ⟨v', entry⟩
  · rw [Ledger.change_error hresult] at he'
    exact hsame he'
  · rcases hdraft : errand.draft? with - | draft
    · cases errand with
      | delete target version => exact hsame (Ledger.find?_change_delete he')
      | _ => cases hdraft
    · obtain ⟨hnext, -, hset⟩ := Ledger.change_ok hdraft hresult
      rw [hset, Ledger.find?_set_cons] at he'
      split at he'
      · next hnew =>
        rw [hnew.1, hnew.2, Ledger.find?_following hnext] at he
        cases he
      · exact hsame he'

namespace Backend

variable {b : Backend} {l : Ledger}

/-- **A record that is still stored has the entry that it had.** -/
theorem Models.find?_serveAll (h : b.Models l) (hmarked : b.Marked) {r : Record}
    (hr : b.Stores r) {e : Entry} (he : l.find? r.name r.version = some e)
    (requests : List (Time.Moment × Request)) (hdistinct : (b.serveAll requests).2.Distinct)
    (hstays : (b.serveAll requests).2.Stores r) :
    (l.serveAll requests).2.find? r.name r.version = some e := by
  induction requests generalizing b l with
  | nil => exact he
  | cons timed requests ih =>
    obtain ⟨now, request⟩ := timed
    have hserved := (h.serve now request).2
    have hfirst := h.later_serve now request
    have hlater : Later (b.serve now request).2 ((b.serve now request).2.serveAll requests).2 :=
      hserved.later_serveAll requests
    have hmarks : ∀ key ∈ r.keys, (b.serve now request).2.Marks 0 key := fun key hkey =>
      (hmarked r hr key hkey).mono (Nat.le_refl _) hfirst.tokens hfirst.drawn
    have hthere : (b.serve now request).2.Stores r := by
      by_contra hgone
      exact hlater.not_stores hdistinct hmarks hgone hstays
    obtain ⟨e', he', -⟩ := hserved.entry hthere
    have hsame : e' = e := by
      cases request with
      | change errand => exact Ledger.find?_change he he'
      | list => exact Option.some.inj (he'.symm.trans he)
      | retrieve name version => exact Option.some.inj (he'.symm.trans he)
    exact ih hserved (hmarked.later hfirst) hthere (hsame ▸ he') hdistinct hstays

end Backend

end ScriptRegistry.Store
