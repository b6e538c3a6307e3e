/-
ScriptRegistry/Proofs/Keeping.lean

What every permitted call keeps: the texts of stored records.

The invariant (`Kept`) is about keys.  Each has at most one owner, a stored record
or a client, and only the owner may have its text removed; and each bears a token
that was drawn, so that a key that was written once is not written again.

A key passes from client to record by an insert and back by a removal.  An insert
that failed, and may have been done, takes the keys away from the client: then they
may be nobody's, and their texts stay for good, but no record loses its own.

Main result: `Kept.call`.
-/
import ScriptRegistry.Proofs.Deeds
import ScriptRegistry.Proofs.Keys

namespace ScriptRegistry.Store

open Artifact
open Program (Abides)

/-! ### Keys and their owners -/

/-- A key bears one token. -/
theorem bears_inj {key : Key} {token token' : Token} (h : Bears key token)
    (h' : Bears key token') : token = token' := by
  obtain ⟨name, version, role, rfl⟩ := h
  obtain ⟨name', version', role', heq⟩ := h'
  have hpath : freshPath name version role token = freshPath name' version' role' token' :=
    leadsTo_fresh_iff.mp (heq ▸ leadsTo_fresh_iff.mpr rfl)
  exact (freshPath_inj hpath).2.2.2

/-- The logs of all clients. -/
abbrev Logs := Nat → List Deed

/-- A client has made one more call. -/
def Logs.extend (logs : Logs) (i : Nat) (deed : Deed) : Logs :=
  Function.update logs i (logs i ++ [deed])

/-- The record is stored. -/
def Depot.Stores (d : Depot) (r : Record) : Prop :=
  d.records.find? r.name (some r.version) = some r

/-- The text of a reference is there, and it is the one that the digest was made of. -/
def Depot.Stands (d : Depot) (ref : TextRef) : Prop :=
  ∃ text, d.texts ref.key = some text ∧ Digest.ofText text = ref.digest

/-- Those who may have a text removed. -/
inductive Owner
  | record (r : Record)
  | client (i : Nat)

/-- The key is one of a stored record, or a client's own. -/
def Owner.Has (d : Depot) (logs : Logs) : Owner → Key → Prop
  | .record r, key => d.Stores r ∧ key ∈ r.keys
  | .client i, key => key ∈ (hand (logs i)).own

/-- A text was written under the key. -/
def Used (logs : Logs) (key : Key) : Prop :=
  ∃ i, key ∈ written (logs i)

/-- A removal of the text has failed. -/
def Stuck (log : List Deed) (key : Key) : Prop :=
  ∃ e change, (⟨.removeText key, .error e, change⟩ : Deed) ∈ log

/-- The key was left to others with a record. -/
def Entrusted (log : List Deed) (key : Key) : Prop :=
  ∃ deed ∈ log, ∃ r, deed.call.entrusted? deed.answer = some r ∧ key ∈ r.keys

/-- What has become of a text that a client has written. -/
def Accounted (d : Depot) (log : List Deed) (key : Key) : Prop :=
  (∃ ref ∈ (hand log).held, ref.key = key) ∨ d.texts key = none ∨ Stuck log key ∨
    Entrusted log key

/-- The order among keys and tokens: a key has one owner at most, and bears a token that was
drawn, if it was ever used; a token in hand is in one hand only, and no key bears it yet. -/
structure Orderly (d : Depot) (logs : Logs) : Prop where
  alone : ∀ o o' key, Owner.Has d logs o key → Owner.Has d logs o' key → o = o'
  traced : ∀ o key, Owner.Has d logs o key → Used logs key
  borne : ∀ key, Used logs key → ∃ token ∈ d.drawn, Bears key token
  blank : ∀ i token, (hand (logs i)).blank = some token → token ∈ d.drawn ∧
    (∀ j, (hand (logs j)).blank = some token → j = i) ∧ ∀ key, Used logs key → ¬ Bears key token

/-- The invariant of all calls. -/
structure Kept (d : Depot) (logs : Logs) : Prop extends Orderly d logs where
  catalog : d.records.Sound
  stored : ∀ r, d.Stores r → ∀ ref ∈ r.refs, d.Stands ref
  held : ∀ i, ∀ ref ∈ (hand (logs i)).held, d.Stands ref
  left : ∀ i, ∀ key ∈ written (logs i), Accounted d (logs i) key

theorem kept_empty : Kept .empty fun _ => [] where
  catalog := Catalog.sound_empty
  stored _ hr := by cases hr
  held _ _ href := by cases href
  alone o _ _ ho := by
    cases o with
    | record r => cases ho.1
    | client i => cases ho
  traced o _ ho := by
    cases o with
    | record r => cases ho.1
    | client i => cases ho
  borne _ hused := by
    obtain ⟨_, hmem⟩ := hused
    cases hmem
  blank _ _ hblank := by cases hblank
  left _ _ hkey := by cases hkey

section Extend

variable {d d' : Depot} {logs : Logs} {i : Nat} {deed : Deed}

theorem extend_self (logs : Logs) (i : Nat) (deed : Deed) :
    logs.extend i deed i = logs i ++ [deed] :=
  Function.update_self ..

theorem extend_other (logs : Logs) (deed : Deed) {j : Nat} (hj : j ≠ i) :
    logs.extend i deed j = logs j :=
  Function.update_of_ne hj ..

/-- What holds of all clients holds of the one that has made a call and of the others. -/
theorem forall_extend {P : Nat → List Deed → Prop} (hself : P i (logs i ++ [deed]))
    (hother : ∀ j, j ≠ i → P j (logs j)) (j : Nat) : P j (logs.extend i deed j) := by
  by_cases hj : j = i
  · rw [hj, extend_self]
    exact hself
  · rw [extend_other logs deed hj]
    exact hother j hj

theorem used_extend_iff {key : Key} :
    Used (logs.extend i deed) key ↔
      Used logs key ∨ deed.call.written? deed.answer = some key := by
  constructor
  · rintro ⟨j, hmem⟩
    by_cases hj : j = i
    · rw [hj, extend_self, written_append, List.mem_append, Option.mem_toList] at hmem
      exact hmem.imp (fun h => ⟨i, h⟩) id
    · rw [extend_other logs deed hj] at hmem
      exact Or.inl ⟨j, hmem⟩
  · rintro (⟨j, hmem⟩ | hnew)
    · refine ⟨j, ?_⟩
      by_cases hj : j = i
      · rw [hj] at hmem
        rw [hj, extend_self, written_append]
        exact List.mem_append_left _ hmem
      · rw [extend_other logs deed hj]
        exact hmem
    · refine ⟨i, ?_⟩
      rw [extend_self, written_append]
      exact List.mem_append_right _ (Option.mem_toList.mpr hnew)

theorem Stuck.append {log : List Deed} {key : Key} (h : Stuck log key) (deed : Deed) :
    Stuck (log ++ [deed]) key := by
  obtain ⟨e, change, hmem⟩ := h
  exact ⟨e, change, List.mem_append_left _ hmem⟩

theorem Entrusted.append {log : List Deed} {key : Key} (h : Entrusted log key) (deed : Deed) :
    Entrusted (log ++ [deed]) key := by
  obtain ⟨other, hmem, hrest⟩ := h
  exact ⟨other, List.mem_append_left _ hmem, hrest⟩

theorem Accounted.of_texts {log : List Deed} {key : Key} (h : Accounted d log key)
    (htexts : d.texts key = none → d'.texts key = none) : Accounted d' log key :=
  h.imp id (Or.imp htexts id)

/-- A text that was accounted for still is if its reference is, and nothing was written. -/
theorem Accounted.append {log : List Deed} {key : Key} (h : Accounted d log key)
    (htexts : d.texts key = none → d'.texts key = none)
    (hheld : ∀ ref ∈ (hand log).held, ref.key = key → Accounted d' (log ++ [deed]) key) :
    Accounted d' (log ++ [deed]) key := by
  obtain ⟨ref, href, hkey⟩ | hgone | hstuck | hentrusted := h
  · exact hheld ref href hkey
  · exact Or.inr (Or.inl (htexts hgone))
  · exact Or.inr (Or.inr (Or.inl (hstuck.append deed)))
  · exact Or.inr (Or.inr (Or.inr (hentrusted.append deed)))

/-- A text that is held has an owner. -/
theorem has_of_held {j : Nat} {ref : TextRef} (href : ref ∈ (hand (logs j)).held) :
    Owner.Has d logs (.client j) ref.key :=
  mem_own_of_held href

/-- A text of a stored record has an owner. -/
theorem has_of_stored (logs : Logs) {r : Record} (hr : d.Stores r) {ref : TextRef}
    (href : ref ∈ r.refs) : Owner.Has d logs (.record r) ref.key := by
  refine ⟨hr, ?_⟩
  rw [Record.keys_eq]
  exact List.mem_map_of_mem href

/-- Nothing more is used after a call that writes nothing. -/
theorem used_extend (hwritten : deed.call.written? deed.answer = none) {key : Key} :
    Used (logs.extend i deed) key ↔ Used logs key := by
  rw [used_extend_iff, hwritten]
  exact or_iff_left fun hnone => by cases hnone

/-- Who may have a token in hand after a call. -/
theorem blank_extend {j : Nat} {token : Token}
    (h : (hand (logs.extend i deed j)).blank = some token) :
    (j = i ∧ (hand (logs i ++ [deed])).blank = some token) ∨
      (j ≠ i ∧ (hand (logs j)).blank = some token) := by
  by_cases hj : j = i
  · rw [hj, extend_self] at h
    exact Or.inl ⟨hj, h⟩
  · rw [extend_other logs deed hj] at h
    exact Or.inr ⟨hj, h⟩

theorem blank_of_extend
    (hblank : ∀ token, (hand (logs i ++ [deed])).blank = some token →
      (hand (logs i)).blank = some token) {j : Nat} {token : Token}
    (h : (hand (logs.extend i deed j)).blank = some token) :
    (hand (logs j)).blank = some token := by
  rcases blank_extend h with ⟨rfl, hnow⟩ | ⟨-, hold⟩
  · exact hblank token hnow
  · exact hold

/-- Who may own a key after a call. -/
theorem has_extend {o : Owner} {key : Key} (h : o.Has d' (logs.extend i deed) key) :
    (∃ r, o = .record r ∧ d'.Stores r ∧ key ∈ r.keys) ∨
      (o = .client i ∧ key ∈ (hand (logs i ++ [deed])).own) ∨
      ∃ j, j ≠ i ∧ o = .client j ∧ o.Has d logs key := by
  cases o with
  | record r => exact Or.inl ⟨r, rfl, h⟩
  | client j =>
    rw [Owner.Has] at h
    by_cases hj : j = i
    · rw [hj, extend_self] at h
      exact Or.inr (Or.inl ⟨by rw [hj], h⟩)
    · rw [extend_other logs deed hj] at h
      exact Or.inr (Or.inr ⟨j, hj, rfl, h⟩)

theorem has_of_extend (hstored : ∀ r, d'.Stores r → d.Stores r)
    (hown : ∀ key ∈ (hand (logs i ++ [deed])).own, key ∈ (hand (logs i)).own) {o : Owner}
    {key : Key} (h : o.Has d' (logs.extend i deed) key) : o.Has d logs key := by
  rcases has_extend (d := d) h with ⟨r, rfl, hr, hkey⟩ | ⟨rfl, hkey⟩ | ⟨j, -, -, hold⟩
  · exact ⟨hstored r hr, hkey⟩
  · exact hown key hkey
  · exact hold

/-- What was written is accounted for after a call that writes nothing. -/
theorem Kept.left_extend (h : Kept d logs) (hwritten : deed.call.written? deed.answer = none)
    (htexts : ∀ key, d.texts key = none → d'.texts key = none)
    (hheld : ∀ ref ∈ (hand (logs i)).held, Accounted d' (logs i ++ [deed]) ref.key) :
    ∀ j, ∀ key ∈ written (logs.extend i deed j), Accounted d' (logs.extend i deed j) key := by
  refine forall_extend (P := fun _ log => ∀ key ∈ written log, Accounted d' log key) ?_ ?_
  · intro key hkey
    rw [written_append, hwritten, Option.toList_none, List.append_nil] at hkey
    refine (h.left i key hkey).append (htexts key) fun ref href hsame => ?_
    rw [← hsame]
    exact hheld ref href
  · intro j _ key hkey
    exact (h.left j key hkey).of_texts (htexts key)

/-! ### Order among keys -/

/-- A token that was never drawn before is in nobody's hand and on no key. -/
theorem Orderly.draw (h : Orderly d logs) {token : Token} (hfresh : token ∉ d.drawn)
    {change : Option Change} :
    Orderly { d with drawn := token :: d.drawn } (logs.extend i ⟨.drawToken, token, change⟩) := by
  have hhand : hand (logs i ++ [⟨.drawToken, token, change⟩])
      = { hand (logs i) with blank := some token } := hand_append ..
  have hused : ∀ {key}, Used (logs.extend i ⟨.drawToken, token, change⟩) key ↔ Used logs key :=
    used_extend rfl
  have hhas : ∀ {o : Owner} {key}, o.Has { d with drawn := token :: d.drawn }
      (logs.extend i ⟨.drawToken, token, change⟩) key → o.Has d logs key :=
    has_of_extend (fun _ hr => hr) fun key hkey => by rwa [hhand] at hkey
  refine ⟨fun o o' key ho ho' => h.alone o o' key (hhas ho) (hhas ho'),
    fun o key ho => hused.mpr (h.traced o key (hhas ho)), fun key hkey => ?_,
    fun j token' hj => ?_⟩
  · obtain ⟨token', hdrawn, hbears⟩ := h.borne key (hused.mp hkey)
    exact ⟨token', List.mem_cons_of_mem _ hdrawn, hbears⟩
  · rcases blank_extend hj with ⟨rfl, hnow⟩ | ⟨-, hold⟩
    · rw [hhand] at hnow
      cases hnow
      refine ⟨List.mem_cons_self, fun k hk => ?_, fun key hkey hbears => ?_⟩
      · rcases blank_extend hk with ⟨rfl, -⟩ | ⟨-, hold⟩
        · rfl
        · exact absurd (h.blank k _ hold).1 hfresh
      · obtain ⟨token', hdrawn, hbears'⟩ := h.borne key (hused.mp hkey)
        rw [bears_inj hbears hbears'] at hfresh
        exact hfresh hdrawn
    · obtain ⟨hdrawn, honly, hunused⟩ := h.blank j token' hold
      refine ⟨List.mem_cons_of_mem _ hdrawn, fun k hk => ?_,
        fun key hkey => hunused key (hused.mp hkey)⟩
      rcases blank_extend hk with ⟨-, hnow⟩ | ⟨-, hold'⟩
      · rw [hhand] at hnow
        cases hnow
        exact absurd hdrawn hfresh
      · exact honly k hold'

/-- A key that bears a token in hand was never used. -/
theorem Orderly.ne_of_used (h : Orderly d logs) {key : Key} {token : Token}
    (hblank : (hand (logs i)).blank = some token) (hbears : Bears key token) {k : Key}
    (hk : Used logs k) : k ≠ key := by
  rintro rfl
  exact (h.blank i token hblank).2.2 k hk hbears

theorem hand_write (log : List Deed) (key : Key) (text : String) (change : Option Change) :
    hand (log ++ [⟨.writeText key text, .ok (), change⟩])
      = ⟨none, (hand log).own ++ [key], (hand log).held ++ [⟨key, .ofText text⟩]⟩ :=
  hand_append ..

/-- The key of a new text is used up, and so is its token. -/
theorem Orderly.write (h : Orderly d logs) {key : Key} {text : String} {token : Token}
    (hblank : (hand (logs i)).blank = some token) (hbears : Bears key token)
    {change : Option Change} :
    Orderly { d with texts := Function.update d.texts key (some text) }
      (logs.extend i ⟨.writeText key text, .ok (), change⟩) := by
  have hnew : ∀ {k}, Used logs k → k ≠ key := h.ne_of_used hblank hbears
  have hused : ∀ {k}, Used (logs.extend i ⟨.writeText key text, .ok (), change⟩) k ↔
      Used logs k ∨ key = k :=
    used_extend_iff.trans (or_congr_right Option.some_inj)
  have hhas : ∀ {o : Owner} {k}, o.Has { d with texts := Function.update d.texts key (some text) }
      (logs.extend i ⟨.writeText key text, .ok (), change⟩) k →
      o.Has d logs k ∨ o = .client i ∧ k = key := by
    intro o k ho
    rcases has_extend (d := d) ho with ⟨r, rfl, hr⟩ | ⟨rfl, hk⟩ | ⟨j, -, -, hold⟩
    · exact Or.inl hr
    · rw [hand_write, List.mem_append, List.mem_singleton] at hk
      exact hk.imp id fun hk => ⟨rfl, hk⟩
    · exact Or.inl hold
  have hother : ∀ {j token'}, (hand (logs.extend i ⟨.writeText key text, .ok (), change⟩ j)).blank
      = some token' → j ≠ i ∧ (hand (logs j)).blank = some token' := by
    intro j token' hj
    rcases blank_extend hj with ⟨-, hnow⟩ | hold
    · rw [hand_write] at hnow
      cases hnow
    · exact hold
  obtain ⟨hdrawn, honly, -⟩ := h.blank i token hblank
  refine ⟨fun o o' k ho ho' => ?_, fun o k ho => ?_, fun k hk => ?_, fun j token' hj => ?_⟩
  · rcases hhas ho with ho | ⟨rfl, hk⟩
    · rcases hhas ho' with ho' | ⟨-, hk⟩
      · exact h.alone o o' k ho ho'
      · exact absurd hk (hnew (h.traced o k ho))
    · rcases hhas ho' with ho' | ⟨rfl, -⟩
      · exact absurd hk (hnew (h.traced o' k ho'))
      · rfl
  · rcases hhas ho with ho | ⟨-, rfl⟩
    · exact hused.mpr (Or.inl (h.traced o k ho))
    · exact hused.mpr (Or.inr rfl)
  · rcases hused.mp hk with hk | rfl
    · exact h.borne k hk
    · exact ⟨token, hdrawn, hbears⟩
  · obtain ⟨hne, hold⟩ := hother hj
    obtain ⟨hdrawn', honly', hunused'⟩ := h.blank j token' hold
    refine ⟨hdrawn', fun k hk => honly' k (hother hk).2, fun k hk hbears' => ?_⟩
    rcases hused.mp hk with hk | rfl
    · exact hunused' k hk hbears'
    · rw [bears_inj hbears' hbears] at hold
      exact hne (honly j hold)

/-- A key that changes hands still has one owner. -/
theorem Orderly.pass (h : Orderly d logs) (giver taker : Owner) (hdrawn : d'.drawn = d.drawn)
    (hwritten : deed.call.written? deed.answer = none)
    (hblank : ∀ token, (hand (logs i ++ [deed])).blank = some token →
      (hand (logs i)).blank = some token)
    (hhas : ∀ {o : Owner} {key}, o.Has d' (logs.extend i deed) key →
      (o.Has d logs key ∧ o ≠ giver) ∨ (o = taker ∧ giver.Has d logs key)) :
    Orderly d' (logs.extend i deed) := by
  have hused : ∀ {key}, Used (logs.extend i deed) key ↔ Used logs key := used_extend hwritten
  have hold : ∀ {j token}, (hand (logs.extend i deed j)).blank = some token →
      (hand (logs j)).blank = some token := blank_of_extend hblank
  refine ⟨fun o o' key ho ho' => ?_, fun o key ho => ?_, fun key hkey => ?_,
    fun j token hj => ?_⟩
  · rcases hhas ho with ⟨ho, hne⟩ | ⟨rfl, hgiver⟩
    · rcases hhas ho' with ⟨ho', -⟩ | ⟨-, hgiver⟩
      · exact h.alone o o' key ho ho'
      · exact absurd (h.alone o giver key ho hgiver) hne
    · rcases hhas ho' with ⟨ho', hne'⟩ | ⟨rfl, -⟩
      · exact absurd (h.alone o' giver key ho' hgiver) hne'
      · rfl
  · rcases hhas ho with ⟨ho, -⟩ | ⟨-, hgiver⟩
    · exact hused.mpr (h.traced o key ho)
    · exact hused.mpr (h.traced giver key hgiver)
  · rw [hdrawn]
    exact h.borne key (hused.mp hkey)
  · obtain ⟨hmem, honly, hunused⟩ := h.blank j token (hold hj)
    rw [hdrawn]
    exact ⟨hmem, fun k hk => honly k (hold hk), fun key hkey => hunused key (hused.mp hkey)⟩

/-! ### Calls about texts -/

theorem Kept.draw (h : Kept d logs) {token : Token} (hfresh : token ∉ d.drawn)
    {change : Option Change} :
    Kept { d with drawn := token :: d.drawn } (logs.extend i ⟨.drawToken, token, change⟩) := by
  have hhand : hand (logs i ++ [⟨.drawToken, token, change⟩])
      = { hand (logs i) with blank := some token } := hand_append ..
  refine ⟨h.toOrderly.draw hfresh, h.catalog, h.stored, ?_,
    h.left_extend rfl (fun _ => id) fun ref href => Or.inl ⟨ref, by rwa [hhand], rfl⟩⟩
  refine forall_extend (P := fun _ log => ∀ ref ∈ (hand log).held, d.Stands ref) ?_
    fun j _ => h.held j
  rw [hhand]
  exact h.held i

/-- A text under a key with one's own token is written over none. -/
theorem Kept.write (h : Kept d logs) {key : Key} {text : String} {token : Token}
    (hblank : (hand (logs i)).blank = some token) (hbears : Bears key token)
    {change : Option Change} :
    Kept { d with texts := Function.update d.texts key (some text) }
      (logs.extend i ⟨.writeText key text, .ok (), change⟩) := by
  have htexts : ∀ k, Used logs k → Function.update d.texts key (some text) k = d.texts k :=
    fun k hk => Function.update_of_ne (h.ne_of_used hblank hbears hk) ..
  have hstands : ∀ (o : Owner) ref, o.Has d logs ref.key → d.Stands ref →
      Depot.Stands { d with texts := Function.update d.texts key (some text) } ref := by
    rintro o ref ho ⟨stored, hstored, hdigest⟩
    exact ⟨stored, (htexts _ (h.traced o _ ho)).trans hstored, hdigest⟩
  refine ⟨h.toOrderly.write hblank hbears, h.catalog, fun r hr ref href => ?_, ?_, ?_⟩
  · exact hstands (.record r) ref (has_of_stored (d := d) logs hr href) (h.stored r hr ref href)
  · refine forall_extend (P := fun _ log => ∀ ref ∈ (hand log).held,
      Depot.Stands { d with texts := Function.update d.texts key (some text) } ref)
      (fun ref href => ?_) fun j _ ref href => hstands _ ref (has_of_held href) (h.held j ref href)
    rw [hand_write, List.mem_append, List.mem_singleton] at href
    rcases href with href | rfl
    · exact hstands _ ref (has_of_held href) (h.held i ref href)
    · exact ⟨text, Function.update_self .., rfl⟩
  · refine forall_extend (P := fun _ log => ∀ k ∈ written log,
      Accounted { d with texts := Function.update d.texts key (some text) } log k)
      (fun k hk => ?_) fun j _ k hk => (h.left j k hk).of_texts (htexts k ⟨j, hk⟩).trans
    rw [written_append] at hk
    rcases List.mem_append.mp hk with hk | hk
    · refine (h.left i k hk).append (htexts k ⟨i, hk⟩).trans
        fun ref href hsame => Or.inl ⟨ref, ?_, hsame⟩
      rw [hand_write]
      exact List.mem_append_left _ href
    · obtain rfl : k = key := List.mem_singleton.mp hk
      refine Or.inl ⟨⟨k, .ofText text⟩, ?_, rfl⟩
      rw [hand_write]
      exact List.mem_append_right _ (List.mem_singleton.mpr rfl)

/-- The hand after a removal of a text, done or not. -/
theorem hand_removeText (log : List Deed) (key : Key) (answer : Except StoreError Unit)
    (change : Option Change) :
    hand (log ++ [⟨.removeText key, answer, change⟩])
      = { hand log with held := (hand log).held.filter (·.key ≠ key) } :=
  hand_append ..

/-- A text that is removed is nobody else's. -/
theorem Kept.drop (h : Kept d logs) {key : Key} (hkey : key ∈ (hand (logs i)).own)
    {change : Option Change} :
    Kept { d with texts := Function.update d.texts key none }
      (logs.extend i ⟨.removeText key, .ok (), change⟩) := by
  have hgone : Function.update d.texts key none key = none := Function.update_self ..
  have htexts : ∀ k, d.texts k = none → Function.update d.texts key none k = none := by
    intro k hk
    by_cases hsame : k = key
    · rw [hsame, hgone]
    · rw [Function.update_of_ne hsame, hk]
  -- a text of somebody else has another key
  have hstands : ∀ (o : Owner) ref, o ≠ .client i → o.Has d logs ref.key → d.Stands ref →
      Depot.Stands { d with texts := Function.update d.texts key none } ref := by
    rintro o ref hother ho ⟨text, htext, hdigest⟩
    refine ⟨text, (Function.update_of_ne (fun hsame => hother ?_) ..).trans htext, hdigest⟩
    rw [hsame] at ho
    exact h.alone o _ key ho hkey
  refine ⟨?_, h.catalog, fun r hr ref href => ?_, ?_, h.left_extend rfl htexts fun ref href => ?_⟩
  · refine h.toOrderly.pass (.client i) (.client i) rfl rfl
      (fun token htoken => by rwa [hand_removeText] at htoken) fun {o k} ho => ?_
    have hold : o.Has d logs k :=
      has_of_extend (fun _ hr => hr) (fun k hk => by rwa [hand_removeText] at hk) ho
    by_cases hself : o = .client i
    · rw [hself] at hold
      exact Or.inr ⟨hself, hold⟩
    · exact Or.inl ⟨hold, hself⟩
  · exact hstands (.record r) ref (fun hself => by cases hself)
      (has_of_stored (d := d) logs hr href) (h.stored r hr ref href)
  · refine forall_extend (P := fun _ log => ∀ ref ∈ (hand log).held,
      Depot.Stands { d with texts := Function.update d.texts key none } ref)
      (fun ref href => ?_) fun j hj ref href => hstands (.client j) ref ?_ (has_of_held href)
        (h.held j ref href)
    · rw [hand_removeText, List.mem_filter, decide_eq_true_eq] at href
      obtain ⟨text, htext, hdigest⟩ := h.held i ref href.1
      exact ⟨text, (Function.update_of_ne href.2 ..).trans htext, hdigest⟩
    · intro hself
      cases hself
      exact hj rfl
  · by_cases hsame : ref.key = key
    · rw [hsame]
      exact Or.inr (Or.inl hgone)
    · refine Or.inl ⟨ref, ?_, rfl⟩
      rw [hand_removeText, List.mem_filter, decide_eq_true_eq]
      exact ⟨href, hsame⟩

/-! ### Calls by which keys change hands -/

/-- A call by which one may give keys to another; there are no new texts and no new tokens,
and the client that calls is the only one that takes part. -/
structure Passes (d d' : Depot) (logs : Logs) (i : Nat) (deed : Deed) (giver taker : Owner) :
    Prop where
  catalog : d'.records.Sound
  texts : d'.texts = d.texts
  drawn : d'.drawn = d.drawn
  written : deed.call.written? deed.answer = none
  blank : ∀ token, (hand (logs i ++ [deed])).blank = some token →
    (hand (logs i)).blank = some token
  near : ∀ j, giver = .client j → j = i
  stored : ∀ r, d'.Stores r → (d.Stores r ∧ .record r ≠ giver) ∨
    (.record r = taker ∧ ∀ ref ∈ r.refs, giver.Has d logs ref.key ∧ d.Stands ref)
  own : ∀ key ∈ (hand (logs i ++ [deed])).own,
    (key ∈ (hand (logs i)).own ∧ .client i ≠ giver) ∨ (.client i = taker ∧ giver.Has d logs key)
  held : ∀ ref ∈ (hand (logs i ++ [deed])).held, ref ∈ (hand (logs i)).held
  left : ∀ ref ∈ (hand (logs i)).held, Accounted d' (logs i ++ [deed]) ref.key

/-- Whoever has a key after such a call had it before and is not the giver, or it is the
taker and the giver had it. -/
theorem Passes.has {giver taker : Owner} (hp : Passes d d' logs i deed giver taker) {o : Owner}
    {key : Key} (ho : o.Has d' (logs.extend i deed) key) :
    (o.Has d logs key ∧ o ≠ giver) ∨ (o = taker ∧ giver.Has d logs key) := by
  rcases has_extend (d := d) ho with ⟨r, rfl, hr, hkey⟩ | ⟨rfl, hkey⟩ | ⟨j, hj, rfl, hold⟩
  · rcases hp.stored r hr with ⟨hr, hne⟩ | ⟨htaker, hrefs⟩
    · exact Or.inl ⟨⟨hr, hkey⟩, hne⟩
    · rw [Record.keys_eq] at hkey
      obtain ⟨ref, href, rfl⟩ := List.mem_map.mp hkey
      exact Or.inr ⟨htaker, (hrefs ref href).1⟩
  · exact hp.own key hkey
  · exact Or.inl ⟨hold, fun hgiver => hj (hp.near j hgiver.symm)⟩

theorem Kept.pass (h : Kept d logs) (giver taker : Owner)
    (hp : Passes d d' logs i deed giver taker) : Kept d' (logs.extend i deed) := by
  have hstands : ∀ ref, d.Stands ref → d'.Stands ref := by
    rintro ref ⟨text, htext⟩
    exact ⟨text, by rwa [hp.texts]⟩
  refine ⟨h.toOrderly.pass giver taker hp.drawn hp.written hp.blank hp.has, hp.catalog,
    fun r hr ref href => hstands ref ?_, ?_,
    h.left_extend hp.written (fun key hkey => by rwa [hp.texts]) hp.left⟩
  · rcases hp.stored r hr with ⟨hr, -⟩ | ⟨-, hrefs⟩
    · exact h.stored r hr ref href
    · exact (hrefs ref href).2
  · exact forall_extend (P := fun _ log => ∀ ref ∈ (hand log).held, d'.Stands ref)
      (fun ref href => hstands ref (h.held i ref (hp.held ref href)))
      fun j _ ref href => hstands ref (h.held j ref href)

/-- The hand after an insert that leaves the record to others. -/
theorem hand_entrusted {r : Record} {expected : Option Version}
    {answer : Except StoreError Unit} (hgiven : (Call.enroll r expected).entrusted? answer = some r)
    (log : List Deed) (change : Option Change) :
    hand (log ++ [⟨.enroll r expected, answer, change⟩]) = ⟨(hand log).blank, [], []⟩ := by
  rw [hand_append, Hand.note, hgiven]
  rfl

theorem entrusted_last {r : Record} {expected : Option Version} {answer : Except StoreError Unit}
    (hgiven : (Call.enroll r expected).entrusted? answer = some r) {log : List Deed}
    {change : Option Change} {ref : TextRef} (href : ref ∈ r.refs) :
    Accounted d (log ++ [⟨.enroll r expected, answer, change⟩]) ref.key := by
  refine Or.inr (Or.inr (Or.inr ⟨_, List.mem_append_right _ (List.mem_singleton.mpr rfl), r,
    hgiven, ?_⟩))
  rw [Record.keys_eq]
  exact List.mem_map_of_mem href

/-- What is stored without a record was stored with it, and is another. -/
theorem stores_drop {r r' : Record}
    (hr' : Depot.Stores { d with records := d.records.drop r.name r.version } r') :
    d.Stores r' ∧ Owner.record r' ≠ .record r := by
  rw [Depot.Stores, Catalog.find?_drop] at hr'
  split at hr'
  · cases hr'
  · next hother =>
    refine ⟨hr', fun hsame => hother ?_⟩
    cases hsame
    exact ⟨rfl, rfl⟩

/-- The texts of a record that is inserted are its own from then on, whatever the client is
told. -/
theorem Kept.enroll (h : Kept d logs) {r : Record} {expected : Option Version}
    {answer : Except StoreError Unit} {change : Option Change}
    (hrefs : r.refs = (hand (logs i)).held) (hnext : d.records.IsNext r)
    (hgiven : (Call.enroll r expected).entrusted? answer = some r) :
    Kept { d with records := d.records.add r }
      (logs.extend i ⟨.enroll r expected, answer, change⟩) := by
  have hhand := hand_entrusted hgiven (logs i) change
  have hstored : ∀ r', Depot.Stores { d with records := d.records.add r } r' →
      d.Stores r' ∨ r' = r := by
    intro r' hr'
    rw [Depot.Stores, Catalog.find?_add h.catalog hnext] at hr'
    split at hr'
    · exact Or.inr (Option.some.inj hr').symm
    · exact Or.inl hr'
  refine h.pass (.client i) (.record r) {
    catalog := h.catalog.add hnext
    texts := rfl
    drawn := rfl
    written := rfl
    blank := fun token htoken => by rwa [hhand] at htoken
    near := fun j hj => by cases hj; rfl
    stored := fun r' hr' => ?_
    own := fun key hkey => by rw [hhand] at hkey; cases hkey
    held := fun ref href => by rw [hhand] at href; cases href
    left := fun ref href => ?_ }
  · rcases hstored r' hr' with hr' | rfl
    · exact Or.inl ⟨hr', fun hclient => by cases hclient⟩
    · refine Or.inr ⟨rfl, fun ref href => ?_⟩
      rw [hrefs] at href
      exact ⟨has_of_held href, h.held i ref href⟩
  · exact entrusted_last hgiven (by rwa [hrefs])

/-- The keys of a record that was taken out are the client's. -/
theorem Kept.recover (h : Kept d logs) {r : Record} {name : AlgorithmName}
    {version : Option Version} {change : Option Change} (hr : d.Stores r) :
    Kept { d with records := d.records.drop r.name r.version }
      (logs.extend i ⟨.remove name version, .ok (some r), change⟩) := by
  have hhand : hand (logs i ++ [⟨.remove name version, .ok (some r), change⟩])
      = { hand (logs i) with own := (hand (logs i)).own ++ r.keys } := hand_append ..
  refine h.pass (.record r) (.client i) {
    catalog := h.catalog.drop ..
    texts := rfl
    drawn := rfl
    written := rfl
    blank := fun token htoken => by rwa [hhand] at htoken
    near := fun j hj => by cases hj
    stored := fun r' hr' => Or.inl (stores_drop hr')
    own := fun key hkey => ?_
    held := fun ref href => by rwa [hhand] at href
    left := fun ref href => Or.inl ⟨ref, by rwa [hhand], rfl⟩ }
  rw [hhand, List.mem_append] at hkey
  rcases hkey with hkey | hkey
  · exact Or.inl ⟨hkey, fun hrecord => by cases hrecord⟩
  · exact Or.inr ⟨rfl, hr, hkey⟩

/-! ### Calls that give nothing -/

/-- Nobody gains by the call: no new record is there, and there is nothing new in hand. -/
theorem Kept.lose (h : Kept d logs) {records : Catalog} (hsound : records.Sound)
    (hstored : ∀ r, Depot.Stores { d with records := records } r → d.Stores r)
    (hwritten : deed.call.written? deed.answer = none)
    (hblank : ∀ token, (hand (logs i ++ [deed])).blank = some token →
      (hand (logs i)).blank = some token)
    (hown : ∀ key ∈ (hand (logs i ++ [deed])).own, key ∈ (hand (logs i)).own)
    (hheld : ∀ ref ∈ (hand (logs i ++ [deed])).held, ref ∈ (hand (logs i)).held)
    (hleft : ∀ ref ∈ (hand (logs i)).held,
      Accounted { d with records := records } (logs i ++ [deed]) ref.key) :
    Kept { d with records := records } (logs.extend i deed) :=
  h.pass (.client i) (.client i) {
    catalog := hsound
    texts := rfl
    drawn := rfl
    written := hwritten
    blank := hblank
    near := fun j hj => by cases hj; rfl
    stored := fun r hr => Or.inl ⟨hstored r hr, fun hclient => by cases hclient⟩
    own := fun key hkey => Or.inr ⟨rfl, hown key hkey⟩
    held := hheld
    left := hleft }

/-- A call that leaves the hand as it is, and adds no record. -/
theorem Kept.idle (h : Kept d logs) {records : Catalog} (hsound : records.Sound)
    (hstored : ∀ r, Depot.Stores { d with records := records } r → d.Stores r)
    (hwritten : deed.call.written? deed.answer = none)
    (hhand : hand (logs i ++ [deed]) = hand (logs i)) :
    Kept { d with records := records } (logs.extend i deed) := by
  refine h.lose hsound hstored hwritten ?_ ?_ ?_ fun ref href => Or.inl ⟨ref, ?_, rfl⟩
  · rw [hhand]
    exact fun _ => id
  · rw [hhand]
    exact fun _ => id
  · rw [hhand]
    exact fun _ => id
  · rw [hhand]
    exact href

/-- An insert that failed without an effect takes the texts away, too. -/
theorem Kept.abandon (h : Kept d logs) {r : Record} {expected : Option Version}
    {answer : Except StoreError Unit} {change : Option Change}
    (hrefs : r.refs = (hand (logs i)).held)
    (hgiven : (Call.enroll r expected).entrusted? answer = some r) :
    Kept d (logs.extend i ⟨.enroll r expected, answer, change⟩) := by
  have hhand := hand_entrusted hgiven (logs i) change
  refine h.lose h.catalog (fun _ hr => hr) rfl (fun token htoken => by rwa [hhand] at htoken)
    (fun key hkey => by rw [hhand] at hkey; cases hkey)
    (fun ref href => by rw [hhand] at href; cases href)
    fun ref href => entrusted_last hgiven (by rwa [hrefs])

/-- A text that was not written uses up the token. -/
theorem Kept.spoil (h : Kept d logs) {key : Key} {text : String} {e : StoreError}
    {change : Option Change} : Kept d (logs.extend i ⟨.writeText key text, .error e, change⟩) := by
  have hhand : hand (logs i ++ [⟨.writeText key text, .error e, change⟩])
      = { hand (logs i) with blank := none } := hand_append ..
  refine h.lose h.catalog (fun _ hr => hr) rfl
    (fun token htoken => by rw [hhand] at htoken; cases htoken)
    (fun key hkey => by rwa [hhand] at hkey) (fun ref href => by rwa [hhand] at href)
    fun ref href => Or.inl ⟨ref, ?_, rfl⟩
  rw [hhand]
  exact href

/-- A text that was not removed is stuck. -/
theorem Kept.stick (h : Kept d logs) {key : Key} {e : StoreError} {change : Option Change} :
    Kept d (logs.extend i ⟨.removeText key, .error e, change⟩) := by
  refine h.lose h.catalog (fun _ hr => hr) rfl
    (fun token htoken => by rwa [hand_removeText] at htoken)
    (fun k hk => by rwa [hand_removeText] at hk)
    (fun ref href => by rw [hand_removeText] at href; exact (List.mem_filter.mp href).1)
    fun ref href => ?_
  by_cases hsame : ref.key = key
  · rw [hsame]
    exact Or.inr (Or.inr (Or.inl ⟨e, change, List.mem_append_right _ (List.mem_singleton.mpr rfl)⟩))
  · refine Or.inl ⟨ref, ?_, rfl⟩
    rw [hand_removeText, List.mem_filter, decide_eq_true_eq]
    exact ⟨href, hsame⟩

/-! ### Every call -/

theorem entrusted_of_isIo {r : Record} {expected : Option Version} {e : StoreError}
    (hio : e.isIo = true) : (Call.enroll r expected).entrusted? (.error e) = some r := by
  cases e with
  | versionConflict name expected actual => cases hio
  | _ => rfl

theorem Kept.call_enroll (h : Kept d logs) {r : Record} {expected : Option Version}
    (hrefs : r.refs = (hand (logs i)).held) {answer : Except StoreError Unit}
    {change : Option Change} (ha : d.Answers (.enroll r expected) answer change d') :
    Kept d' (logs.extend i ⟨.enroll r expected, answer, change⟩) := by
  obtain ⟨rfl, -, hnext, rfl⟩ | ⟨⟨latest, rfl⟩, -, rfl⟩ | ⟨e, rfl, hio, hdone⟩ :=
    ha.enroll h.catalog
  · exact h.enroll hrefs hnext rfl
  · exact h.idle h.catalog (fun _ hr => hr) rfl (hand_append ..)
  · rcases hdone with ⟨-, rfl⟩ | ⟨-, hnext, rfl⟩
    · exact h.abandon hrefs (entrusted_of_isIo hio)
    · exact h.enroll hrefs hnext (entrusted_of_isIo hio)

theorem Kept.call_remove (h : Kept d logs) {name : AlgorithmName} {version : Option Version}
    {answer : Except StoreError (Option Record)} {change : Option Change}
    (ha : d.Answers (.remove name version) answer change d') :
    Kept d' (logs.extend i ⟨.remove name version, answer, change⟩) := by
  obtain ⟨rfl, -, rfl⟩ | ⟨⟨e, rfl⟩, -, rfl⟩ | ⟨r, rfl | ⟨e, rfl⟩, -, hr, rfl⟩ := ha.remove h.catalog
  · exact h.idle h.catalog (fun _ hr => hr) rfl (hand_append ..)
  · exact h.idle h.catalog (fun _ hr => hr) rfl (hand_append ..)
  · exact h.recover hr
  · -- the record is out, and its texts are nobody's
    exact h.idle (h.catalog.drop ..) (fun r' hr' => (stores_drop hr').1) rfl (hand_append ..)

/-- **A permitted call keeps the texts of stored records**, however it is answered. -/
theorem Kept.call (h : Kept d logs) {c : Call} (hc : Permits (logs i) c) {answer : c.Answer}
    {change : Option Change} (ha : d.Answers c answer change d') :
    Kept d' (logs.extend i ⟨c, answer, change⟩) := by
  have hstill : Depot.IsStill c → c.written? answer = none →
      hand (logs i ++ [⟨c, answer, change⟩]) = hand (logs i) →
      Kept d' (logs.extend i ⟨c, answer, change⟩) := by
    intro hc hwritten hhand
    obtain ⟨-, rfl⟩ := ha.still hc
    exact h.idle h.catalog (fun _ hr => hr) hwritten hhand
  cases c with
  | enroll r expected => exact h.call_enroll hc ha
  | remove name version => exact h.call_remove ha
  | writeText key text =>
    obtain ⟨token, hblank, hbears⟩ := hc
    obtain ⟨-, ⟨rfl, rfl⟩ | ⟨⟨e, rfl⟩, rfl⟩⟩ := ha.writeText
    · exact h.write hblank hbears
    · exact h.spoil
  | removeText key =>
    obtain ⟨-, ⟨rfl, rfl⟩ | ⟨⟨e, rfl⟩, rfl⟩⟩ := ha.removeText
    · exact h.drop hc
    · exact h.stick
  | drawToken =>
    obtain ⟨-, hfresh, rfl⟩ := ha.drawToken
    exact h.draw hfresh
  | latest name => exact hstill trivial rfl (hand_append ..)
  | find name version => exact hstill trivial rfl (hand_append ..)
  | newest => exact hstill trivial rfl (hand_append ..)
  | readText key => exact hstill trivial rfl (hand_append ..)
  | readClock => exact hstill trivial rfl (hand_append ..)

end Extend

end ScriptRegistry.Store
