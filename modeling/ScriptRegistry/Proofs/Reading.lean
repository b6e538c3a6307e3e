/-
ScriptRegistry/Proofs/Reading.lean

What is read from bytes is a document.

Members are put into their object one by one, each in its place by the order of
the names and in place of an older one of the same name, so that every name is
there once.  What holds of the members of an object, the items of a list and the
values in them is shown for one more step of the reader at a time.

Main result: `Value.proper_ofBytes`.
-/
import ScriptRegistry.Json.Reader
import ScriptRegistry.Proofs.Catalog
import ScriptRegistry.Proofs.Document

namespace ScriptRegistry.Json

open Store (Ascending insertOrdered lookup_cons_eq lookup_insertOrdered mem_insertOrdered
  strictTotal_string)

/-! ### Members in order -/

/-- Members are kept as the records of a catalog are. -/
theorem insertMember_eq (name : String) (v : Value) (members : List (String × Value)) :
    insertMember name v members = insertOrdered (fun a b => decide (a < b)) name v members := by
  induction members with
  | nil => rfl
  | cons first members ih =>
    obtain ⟨other, w⟩ := first
    rw [insertMember, insertOrdered, ih]
    by_cases hlt : name < other
    · rw [if_pos hlt, if_pos (decide_eq_true hlt)]
    · rw [if_neg hlt, if_neg fun h => hlt (of_decide_eq_true h)]
      by_cases heq : name = other
      · subst heq
        rw [if_pos rfl, if_neg fun h => hlt (of_decide_eq_true h)]
      · have hgt : other < name := String.not_le.mp fun hle =>
          heq (String.le_antisymm hle (String.not_lt.mp hlt))
        rw [if_neg heq, if_pos (decide_eq_true hgt)]

/-- Members that ascend are there once each. -/
theorem nodup_of_ascending {members : List (String × Value)}
    (h : Ascending (fun a b => decide (a < b)) members) : (members.map (·.1)).Nodup := by
  refine List.pairwise_map.mpr (h.imp fun hlt => ?_)
  exact strictTotal_string.ne hlt

/-- Members in any order make an object in which each name is there once. -/
theorem Value.proper_ofMembers {members : List (String × Value)}
    (h : ∀ m ∈ members, m.2.Proper) : (Value.ofMembers members).Proper := by
  have hfold : ∀ acc : List (String × Value), Ascending (fun a b => decide (a < b)) acc →
      (∀ m ∈ acc, m.2.Proper) →
      (Value.object (members.foldl (fun acc m => insertMember m.1 m.2 acc) acc)).Proper := by
    induction members with
    | nil => exact fun acc hacc hparts => .object _ (nodup_of_ascending hacc) hparts
    | cons first members ih =>
      intro acc hacc hparts
      rw [List.foldl_cons, insertMember_eq]
      apply ih fun m hm => h m (List.mem_cons_of_mem _ hm)
      · exact hacc.insertOrdered strictTotal_string first.1 first.2
      · intro m hm
        rcases mem_insertOrdered hm with rfl | hm
        · exact h first List.mem_cons_self
        · exact hparts m hm
  exact hfold [] List.Pairwise.nil fun m hm => by cases hm

/-- Of several members of one name an object shows the last. -/
theorem Value.get?_ofMembers (members : List (String × Value)) (name : String) :
    (Value.ofMembers members).get? name = members.reverse.lookup name := by
  have hfold : ∀ acc : List (String × Value),
      (members.foldl (fun acc m => insertMember m.1 m.2 acc) acc).lookup name
        = (members.reverse.lookup name).or (acc.lookup name) := by
    induction members with
    | nil => exact fun acc => rfl
    | cons first members ih =>
      intro acc
      rw [List.foldl_cons, ih, insertMember_eq, lookup_insertOrdered strictTotal_string,
        List.reverse_cons, List.lookup_append, Option.or_assoc]
      -- the member replaces an older one of its name
      rw [lookup_cons_eq]
      by_cases heq : name = first.1
      · simp [heq]
      · simp [heq]
  exact (hfold []).trans Option.or_none

/-! ### One more step -/

/-- Whatever is read within so many calls is proper. -/
structure ReadsProper (fuel : Nat) : Prop where
  value : ∀ {depth bytes v rest}, readValueWith fuel depth bytes = .ok (v, rest) → v.Proper
  items : ∀ {depth first bytes vs rest}, readItemsWith fuel depth first bytes = .ok (vs, rest) →
    ∀ v ∈ vs, v.Proper
  members : ∀ {depth first bytes ms rest},
    readMembersWith fuel depth first bytes = .ok (ms, rest) → ∀ m ∈ ms, m.2.Proper

variable {fuel depth : Nat} {bytes rest : List UInt8}

/-- A value is proper if what stands in its brackets is. -/
theorem ReadsProper.readValue (h : ReadsProper fuel) {v : Value}
    (hread : readValueWith (fuel + 1) depth bytes = .ok (v, rest)) : v.Proper := by
  rw [readValueWith] at hread
  split at hread
  · cases hread
  · obtain ⟨r, -, heq⟩ := bind_eq_ok_iff.mp hread
    cases heq
    exact .null
  · obtain ⟨r, -, heq⟩ := bind_eq_ok_iff.mp hread
    cases heq
    exact .bool true
  · obtain ⟨r, -, heq⟩ := bind_eq_ok_iff.mp hread
    cases heq
    exact .bool false
  · obtain ⟨⟨n, r⟩, -, heq⟩ := bind_eq_ok_iff.mp hread
    cases heq
    exact .number n
  · obtain ⟨⟨s, r⟩, -, heq⟩ := bind_eq_ok_iff.mp hread
    cases heq
    exact .string s
  · split at hread
    · cases hread
    · obtain ⟨⟨vs, r⟩, hitems, heq⟩ := bind_eq_ok_iff.mp hread
      cases heq
      exact .array vs (h.items hitems)
  · split at hread
    · cases hread
    · obtain ⟨⟨ms, r⟩, hmembers, heq⟩ := bind_eq_ok_iff.mp hread
      cases heq
      exact Value.proper_ofMembers (h.members hmembers)
  · split at hread
    · obtain ⟨⟨n, r⟩, -, heq⟩ := bind_eq_ok_iff.mp hread
      cases heq
      exact .number n
    · cases hread

theorem ReadsProper.readItems (h : ReadsProper fuel) {first : Bool} {vs : List Value}
    (hread : readItemsWith (fuel + 1) depth first bytes = .ok (vs, rest)) :
    ∀ v ∈ vs, v.Proper := by
  rw [readItemsWith] at hread
  obtain ⟨next, -, hnext⟩ := bind_eq_ok_iff.mp hread
  cases next with
  | stop r =>
    cases hnext
    exact fun v hv => by cases hv
  | more r =>
    obtain ⟨⟨v, r'⟩, hvalue, hothers⟩ := bind_eq_ok_iff.mp hnext
    obtain ⟨⟨vs, r''⟩, hitems, heq⟩ := bind_eq_ok_iff.mp hothers
    cases heq
    exact List.forall_mem_cons.mpr ⟨h.value hvalue, h.items hitems⟩

theorem ReadsProper.readMembers (h : ReadsProper fuel) {first : Bool}
    {ms : List (String × Value)}
    (hread : readMembersWith (fuel + 1) depth first bytes = .ok (ms, rest)) :
    ∀ m ∈ ms, m.2.Proper := by
  rw [readMembersWith] at hread
  obtain ⟨next, -, hnext⟩ := bind_eq_ok_iff.mp hread
  cases next with
  | stop r =>
    cases hnext
    exact fun m hm => by cases hm
  | more r =>
    obtain ⟨⟨name, r₁⟩, -, hcolon⟩ := bind_eq_ok_iff.mp hnext
    obtain ⟨r₂, -, hread⟩ := bind_eq_ok_iff.mp hcolon
    obtain ⟨⟨v, r₃⟩, hvalue, hothers⟩ := bind_eq_ok_iff.mp hread
    obtain ⟨⟨ms, r₄⟩, hmembers, heq⟩ := bind_eq_ok_iff.mp hothers
    cases heq
    exact List.forall_mem_cons.mpr ⟨h.value hvalue, h.members hmembers⟩

/-! ### Whole texts -/

theorem readsProper (fuel : Nat) : ReadsProper fuel := by
  induction fuel with
  | zero =>
    refine ⟨fun hread => ?_, fun hread => ?_, fun hread => ?_⟩
    · rw [readValueWith] at hread
      cases hread
    · rw [readItemsWith] at hread
      cases hread
    · rw [readMembersWith] at hread
      cases hread
  | succ fuel ih => exact ⟨ih.readValue, ih.readItems, ih.readMembers⟩

/-- **The value of a whole text is proper.** -/
theorem Value.proper_ofBytes {text : List UInt8} {v : Value} (h : Value.ofBytes text = .ok v) :
    v.Proper := by
  rw [Value.ofBytes] at h
  obtain ⟨⟨w, r⟩, hread, hend⟩ := bind_eq_ok_iff.mp h
  have hend : expectEnd w r = .ok v := hend
  obtain rfl : w = v := by
    rw [expectEnd.eq_def] at hend
    split at hend
    · cases hend
      rfl
    · cases hend
  exact (readsProper _).value hread

end ScriptRegistry.Json
