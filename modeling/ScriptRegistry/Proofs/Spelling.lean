/-
ScriptRegistry/Proofs/Spelling.lean

Values with their members in any order.

The text of a record has its members in the order in which they were declared, and a
value keeps them in the order of their names.  What is said about reading covers
both, and every other order, inside and out: `w.Spells v` tells that `w` is `v` up to
the order of members.  Each name is there once, so an object is the same whichever
order it is made in, and each member of the one is found in the other.
-/
import Mathlib.Data.List.Forall2
import ScriptRegistry.Proofs.Reading
import ScriptRegistry.Proofs.Writing

namespace ScriptRegistry.Json

open Store (Ascending insertOrdered lookup_cons_eq mem_of_lookup strictTotal_string)

/-! ### Members in any order -/

/-- Names that are there once lead to their member. -/
theorem lookup_of_mem {members : List (String × Value)} (h : (members.map (·.1)).Nodup)
    {m : String × Value} (hm : m ∈ members) : members.lookup m.1 = some m.2 := by
  induction members with
  | nil => cases hm
  | cons first members ih =>
    obtain ⟨hfirst, hothers⟩ := List.nodup_cons.mp h
    obtain ⟨name, v⟩ := first
    rw [lookup_cons_eq]
    rcases List.mem_cons.mp hm with rfl | hm
    · rw [if_pos rfl]
    · have hne : m.1 ≠ name := by
        intro heq
        exact hfirst (List.mem_map.mpr ⟨m, hm, heq⟩)
      rw [if_neg hne]
      exact ih hothers hm

theorem lookup_perm {members members' : List (String × Value)} (h : members.Perm members')
    (hnodup : (members.map (·.1)).Nodup) (name : String) :
    members.lookup name = members'.lookup name := by
  have hnodup' : (members'.map (·.1)).Nodup := (h.map _).nodup_iff.mp hnodup
  ext v
  constructor
  · intro hv
    exact lookup_of_mem hnodup' (h.mem_iff.mp (mem_of_lookup hv))
  · intro hv
    exact lookup_of_mem hnodup (h.mem_iff.mpr (mem_of_lookup hv))

theorem insertMember_perm {name : String} {members : List (String × Value)}
    (h : name ∉ members.map (·.1)) (v : Value) :
    (insertMember name v members).Perm ((name, v) :: members) := by
  induction members with
  | nil => exact List.Perm.refl _
  | cons first members ih =>
    obtain ⟨other, w⟩ := first
    rw [List.map_cons, List.mem_cons, not_or] at h
    rw [insertMember, if_neg h.1]
    split
    · exact List.Perm.refl _
    · exact ((ih h.2).cons _).trans (List.Perm.swap _ _ _)

/-- An object has the members that it is made of, in order. -/
theorem exists_perm_ofMembers {members : List (String × Value)}
    (h : (members.map (·.1)).Nodup) :
    ∃ ordered, Value.ofMembers members = .object ordered ∧
      Ascending (fun a b => decide (a < b)) ordered ∧ ordered.Perm members := by
  have hfold : ∀ acc : List (String × Value), Ascending (fun a b => decide (a < b)) acc →
      ((acc ++ members).map (·.1)).Nodup →
      Ascending (fun a b => decide (a < b))
          (members.foldl (fun acc m => insertMember m.1 m.2 acc) acc) ∧
        (members.foldl (fun acc m => insertMember m.1 m.2 acc) acc).Perm (acc ++ members) := by
    clear h
    induction members with
    | nil => exact fun acc hacc _ => ⟨hacc, by rw [List.append_nil]; exact List.Perm.refl _⟩
    | cons first members ih =>
      intro acc hacc hnodup
      have hmid : (acc ++ first :: members).Perm (first :: (acc ++ members)) := List.perm_middle
      have hmoved : ((first :: (acc ++ members)).map (·.1)).Nodup :=
        (hmid.map _).nodup_iff.mp hnodup
      have hfirst : first.1 ∉ acc.map (·.1) := by
        intro hmem
        refine (List.nodup_cons.mp hmoved).1 ?_
        rw [List.map_append]
        exact List.mem_append_left _ hmem
      have hinsert : (insertMember first.1 first.2 acc ++ members).Perm
          (first :: (acc ++ members)) := (insertMember_perm hfirst first.2).append_right members
      have hinserted : Ascending (fun a b => decide (a < b))
          (insertMember first.1 first.2 acc) := by
        rw [insertMember_eq]
        exact hacc.insertOrdered strictTotal_string first.1 first.2
      obtain ⟨hall, hperm⟩ := ih _ hinserted ((hinsert.map _).nodup_iff.mpr hmoved)
      exact ⟨hall, hperm.trans (hinsert.trans hmid.symm)⟩
  obtain ⟨hordered, hperm⟩ := hfold [] List.Pairwise.nil h
  exact ⟨_, rfl, hordered, hperm⟩

/-- The order in which an object is given its members does not matter. -/
theorem ofMembers_perm {members members' : List (String × Value)} (h : members.Perm members')
    (hnodup : (members.map (·.1)).Nodup) : Value.ofMembers members = .ofMembers members' := by
  obtain ⟨ordered, hmade, hordered, hperm⟩ := exists_perm_ofMembers hnodup
  obtain ⟨ordered', hmade', hordered', hperm'⟩ :=
    exists_perm_ofMembers ((h.map _).nodup_iff.mp hnodup)
  have heq : ordered = ordered' := by
    refine ((hperm.trans h).trans hperm'.symm).eq_of_pairwise (fun a b _ _ hab hba => ?_)
      hordered hordered'
    have hab : decide (a.1 < b.1) = true := hab
    have hba : decide (b.1 < a.1) = true := hba
    rw [strictTotal_string.asymm hab] at hba
    cases hba
  rw [hmade, hmade', heq]

/-! ### Spelling -/

/-- A value up to the order of the members of its objects, each of which is there once. -/
structure Value.Spells (w v : Value) : Prop where
  proper : w.Proper
  sorted : w.sorted = v

theorem map_fst_sortedMembers (members : List (String × Value)) :
    (Value.sortedMembers members).map (·.1) = members.map (·.1) := by
  rw [Value.sortedMembers_eq, List.map_map]
  rfl

theorem Value.Proper.spells {w : Value} (h : w.Proper) : w.Spells w.sorted :=
  ⟨h, rfl⟩

theorem spells_string (s : String) : (Value.string s).Spells (.string s) :=
  ⟨.string s, rfl⟩

theorem spells_number (n : Number) : (Value.number n).Spells (.number n) :=
  ⟨.number n, rfl⟩

theorem spells_null : Value.null.Spells .null :=
  ⟨.null, rfl⟩

theorem spells_array {items : List Value} (h : ∀ v ∈ items, v.Spells v) :
    (Value.array items).Spells (.array items) := by
  refine ⟨.array items fun v hv => (h v hv).proper, ?_⟩
  rw [Value.sorted, Value.sortedItems_eq, List.map_congr_left fun v hv => (h v hv).sorted,
    List.map_id']

/-- Members in any order, that of their declaration among others, spell the object that is made of
them. -/
theorem spells_of_perm {members members' : List (String × Value)} (hperm : members'.Perm members)
    (hnodup : (members.map (·.1)).Nodup) (h : ∀ m ∈ members, m.2.Spells m.2) :
    (Value.object members').Spells (.ofMembers members) := by
  have hnodup' : (members'.map (·.1)).Nodup := (hperm.map _).nodup_iff.mpr hnodup
  have hparts : ∀ m ∈ members', m.2.Spells m.2 := fun m hm => h m (hperm.mem_iff.mp hm)
  refine ⟨.object members' hnodup' fun m hm => (hparts m hm).proper, ?_⟩
  have hfixed : Value.sortedMembers members' = members' := by
    rw [Value.sortedMembers_eq]
    refine (List.map_congr_left fun m hm => ?_).trans (List.map_id' members')
    rw [(hparts m hm).sorted]
  rw [Value.sorted, hfixed]
  exact ofMembers_perm hperm hnodup'

theorem spells_ofMembers {members : List (String × Value)} (hnodup : (members.map (·.1)).Nodup)
    (h : ∀ m ∈ members, m.2.Spells m.2) : (Value.ofMembers members).Spells (.ofMembers members) := by
  obtain ⟨ordered, hmade, -, hperm⟩ := exists_perm_ofMembers hnodup
  have hspells := spells_of_perm hperm hnodup h
  rwa [← hmade] at hspells

theorem spells_strings (ss : List String) : (Value.strings ss).Spells (.strings ss) := by
  refine spells_array fun v hv => ?_
  obtain ⟨s, -, rfl⟩ := List.mem_map.mp hv
  exact spells_string s

theorem sortedMembers_of_forall₂ {written members : List (String × Value)}
    (h : List.Forall₂ (fun w m => w.1 = m.1 ∧ w.2.Spells m.2) written members) :
    Value.sortedMembers written = members := by
  induction h with
  | nil => rfl
  | cons hm _ ih => rw [Value.sortedMembers, hm.1, hm.2.sorted, ih]

/-- An object is spelled by its members in the order in which it is made of them, each spelled in
turn. -/
theorem spells_written {written members : List (String × Value)}
    (hnodup : (members.map (·.1)).Nodup)
    (h : List.Forall₂ (fun w m => w.1 = m.1 ∧ w.2.Spells m.2) written members) :
    (Value.object written).Spells (.ofMembers members) := by
  have hsorted := sortedMembers_of_forall₂ h
  have hproper : ∀ w ∈ written, w.2.Proper := by
    clear hnodup hsorted
    induction h with
    | nil => exact fun w hw => absurd hw List.not_mem_nil
    | cons hm _ ih => exact List.forall_mem_cons.mpr ⟨hm.2.proper, ih⟩
  refine ⟨.object written ?_ hproper, ?_⟩
  · rw [← map_fst_sortedMembers, hsorted]
    exact hnodup
  · rw [Value.sorted, hsorted]

theorem spells_optional {α : Type} {f g : α → Value} (h : ∀ a, (f a).Spells (g a)) (o : Option α) :
    (Value.optional f o).Spells (.optional g o) := by
  cases o with
  | none => exact spells_null
  | some a => exact h a

/-! ### What spells a value -/

variable {w : Value}

theorem Value.Spells.eq_string {s : String} (h : w.Spells (.string s)) : w = .string s := by
  have hsorted := h.sorted
  cases w <;> cases hsorted
  rfl

theorem Value.Spells.eq_number {n : Number} (h : w.Spells (.number n)) : w = .number n := by
  have hsorted := h.sorted
  cases w <;> cases hsorted
  rfl

theorem Value.Spells.eq_null (h : w.Spells .null) : w = .null := by
  have hsorted := h.sorted
  cases w <;> cases hsorted
  rfl

/-- A list is spelled item by item. -/
theorem Value.Spells.array {items : List Value} (h : w.Spells (.array items)) :
    ∃ ws, w = .array ws ∧ ws.map Value.sorted = items ∧ ∀ v ∈ ws, v.Spells v.sorted := by
  obtain ⟨hproper, hsorted⟩ := h
  cases hproper with
  | array ws parts =>
    rw [Value.sorted, Value.sortedItems_eq] at hsorted
    exact ⟨ws, rfl, Value.array.inj hsorted, fun v hv => (parts v hv).spells⟩
  | _ => cases hsorted

/-- An object is spelled member by member. -/
theorem Value.Spells.object {members : List (String × Value)} (h : w.Spells (.object members)) :
    ∃ ms, w = .object ms ∧ (ms.map (·.1)).Nodup ∧ (Value.sortedMembers ms).Perm members ∧
      ∀ m ∈ ms, m.2.Spells m.2.sorted := by
  obtain ⟨hproper, hsorted⟩ := h
  cases hproper with
  | object ms distinct parts =>
    rw [Value.sorted] at hsorted
    have hnodup : ((Value.sortedMembers ms).map (·.1)).Nodup := by
      rw [map_fst_sortedMembers]
      exact distinct
    obtain ⟨ordered, hmade, -, hperm⟩ := exists_perm_ofMembers hnodup
    rw [hmade] at hsorted
    obtain rfl := Value.object.inj hsorted
    exact ⟨ms, rfl, distinct, hperm.symm, fun m hm => (parts m hm).spells⟩
  | _ => cases hsorted

theorem mem_sortedMembers {m : String × Value} {members : List (String × Value)}
    (h : m ∈ members) : (m.1, m.2.sorted) ∈ Value.sortedMembers members := by
  rw [Value.sortedMembers_eq]
  exact List.mem_map_of_mem h

/-- What spells a plain value is plain. -/
theorem Value.Plain.of_spells {depth : Nat} {v : Value} (hv : v.Plain depth) (h : w.Spells v) :
    w.Plain depth := by
  induction hv generalizing w with
  | null depth =>
    rw [h.eq_null]
    exact .null depth
  | bool depth b =>
    have hsorted := h.sorted
    cases w <;> cases hsorted
    exact .bool depth b
  | integer depth i hlow hhigh =>
    rw [h.eq_number]
    exact .integer depth i hlow hhigh
  | string depth s =>
    rw [h.eq_string]
    exact .string depth s
  | array depth items parts ih =>
    obtain ⟨ws, rfl, rfl, hparts⟩ := h.array
    exact .array depth ws fun v hv => ih v.sorted (List.mem_map_of_mem hv) (hparts v hv)
  | object depth members parts ih =>
    obtain ⟨ms, rfl, -, hperm, hparts⟩ := h.object
    exact .object depth ms fun m hm =>
      ih _ (hperm.mem_iff.mp (mem_sortedMembers hm)) (hparts m hm)

theorem plain_ofMembers {depth : Nat} {members : List (String × Value)}
    (hnodup : (members.map (·.1)).Nodup) (h : ∀ m ∈ members, m.2.Plain depth) :
    (Value.ofMembers members).Plain (depth + 1) := by
  obtain ⟨ordered, hmade, -, hperm⟩ := exists_perm_ofMembers hnodup
  rw [hmade]
  exact .object depth ordered fun m hm => h m (hperm.mem_iff.mp hm)

end ScriptRegistry.Json
