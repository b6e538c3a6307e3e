/-
ScriptRegistry/Proofs/Document.lean

Typed reading of objects, field by field.

A record is read from an object by going through the members and putting each
into the slot of its field.  Where every member occurs once, as in each value
that a map keeps (`Value.Proper`), this comes to looking each field up by its
name: the slots of different fields do not disturb each other, and the order of
the members does not matter.  So a check that looks at single members and the
reader of the whole record see the same.

Main result: `record_ofValue_object`.
-/
import ScriptRegistry.Json.Decoder

namespace ScriptRegistry.Json

/-! ### Documents -/

/-- Every object in the value has each of its members once. -/
inductive Value.Proper : Value → Prop
  | null : Proper .null
  | bool (b : Bool) : Proper (.bool b)
  | number (n : Number) : Proper (.number n)
  | string (s : String) : Proper (.string s)
  | array (items : List Value) (parts : ∀ v ∈ items, Proper v) : Proper (.array items)
  | object (members : List (String × Value)) (distinct : (members.map (·.1)).Nodup)
      (parts : ∀ m ∈ members, Proper m.2) : Proper (.object members)

/-- A value as maps keep it. -/
structure Document where
  value : Value
  proper : value.Proper

theorem Value.Proper.distinct {members : List (String × Value)}
    (h : (Value.object members).Proper) : (members.map (·.1)).Nodup := by
  cases h with
  | object _ distinct _ => exact distinct

theorem Value.Proper.of_lookup {members : List (String × Value)} {name : String} {v : Value}
    (h : (Value.object members).Proper) (hv : members.lookup name = some v) : v.Proper := by
  obtain ⟨l₁, l₂, rfl, -⟩ := List.lookup_eq_some_iff.mp hv
  cases h with
  | object _ _ parts => exact parts (name, v) (by simp)

/-- A field that is present is a member that is not `null`. -/
theorem field?_object_iff {members : List (String × Value)} {name : String} {v : Value} :
    (Value.object members).field? name = some v ↔ members.lookup name = some v ∧ v ≠ .null := by
  rw [Value.field?, Value.get?]
  rcases members.lookup name with - | w
  · simp
  · cases w <;> simp <;> rintro rfl <;> simp

/-- A field that is absent is no member or `null`. -/
theorem field?_object_eq_none_iff {members : List (String × Value)} {name : String} :
    (Value.object members).field? name = none
      ↔ members.lookup name = none ∨ members.lookup name = some .null := by
  rw [Value.field?, Value.get?]
  rcases members.lookup name with - | w
  · simp
  · cases w <;> simp

/-! ### Fields -/

theorem bind_eq_ok_iff {ε α β : Type} {x : Except ε α} {f : α → Except ε β} {b : β} :
    (x >>= f) = .ok b ↔ ∃ a, x = .ok a ∧ f a = .ok b := by
  rcases x with e | a
  · exact ⟨fun h => (by cases h), fun ⟨_, h, _⟩ => (by cases h)⟩
  · exact ⟨fun h => ⟨a, rfl, h⟩, fun ⟨_, ha, h⟩ => (by cases ha; exact h)⟩

variable {α : Type} {αs : List Type}

/-- What a field takes from the members of an object. -/
def Field.take (field : Field α) (members : List (String × Value)) : Except Mismatch α :=
  match members.lookup field.name with
  | some v => field.decoder.ofValue v
  | none => match field.ifMissing with
    | some a => .ok a
    | none => .error (.missing field.name)

/-- What is in the slot of a field after the given members. -/
def Field.fill (field : Field α) (members : List (String × Value)) (slot : Option α) :
    Except Mismatch (Option α) :=
  match members.lookup field.name with
  | some v => (field.decoder.ofValue v).map some
  | none => .ok slot

namespace Fields

/-- The names of the fields. -/
def names : {αs : List Type} → Fields αs → List String
  | _, .nil => []
  | _, .cons field rest => field.name :: rest.names

/-- The row of what each field takes. -/
def take : {αs : List Type} → Fields αs → List (String × Value) → Except Mismatch (Row αs)
  | _, .nil, _ => .ok ()
  | _, .cons field rest, members => do return (← field.take members, ← rest.take members)

/-- Puts all members into their slots. -/
def putMembers (fields : Fields αs) (members : List (String × Value)) (slots : Slots αs) :
    Except Mismatch (Slots αs) :=
  members.foldlM (fun slots m => fields.putMember m.1 slots m.2) slots

theorem putMember_self (field : Field α) (rest : Fields αs) (slot : Option α) (slots : Slots αs)
    (v : Value) : (Fields.cons field rest).putMember field.name (slot, slots) v
      = (field.decoder.ofValue v).map fun a => (some a, slots) :=
  if_pos rfl

theorem putMember_other (field : Field α) (rest : Fields αs) {name : String}
    (h : name ≠ field.name) (slot : Option α) (slots : Slots αs) (v : Value) :
    (Fields.cons field rest).putMember name (slot, slots) v
      = (rest.putMember name slots v).map fun slots' => (slot, slots') :=
  if_neg h

/-- A member that is no field changes nothing. -/
theorem putMember_of_not_mem (fields : Fields αs) {name : String} (h : name ∉ fields.names)
    (slots : Slots αs) (v : Value) : fields.putMember name slots v = .ok slots := by
  induction fields with
  | nil => rfl
  | cons field rest ih =>
    obtain ⟨slot, slots⟩ := slots
    rw [names, List.mem_cons, not_or] at h
    exact (putMember_other field rest h.1 slot slots v).trans (congrArg _ (ih h.2 slots))

/-- The slot of the first field and the slots of the others do not disturb each other. -/
theorem putMembers_cons_iff (field : Field α) (rest : Fields αs) {members : List (String × Value)}
    (hfield : field.name ∉ rest.names) (hmembers : (members.map (·.1)).Nodup)
    {slot slot' : Option α} {slots slots' : Slots αs} :
    (Fields.cons field rest).putMembers members (slot, slots) = .ok (slot', slots')
      ↔ field.fill members slot = .ok slot' ∧ rest.putMembers members slots = .ok slots' := by
  induction members generalizing slot slots with
  | nil =>
    show Except.ok (slot, slots) = Except.ok (slot', slots') ↔ Except.ok slot = Except.ok slot' ∧
      Except.ok slots = Except.ok slots'
    constructor
    · rintro ⟨⟩
      exact ⟨rfl, rfl⟩
    · rintro ⟨⟨⟩, ⟨⟩⟩
      rfl
  | cons m members ih =>
    obtain ⟨name, v⟩ := m
    obtain ⟨hname, hrest⟩ := List.nodup_cons.mp hmembers
    show ((Fields.cons field rest).putMember name (slot, slots) v >>=
        (Fields.cons field rest).putMembers members) = _ ↔ _ ∧
      (rest.putMember name slots v >>= rest.putMembers members) = _
    by_cases hsame : name = field.name
    · subst hsame
      -- the members behind this one leave the slot alone
      have hfill : field.fill ((field.name, v) :: members) slot
          = (field.decoder.ofValue v).map some := by
        rw [Field.fill, List.lookup_cons_self]
      have hlater : ∀ a, field.fill members (some a) = .ok (some a) := by
        intro a
        have hnone : members.lookup field.name = none := by
          rw [List.lookup_eq_none_iff]
          intro e he
          rw [bne_iff_ne]
          intro heq
          apply hname
          show field.name ∈ _
          rw [heq]
          exact List.mem_map_of_mem he
        rw [Field.fill, hnone]
      rw [putMember_self, hfill, rest.putMember_of_not_mem hfield]
      rcases field.decoder.ofValue v with mismatch | a
      · exact ⟨fun h => (by cases h), fun h => (by cases h.1)⟩
      · show (Fields.cons field rest).putMembers members (some a, slots) = .ok (slot', slots') ↔
          Except.ok (some a) = .ok slot' ∧ rest.putMembers members slots = .ok slots'
        rw [ih hrest, hlater a]
    · -- the member is none of this field, so only the other slots may change
      have hfill : field.fill ((name, v) :: members) slot = field.fill members slot := by
        rw [Field.fill, Field.fill, List.lookup_cons,
          show (field.name == name) = false from beq_false_of_ne (Ne.symm hsame)]
      rw [putMember_other field rest hsame, hfill]
      rcases rest.putMember name slots v with mismatch | slots₁
      · exact ⟨fun h => (by cases h), fun h => (by cases h.2)⟩
      · exact ih hrest

/-- The row is complete when each field has something in its slot or can do without. -/
theorem complete_cons_iff (field : Field α) (rest : Fields αs) {slot : Option α} {slots : Slots αs}
    {a : α} {row : Row αs} :
    (Fields.cons field rest).complete (slot, slots) = .ok (a, row)
      ↔ slot.or field.ifMissing = some a ∧ rest.complete slots = .ok row := by
  rcases hslot : slot.or field.ifMissing with - | a'
  · have hcomplete : (Fields.cons field rest).complete (slot, slots)
        = .error (.missing field.name) := by
      rw [complete, hslot]
    rw [hcomplete]
    exact ⟨fun h => (by cases h), fun h => (by cases h.1)⟩
  · have hcomplete : (Fields.cons field rest).complete (slot, slots)
        = (rest.complete slots).map (a', ·) := by
      rw [complete, hslot]
      rfl
    rw [hcomplete]
    rcases rest.complete slots with mismatch | row'
    · exact ⟨fun h => (by cases h), fun h => (by cases h.2)⟩
    · constructor
      · rintro ⟨⟩
        exact ⟨rfl, rfl⟩
      · rintro ⟨⟨⟩, ⟨⟩⟩
        rfl

/-- The first field and the others take what they need each by itself. -/
theorem take_cons_iff {field : Field α} {rest : Fields αs} {members : List (String × Value)}
    {a : α} {row : Row αs} : (Fields.cons field rest).take members = .ok (a, row)
      ↔ field.take members = .ok a ∧ rest.take members = .ok row := by
  rw [take]
  rcases field.take members with mismatch | a'
  · exact ⟨fun h => (by cases h), fun h => (by cases h.1)⟩
  · rcases rest.take members with mismatch | row'
    · exact ⟨fun h => (by cases h), fun h => (by cases h.2)⟩
    · constructor
      · rintro ⟨⟩
        exact ⟨rfl, rfl⟩
      · rintro ⟨⟨⟩, ⟨⟩⟩
        rfl

theorem putMembers_nil (members : List (String × Value)) : nil.putMembers members () = .ok () := by
  induction members with
  | nil => rfl
  | cons m members ih => exact ih

/-- A field takes what its slot holds in the end. -/
theorem fill_iff_take (field : Field α) {members : List (String × Value)} {a : α} :
    (∃ slot, field.fill members none = .ok slot ∧ slot.or field.ifMissing = some a)
      ↔ field.take members = .ok a := by
  rw [Field.fill, Field.take]
  rcases members.lookup field.name with - | v
  · rcases field.ifMissing with - | a'
    · simp
    · simp
  · show (∃ slot, (field.decoder.ofValue v).map some = .ok slot ∧ _) ↔
      field.decoder.ofValue v = .ok a
    rcases field.decoder.ofValue v with mismatch | a'
    · simp [Except.map]
    · simp [Except.map]

/-- To fill all slots and complete them is to take each field by itself. -/
theorem complete_iff_take (fields : Fields αs) (hfields : fields.names.Nodup)
    {members : List (String × Value)} (hmembers : (members.map (·.1)).Nodup) {row : Row αs} :
    (∃ slots, fields.putMembers members fields.noSlots = .ok slots ∧
        fields.complete slots = .ok row) ↔ fields.take members = .ok row := by
  induction fields with
  | nil =>
    show (∃ slots, nil.putMembers members () = .ok slots ∧ nil.complete slots = .ok row) ↔
      Except.ok () = Except.ok row
    rw [putMembers_nil]
    constructor
    · rintro ⟨slots, -, hrow⟩
      exact hrow
    · intro hrow
      exact ⟨(), rfl, hrow⟩
  | cons field rest ih =>
    obtain ⟨hfield, hrest⟩ := List.nodup_cons.mp hfields
    obtain ⟨a, row⟩ := row
    rw [take_cons_iff, ← fill_iff_take, ← ih hrest]
    constructor
    · rintro ⟨⟨slot, slots⟩, hput, hcomplete⟩
      obtain ⟨hfill, hput⟩ := (putMembers_cons_iff field rest hfield hmembers).mp hput
      obtain ⟨ha, hcomplete⟩ := (complete_cons_iff field rest).mp hcomplete
      exact ⟨⟨slot, hfill, ha⟩, slots, hput, hcomplete⟩
    · rintro ⟨⟨slot, hfill, ha⟩, slots, hput, hcomplete⟩
      exact ⟨(slot, slots), (putMembers_cons_iff field rest hfield hmembers).mpr ⟨hfill, hput⟩,
        (complete_cons_iff field rest).mpr ⟨ha, hcomplete⟩⟩

end Fields

/-- **A record is read from an object by looking up its fields.** -/
theorem record_ofValue_object {kind : String} {fields : Fields αs} {build : Row αs → α}
    (hfields : fields.names.Nodup) {members : List (String × Value)}
    (hmembers : (members.map (·.1)).Nodup) {x : α} :
    (Decoder.record kind fields build).ofValue (.object members) = .ok x
      ↔ ∃ row, fields.take members = .ok row ∧ x = build row := by
  show (do
    let slots ← fields.putMembers members fields.noSlots
    return build (← fields.complete slots)) = Except.ok x ↔ _
  rw [bind_eq_ok_iff]
  constructor
  · rintro ⟨slots, hput, hbuild⟩
    obtain ⟨row, hrow, hx⟩ := bind_eq_ok_iff.mp hbuild
    cases hx
    exact ⟨row, (fields.complete_iff_take hfields hmembers).mp ⟨slots, hput, hrow⟩, rfl⟩
  · rintro ⟨row, htake, rfl⟩
    obtain ⟨slots, hput, hrow⟩ := (fields.complete_iff_take hfields hmembers).mpr htake
    exact ⟨slots, hput, bind_eq_ok_iff.mpr ⟨row, hrow, rfl⟩⟩

end ScriptRegistry.Json
