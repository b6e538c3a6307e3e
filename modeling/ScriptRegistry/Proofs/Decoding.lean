/-
ScriptRegistry/Proofs/Decoding.lean

Typed readers take a value for what it stands for.

A typed reader meets a value in two forms, by itself and as a part of a text.  That
it takes the value for the same in both (`Decoder.Reads`) is shown along the way in
which readers are made: for strings and numbers, and for every reader that is made
of others, if it holds of those.

A record is read from a text member by member.  No member fills a slot that is full
already, since each name is there once, so every step does what the reader of values
does with the member; and that one comes to looking each field up by its name.  So
the order of the members does not matter.

Main result: `reads_record`.
-/
import ScriptRegistry.Proofs.Document
import ScriptRegistry.Proofs.Spelling

namespace ScriptRegistry.Json

variable {α β : Type} {depth : Nat} {v : Value} {a : α}

/-- A reader takes a value for what it stands for, by itself and in any text of it. -/
structure Decoder.Reads (d : Decoder α) (depth : Nat) (v : Value) (a : α) : Prop where
  plain : v.Plain depth
  own : v.Spells v
  ofValue : d.ofValue v = .ok a
  ofText : ∀ (w : Value) (rest : List UInt8), w.Spells v → Ending rest →
    d.ofText (w.bytes ++ rest) = .ok (a, rest)

namespace Decoder

variable {d : Decoder α}

/-! ### Strings and numbers -/

theorem reads_texted {wanted s : String} {f : String → Except Mismatch α} (h : f s = .ok a) :
    (texted wanted f).Reads depth (.string s) a where
  plain := .string depth s
  own := spells_string s
  ofValue := h
  ofText := by
    intro w rest hw hrest
    rw [hw.eq_string, bytes_string, List.cons_append, List.append_assoc]
    refine bind_eq_ok_iff.mpr ⟨_, readString_stringBody s rest, ?_⟩
    simp only [h]

theorem reads_string (s : String) : Decoder.string.Reads depth (.string s) s :=
  reads_texted rfl

theorem reads_choice {s : String} {variant : String → Except Mismatch α} (h : variant s = .ok a) :
    (choice variant).Reads depth (.string s) a where
  plain := .string depth s
  own := spells_string s
  ofValue := h
  ofText := by
    intro w rest hw hrest
    have hname : (texted "variant identifier" variant).Reads depth (.string s) a := reads_texted h
    have hread := hname.ofText w rest hw hrest
    rw [hw.eq_string, bytes_string] at hread ⊢
    exact hread

theorem word32OfNumber_of_lt {n : Nat} (h : n < word32Bound) :
    word32OfNumber (.integer n) = .ok n := by
  have hrange : (decide (0 ≤ (n : Int)) && decide ((n : Int) < (word32Bound : Int))) = true := by
    simp only [Bool.and_eq_true, decide_eq_true_eq]
    omega
  rw [word32OfNumber, if_pos hrange, Int.toNat_natCast]

theorem word32_ofValue_number (n : Number) : word32.ofValue (.number n) = word32OfNumber n :=
  rfl

/-- A number without a sign is read whole before its size is looked at. -/
theorem word32_ofText_digit {b : UInt8} (h : isDigit b = true) {bytes rest : List UInt8}
    {number : Number} (hread : readNumber true (b :: bytes) = .ok (number, rest)) {n : Nat}
    (hn : word32OfNumber number = .ok n) : word32.ofText (b :: bytes) = .ok (n, rest) := by
  simp only [word32, skipGaps_cons (isGap_of_isDigit h)]
  split
  · next heq => cases heq
  · next heq => exact absurd (List.cons.inj heq).1 (ne_of_isDigit h rfl)
  · next heq =>
    obtain ⟨rfl, rfl⟩ := List.cons.inj heq
    simp only [if_pos h, hread, hn]

theorem reads_word32 {n : Nat} (h : n < word32Bound) : word32.Reads depth (.nat n) n where
  plain := by
    have hsize : n < significandBound := Nat.lt_trans h (by decide)
    exact .integer depth n (by omega) (Int.ofNat_lt.mpr hsize)
  own := spells_number _
  ofValue := by
    rw [Value.nat, word32_ofValue_number, word32OfNumber_of_lt h]
  ofText := by
    intro w rest hw hrest
    have hread := readNumber_digits (Nat.lt_trans h (by decide)) hrest true
    obtain ⟨b, r, hbytes, hb⟩ := encode_digits_cons n
    rw [hbytes, List.cons_append] at hread
    have hown : w.bytes = b :: r := by
      rw [hw.eq_number]
      exact hbytes
    rw [hown]
    exact word32_ofText_digit hb hread (word32OfNumber_of_lt h)

/-! ### Readers made of a reader -/

theorem Reads.refine (h : d.Reads depth v a) {f : α → Except String β} {b : β}
    (hf : f a = .ok b) : (d.refine f).Reads depth v b where
  plain := h.plain
  own := h.own
  ofValue := by
    rw [Decoder.refine]
    refine bind_eq_ok_iff.mpr ⟨a, h.ofValue, ?_⟩
    rw [hf]
  ofText := by
    intro w rest hw hrest
    refine bind_eq_ok_iff.mpr ⟨_, h.ofText w rest hw hrest, ?_⟩
    simp only [hf]

theorem Reads.map (h : d.Reads depth v a) (f : α → β) : (d.map f).Reads depth v (f a) where
  plain := h.plain
  own := h.own
  ofValue := by
    show (d.ofValue v).map f = _
    rw [h.ofValue]
    rfl
  ofText := by
    intro w rest hw hrest
    simp only [Decoder.map, h.ofText w rest hw hrest]
    rfl

/-- Nothing is read from `null`. -/
theorem reads_none : d.optional.Reads depth .null none where
  plain := .null depth
  own := spells_null
  ofValue := rfl
  ofText := by
    intro w rest hw hrest
    rw [hw.eq_null]
    rfl

/-- What is read from an object is read where it may be absent. -/
theorem Reads.some {members : List (String × Value)} (h : d.Reads depth (.object members) a) :
    d.optional.Reads depth (.object members) (some a) where
  plain := h.plain
  own := h.own
  ofValue := by
    show (d.ofValue (.object members)).map Option.some = _
    rw [h.ofValue]
    rfl
  ofText := by
    intro w rest hw hrest
    have hread := h.ofText w rest hw hrest
    obtain ⟨ms, rfl, -⟩ := hw.object
    rw [bytes_object] at hread ⊢
    exact bind_eq_ok_iff.mpr ⟨_, hread, rfl⟩

/-- Where it may be absent, a value of objects is read as it is. -/
theorem reads_optional {f : α → Value} {o : Option α} (h : ∀ a, d.Reads depth (f a) a)
    (hobject : ∀ a, ∃ members, f a = .object members) :
    d.optional.Reads depth (.optional f o) o := by
  rcases o with - | a
  · exact reads_none
  · obtain ⟨members, hmembers⟩ := hobject a
    have hread := h a
    show d.optional.Reads depth (f a) (Option.some a)
    rw [hmembers] at hread ⊢
    exact hread.some

/-- Items are read one after the other. -/
theorem readItems_itemBytes {f : α → Value} {as : List α} (h : ∀ a ∈ as, d.Reads depth (f a) a)
    {ws : List Value} (hws : ws.map Value.sorted = as.map f) (hspells : ∀ w ∈ ws, w.Spells w.sorted)
    {fuel : Nat} {first : Bool} (hfuel : (itemBytes first ws).length ≤ fuel) (rest : List UInt8) :
    readItems d fuel first (itemBytes first ws ++ rest) = .ok (as, 93 :: rest) := by
  induction ws generalizing as fuel first with
  | nil =>
    obtain rfl : as = [] := List.map_eq_nil_iff.mp hws.symm
    rcases fuel with - | fuel
    · exact absurd hfuel (Nat.not_succ_le_zero _)
    · cases first <;> rfl
  | cons w ws ih =>
    rcases as with - | ⟨a, as⟩
    · cases hws
    · obtain ⟨hw, hws⟩ := List.cons.inj hws
      have hread := h a List.mem_cons_self
      have hspell : w.Spells (f a) := hw ▸ hspells w List.mem_cons_self
      have hbegins := (hread.plain.of_spells hspell).begins
      have hlength : w.bytes.length + (itemBytes false ws).length ≤ fuel := by
        rw [itemBytes, List.length_append, List.length_append] at hfuel
        omega
      have hhere := hbegins.pos
      rcases fuel with - | fuel
      · omega
      · rw [readItems, nextItem_cons first hbegins]
        refine bind_eq_ok_iff.mpr ⟨_, rfl, ?_⟩
        refine bind_eq_ok_iff.mpr
          ⟨_, hread.ofText w _ hspell (ending_itemBytes ws rest), ?_⟩
        have hothers : readItems d fuel false (itemBytes false ws ++ rest) = .ok (as, 93 :: rest) :=
          ih (fun a ha => h a (List.mem_cons_of_mem _ ha)) hws
            (fun w hw => hspells w (List.mem_cons_of_mem _ hw)) (by omega)
        exact bind_eq_ok_iff.mpr ⟨_, hothers, rfl⟩

theorem mapM_ofValue {f : α → Value} {as : List α} (h : ∀ a ∈ as, d.Reads depth (f a) a) :
    (as.map f).mapM d.ofValue = .ok as := by
  induction as with
  | nil => rfl
  | cons a as ih =>
    rw [List.map_cons, List.mapM_cons]
    refine bind_eq_ok_iff.mpr ⟨a, (h a List.mem_cons_self).ofValue, ?_⟩
    exact bind_eq_ok_iff.mpr ⟨as, ih fun a ha => h a (List.mem_cons_of_mem _ ha), rfl⟩

/-- A list is read item by item. -/
theorem reads_list {f : α → Value} {as : List α} (h : ∀ a ∈ as, d.Reads depth (f a) a) :
    d.list.Reads (depth + 1) (.array (as.map f)) as where
  plain := by
    refine .array depth _ fun v hv => ?_
    obtain ⟨a, ha, rfl⟩ := List.mem_map.mp hv
    exact (h a ha).plain
  own := by
    refine spells_array fun v hv => ?_
    obtain ⟨a, ha, rfl⟩ := List.mem_map.mp hv
    exact (h a ha).own
  ofValue := mapM_ofValue h
  ofText := by
    intro w rest hw hrest
    obtain ⟨ws, rfl, hws, hspells⟩ := hw.array
    have hfuel : (itemBytes true ws).length ≤ (itemBytes true ws ++ rest).length + 1 := by
      rw [List.length_append]
      omega
    have hread := readItems_itemBytes h hws hspells hfuel rest
    have hbracket : isGap 91 = false := rfl
    rw [bytes_array, List.cons_append]
    simp only [list, skipGaps_cons hbracket, hread]
    rfl

end Decoder

/-! ### Members -/

namespace Fields

variable {αs : List Type} {members : List (String × Value)} {row : Row αs}

/-- Each field takes its part of the row from the member of its name. -/
def Reads (depth : Nat) : {αs : List Type} → Fields αs → List (String × Value) → Row αs → Prop
  | _, .nil, _, () => True
  | _, .cons field rest, members, (a, row) =>
    (∃ v, members.lookup field.name = some v ∧ field.decoder.Reads depth v a) ∧
      rest.Reads depth members row

theorem Reads.nil : Fields.nil.Reads depth members () :=
  trivial

theorem Reads.cons {field : Field α} {rest : Fields αs}
    (hv : members.lookup field.name = some v) (hread : field.decoder.Reads depth v a)
    (hrest : rest.Reads depth members row) :
    (Fields.cons field rest).Reads depth members (a, row) :=
  ⟨⟨v, hv, hread⟩, hrest⟩

/-- Whether the field of a name was met. -/
def isMet : {αs : List Type} → Fields αs → String → Slots αs → Bool
  | _, .nil, _, () => false
  | _, .cons field rest, name, (slot, slots) =>
    if name = field.name then slot.isSome else rest.isMet name slots

theorem isMet_noSlots (fields : Fields αs) (name : String) :
    fields.isMet name fields.noSlots = false := by
  induction fields with
  | nil => rfl
  | cons field rest ih =>
    show (if name = field.name then _ else _) = false
    split
    · rfl
    · exact ih

/-- A row is read from any object that has its members. -/
theorem Reads.take {fields : Fields αs} (h : fields.Reads depth members row)
    {members' : List (String × Value)}
    (hsame : ∀ name, members'.lookup name = members.lookup name) :
    fields.take members' = .ok row := by
  induction fields with
  | nil => rfl
  | cons field rest ih =>
    obtain ⟨a, row⟩ := row
    obtain ⟨⟨v, hv, hread⟩, hrest⟩ := h
    refine take_cons_iff.mpr ⟨?_, ih hrest⟩
    rw [Field.take, hsame, hv]
    exact hread.ofValue

theorem Reads.part {fields : Fields αs} (h : fields.Reads depth members row) {name : String}
    {v : Value} (hv : members.lookup name = some v) (hname : name ∈ fields.names) :
    v.Plain depth ∧ v.Spells v := by
  induction fields with
  | nil => cases hname
  | cons field others ih =>
    obtain ⟨a, row⟩ := row
    obtain ⟨⟨v', hv', hread⟩, hothers⟩ := h
    rcases List.mem_cons.mp hname with rfl | hname
    · obtain rfl : v' = v := Option.some.inj (hv'.symm.trans hv)
      exact ⟨hread.plain, hread.own⟩
    · exact ih hothers hname

/-- A member is read into its slot, from the text as from the value, and no other slot changes. -/
theorem Reads.member {fields : Fields αs} (h : fields.Reads depth members row) {name : String}
    {v w : Value} (hv : members.lookup name = some v) (hname : name ∈ fields.names)
    {slots : Slots αs} (hslot : fields.isMet name slots = false) (hw : w.Spells v)
    {rest : List UInt8} (hrest : Ending rest) :
    ∃ slots', fields.putMember name slots v = .ok slots' ∧
      fields.readMember name slots (58 :: (w.bytes ++ rest)) = .ok (slots', rest) ∧
      ∀ other, other ≠ name → fields.isMet other slots' = fields.isMet other slots := by
  induction fields with
  | nil => cases hname
  | cons field others ih =>
    obtain ⟨a, row⟩ := row
    obtain ⟨slot, slots⟩ := slots
    obtain ⟨⟨v', hv', hread⟩, hothers⟩ := h
    by_cases hsame : name = field.name
    · subst hsame
      obtain rfl : v' = v := Option.some.inj (hv'.symm.trans hv)
      have hempty : slot.isSome = false := by
        rwa [isMet, if_pos rfl] at hslot
      refine ⟨(some a, slots), ?_, ?_, fun other hother => ?_⟩
      · rw [putMember_self, hread.ofValue]
        rfl
      · rw [readMember, if_pos rfl, hempty]
        exact bind_eq_ok_iff.mpr ⟨_, rfl, bind_eq_ok_iff.mpr ⟨_, hread.ofText w rest hw hrest, rfl⟩⟩
      · rw [isMet, isMet, if_neg hother, if_neg hother]
    · have hname : name ∈ others.names := (List.mem_cons.mp hname).resolve_left hsame
      rw [isMet, if_neg hsame] at hslot
      obtain ⟨slots', hput, hread', hmet⟩ := ih hothers hname hslot
      refine ⟨(slot, slots'), ?_, ?_, fun other hother => ?_⟩
      · rw [putMember_other field others hsame, hput]
        rfl
      · rw [readMember, if_neg hsame]
        exact bind_eq_ok_iff.mpr ⟨_, hread', rfl⟩
      · rw [isMet, isMet]
        split
        · rfl
        · exact hmet other hother

/-- The members of an object are read into their slots one by one, whatever their order. -/
theorem Reads.readMembers {fields : Fields αs} (h : fields.Reads depth members row)
    {ms : List (String × Value)} (hnodup : (ms.map (·.1)).Nodup)
    (hms : ∀ m ∈ ms, m.1 ∈ fields.names ∧ members.lookup m.1 = some m.2.sorted ∧
      m.2.Spells m.2.sorted) {slots slots' : Slots αs}
    (hslots : ∀ m ∈ ms, fields.isMet m.1 slots = false)
    (hput : fields.putMembers (Value.sortedMembers ms) slots = .ok slots') {done : Row αs}
    (hdone : fields.complete slots' = .ok done) {fuel : Nat} {first : Bool}
    (hfuel : (memberListBytes first ms).length ≤ fuel) (rest : List UInt8) :
    fields.readMembers fuel first slots (memberListBytes first ms ++ rest)
      = .ok (done, 125 :: rest) := by
  induction ms generalizing slots fuel first with
  | nil =>
    cases hput
    rcases fuel with - | fuel
    · exact absurd hfuel (Nat.not_succ_le_zero _)
    · have hnext : nextName first (memberListBytes first [] ++ rest) = .ok (.stop (125 :: rest)) := by
        cases first <;> rfl
      rw [Fields.readMembers, hnext]
      refine bind_eq_ok_iff.mpr ⟨_, rfl, ?_⟩
      simp only [hdone]
      rfl
  | cons m ms ih =>
    obtain ⟨hfirst, hothers⟩ := List.nodup_cons.mp hnodup
    obtain ⟨hname, hlookup, hspells⟩ := hms m List.mem_cons_self
    -- one slot is filled, and the slots of the other members stay empty
    obtain ⟨slots₁, hput₁, hread, hmet⟩ := h.member hlookup hname
      (hslots m List.mem_cons_self) hspells (ending_memberListBytes ms rest)
    have hput : (fields.putMember m.1 slots m.2.sorted >>=
        fields.putMembers (Value.sortedMembers ms)) = .ok slots' := hput
    rw [hput₁] at hput
    have hlength : (memberListBytes false ms).length < fuel := by
      simp only [memberListBytes, memberBytes, List.length_append, List.length_cons] at hfuel
      omega
    rcases fuel with - | fuel
    · omega
    · have hstill : ∀ m' ∈ ms, fields.isMet m'.1 slots₁ = false := by
        intro m' hm'
        have hne : m'.1 ≠ m.1 := by
          intro heq
          exact hfirst (List.mem_map.mpr ⟨m', hm', heq⟩)
        rw [hmet m'.1 hne]
        exact hslots m' (List.mem_cons_of_mem _ hm')
      rw [Fields.readMembers, nextName_cons]
      refine bind_eq_ok_iff.mpr ⟨_, rfl, ?_⟩
      refine bind_eq_ok_iff.mpr ⟨_, readString_stringBody m.1 _, ?_⟩
      refine bind_eq_ok_iff.mpr ⟨_, hread, ?_⟩
      exact ih hothers (fun m' hm' => hms m' (List.mem_cons_of_mem _ hm')) hstill hput (by omega)

end Fields

/-! ### Records -/

/-- **A record is read from its members, in whatever order they are.** -/
theorem reads_record {αs : List Type} {kind : String} {fields : Fields αs} {build : Row αs → α}
    {members : List (String × Value)} {row : Row αs} (hnodup : fields.names.Nodup)
    (hnames : members.map (·.1) = fields.names) (h : fields.Reads depth members row) {x : α}
    (hx : build row = x) :
    (Decoder.record kind fields build).Reads (depth + 1) (.ofMembers members) x := by
  subst hx
  have hmembers : (members.map (·.1)).Nodup := hnames ▸ hnodup
  have hparts : ∀ m ∈ members, m.2.Plain depth ∧ m.2.Spells m.2 := by
    intro m hm
    have hname : m.1 ∈ members.map (·.1) := List.mem_map.mpr ⟨m, hm, rfl⟩
    exact h.part (lookup_of_mem hmembers hm) (hnames ▸ hname)
  obtain ⟨ordered, hmade, -, hperm⟩ := exists_perm_ofMembers hmembers
  have hordered : (ordered.map (·.1)).Nodup := (hperm.map _).nodup_iff.mpr hmembers
  refine ⟨plain_ofMembers hmembers fun m hm => (hparts m hm).1,
    spells_ofMembers hmembers fun m hm => (hparts m hm).2, ?_, fun w rest hw hrest => ?_⟩
  · rw [hmade, record_ofValue_object hnodup hordered]
    exact ⟨row, h.take (lookup_perm hperm hordered), rfl⟩
  · rw [hmade] at hw
    obtain ⟨ms, rfl, hms, hperm', hspells⟩ := hw.object
    have hsorted : ((Value.sortedMembers ms).map (·.1)).Nodup := by
      rw [map_fst_sortedMembers]
      exact hms
    have hlookup := lookup_perm (hperm'.trans hperm) hsorted
    -- reading the values in order would fill the slots just so
    obtain ⟨slots, hput, hcomplete⟩ :=
      (fields.complete_iff_take hnodup hsorted).mpr (h.take hlookup)
    have hmet : ∀ m ∈ ms, m.1 ∈ fields.names ∧ members.lookup m.1 = some m.2.sorted ∧
        m.2.Spells m.2.sorted := by
      intro m hm
      have hmem := (hperm'.trans hperm).mem_iff.mp (mem_sortedMembers hm)
      have hname : m.1 ∈ members.map (·.1) := List.mem_map.mpr ⟨_, hmem, rfl⟩
      exact ⟨hnames ▸ hname, lookup_of_mem hmembers hmem, hspells m hm⟩
    have hfuel : (memberListBytes true ms).length ≤
        (memberListBytes true ms ++ rest).length + 1 := by
      rw [List.length_append]
      omega
    have hread := h.readMembers hms hmet (fun m _ => fields.isMet_noSlots m.1) hput hcomplete
      hfuel rest
    have hbrace : isGap 123 = false := rfl
    rw [bytes_object, List.cons_append]
    simp only [Decoder.record, skipGaps_cons hbrace, hread]
    rfl

end ScriptRegistry.Json
