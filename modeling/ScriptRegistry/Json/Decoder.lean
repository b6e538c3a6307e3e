/-
ScriptRegistry/Json/Decoder.lean

Typed readers.

A `Decoder α` reads an `α` in two ways: straight from the bytes of a text,
where faults have places, and from a JSON value, where they have none.  The two
agree on what they accept except where the text holds more than the value does:
a repeated member and the order of members are visible in a text only.

Structures are read by `record` from a list of `Field`s.  An object may hold
its members in any order and further members besides; an array must hold the
fields in their order and nothing else.  `ifMissing` stands in for a member
that an object lacks, `ifShort` for the items after the end of an array.
-/
import ScriptRegistry.Json.Reader

namespace ScriptRegistry.Json

/-- A reader of values of one type. -/
structure Decoder (α : Type) where
  ofText : List UInt8 → Except Fault (α × List UInt8)
  ofValue : Value → Except Mismatch α

/-- Reads a whole text. -/
def Decoder.ofBytes {α : Type} (d : Decoder α) (text : List UInt8) : Except Fault α := do
  let (a, r) ← d.ofText text
  expectEnd a r

/-- How messages name a value. -/
def Value.found : Value → Found
  | .null => .null
  | .bool b => .bool b
  | .number (.integer i) => .integer i
  | .number (.floating x) => .floating x
  | .string s => .string s
  | .array _ => .sequence
  | .object _ => .map

/-- How messages name a number. -/
def Number.found : Number → Found
  | .integer i => .integer i
  | .floating x => .floating x

/-- The fault that the value at the head of the bytes is not what is wanted.  A value without parts
is read first, and may turn out to be no value at all. -/
def mistyped (wanted : String) (bytes : List UInt8) : Fault :=
  let told (found : Found) (rest : List UInt8) : Fault :=
    .settled (.shape (.wrongType found wanted)) rest.length
  let literal (rest : List UInt8) (found : Found) (r : List UInt8) : Fault :=
    match readIdent rest r with
    | .ok r' => told found r'
    | .error f => f
  let number (positive : Bool) (r : List UInt8) : Fault :=
    match readNumber positive r with
    | .ok (n, r') => told n.found r'
    | .error f => f
  match bytes with
  | 110 :: r => literal nullRest .null r
  | 116 :: r => literal trueRest (.bool true) r
  | 102 :: r => literal falseRest (.bool false) r
  | 45 :: r => number false r
  | 34 :: r =>
    match readString r with
    | .ok (s, r') => told (.string s) r'
    | .error f => f
  | 91 :: r => told .sequence (91 :: r)
  | 123 :: r => told .map (123 :: r)
  | b :: r => if isDigit b then number true (b :: r) else .upon .noValue (b :: r)
  | [] => .upon .endInValue []

namespace Decoder

/-! ### Texts and numbers -/

/-- Reads a string and turns it into something else, or refuses it with a mismatch that is reported
behind the string. -/
def texted {α : Type} (wanted : String) (f : String → Except Mismatch α) : Decoder α where
  ofText bytes :=
    match skipGaps bytes with
    | [] => .error (.upon .endInValue [])
    | 34 :: r => do
      let (s, r) ← readString r
      match f s with
      | .ok a => .ok (a, r)
      | .error m => .error (.settled (.shape m) r.length)
    | r => .error (mistyped wanted r)
  ofValue
    | .string s => f s
    | v => .error (.wrongType v.found wanted)

/-- Reads a string. -/
def string : Decoder String :=
  texted "a string" .ok

/-- The first natural number that is too large for 32 bits. -/
def word32Bound : Nat := 4294967296

/-- The natural number below `2 ^ 32` that a JSON number is. -/
def word32OfNumber : Number → Except Mismatch Nat
  | .integer i =>
    if 0 ≤ i && i < (word32Bound : Int) then .ok i.toNat
    else .error (.wrongValue (.integer i) "u32")
  | .floating x => .error (.wrongType (.floating x) "u32")

/-- Reads a natural number below `2 ^ 32`. -/
def word32 : Decoder Nat where
  ofText bytes :=
    let finish : Except Fault (Number × List UInt8) → Except Fault (Nat × List UInt8)
      | .error f => .error f
      | .ok (n, r) =>
        match word32OfNumber n with
        | .ok i => .ok (i, r)
        | .error m => .error (.settled (.shape m) r.length)
    match skipGaps bytes with
    | [] => .error (.upon .endInValue [])
    | 45 :: r => finish (readNumber false r)
    | b :: r =>
      if isDigit b then finish (readNumber true (b :: r)) else .error (mistyped "u32" (b :: r))
  ofValue
    | .number n => word32OfNumber n
    | v => .error (.wrongType v.found "u32")

/-- Turns what another decoder reads into something else, or refuses it with a message; the place of
the refusal is left open. -/
def refine {α β : Type} (d : Decoder α) (f : α → Except String β) : Decoder β where
  ofText bytes := do
    let (a, r) ← d.ofText bytes
    match f a with
    | .ok b => .ok (b, r)
    | .error message => .error (.raised (.refused message) r)
  ofValue v := do
    match f (← d.ofValue v) with
    | .ok b => .ok b
    | .error message => .error (.refused message)

/-- Applies a function to what another decoder reads. -/
def map {α β : Type} (d : Decoder α) (f : α → β) : Decoder β where
  ofText bytes := (d.ofText bytes).map fun (a, r) => (f a, r)
  ofValue v := (d.ofValue v).map f

/-- Reads `null` as nothing. -/
def optional {α : Type} (d : Decoder α) : Decoder (Option α) where
  ofText bytes :=
    match skipGaps bytes with
    | 110 :: r => do return (none, ← readIdent nullRest r)
    | r => do
      let (a, r) ← d.ofText r
      return (some a, r)
  ofValue
    | .null => .ok none
    | v => (d.ofValue v).map some

/-! ### Choices -/

/-- Reads `null` where a choice carries nothing. -/
def nothing : Decoder Unit where
  ofText bytes :=
    match skipGaps bytes with
    | [] => .error (.upon .endInValue [])
    | 110 :: r => do return ((), ← readIdent nullRest r)
    | r => .error (mistyped "unit" r)
  ofValue
    | .null => .ok ()
    | v => .error (.wrongType v.found "unit")

/-- Reads one of several names, written as a string or as an object with that one member, whose
value is `null`. -/
def choice {α : Type} (variant : String → Except Mismatch α) : Decoder α where
  ofText bytes :=
    let name := texted "variant identifier" variant
    match skipGaps bytes with
    | [] => .error (.upon .endInValue [])
    | 34 :: r => name.ofText (34 :: r)
    | 123 :: r => do
      let (a, r) ← name.ofText r
      let r ← readColon r
      let ((), r) ← nothing.ofText r
      match skipGaps r with
      | [] => .error (.here .endInObject [])
      | 125 :: r => return (a, r)
      | r => .error (.here .noValue r)
    | r => .error (.upon .noValue r)
  ofValue
    | .string s => variant s
    | .object [(s, v)] => do
      let a ← variant s
      let () ← nothing.ofValue v
      return a
    | .object _ => .error (.wrongValue .map "map with a single key")
    | v => .error (.wrongType v.found "string or map")

/-! ### Lists -/

/-- The bytes behind the end of a list, as far as a closing bracket or a comma shows it. -/
def afterList (bytes : List UInt8) : List UInt8 :=
  match skipGaps bytes with
  | 93 :: r => r
  | 44 :: r => skipGaps r
  | r => r

/-- Reads the end of a list. -/
def endList {α : Type} (a : α) (bytes : List UInt8) : Except Fault (α × List UInt8) :=
  match skipGaps bytes with
  | [] => .error (.upon .endInList [])
  | 93 :: r => .ok (a, r)
  | 44 :: r =>
    match skipGaps r with
    | 93 :: r' => .error (.upon .trailingComma (93 :: r'))
    | r' => .error (.upon .trailingCharacters r')
  | r => .error (.upon .trailingCharacters r)

/-- Reads items up to the closing bracket, which is left unread. -/
def readItems {α : Type} (d : Decoder α) (fuel : Nat) (first : Bool) (bytes : List UInt8) :
    Except Fault (List α × List UInt8) :=
  match fuel with
  | 0 => .error (.upon .noValue bytes)
  | fuel + 1 => do
    match ← nextItem first bytes with
    | .stop r => return ([], r)
    | .more r =>
      let (a, r) ← d.ofText r
      let (as, r) ← readItems d fuel false r
      return (a :: as, r)

/-- Reads a list. -/
def list {α : Type} (d : Decoder α) : Decoder (List α) where
  ofText bytes :=
    match skipGaps bytes with
    | [] => .error (.upon .endInValue [])
    | 91 :: r =>
      match readItems d (r.length + 1) true r with
      | .ok (as, r) => endList as r
      | .error f => .error (f.settle afterList)
    | r => .error (mistyped "a sequence" r)
  ofValue
    | .array vs => vs.mapM d.ofValue
    | v => .error (.wrongType v.found "a sequence")

end Decoder

/-! ### Records -/

/-- One field of a record. -/
structure Field (α : Type) where
  name : String
  decoder : Decoder α
  ifMissing : Option α := none
  ifShort : Option α := none

/-- The fields of a record, in their order. -/
inductive Fields : List Type → Type 1
  | nil : Fields []
  | cons {α : Type} {αs : List Type} (field : Field α) (rest : Fields αs) : Fields (α :: αs)

/-- A value for each field. -/
def Row : List Type → Type
  | [] => Unit
  | α :: αs => α × Row αs

/-- A value for each field that was met so far. -/
def Slots : List Type → Type
  | [] => Unit
  | α :: αs => Option α × Slots αs

namespace Fields

/-- No field met. -/
def noSlots : {αs : List Type} → Fields αs → Slots αs
  | _, .nil => ()
  | _, .cons _ rest => (none, rest.noSlots)

/-- How many fields there are. -/
def count : {αs : List Type} → Fields αs → Nat
  | _, .nil => 0
  | _, .cons _ rest => rest.count + 1

/-- Reads the value of the member with the given name, from its colon on, into its slot; the value
of a member that is no field is passed over. -/
def readMember : {αs : List Type} → Fields αs → String → Slots αs → List UInt8 →
    Except Fault (Slots αs × List UInt8)
  | _, .nil, _, (), bytes => do return ((), ← skipValue (← readColon bytes))
  | _, .cons field rest, name, (slot, slots), bytes =>
    if name = field.name then
      if slot.isSome then .error (.raised (.repeated name) bytes)
      else do
        let (a, r) ← field.decoder.ofText (← readColon bytes)
        return ((some a, slots), r)
    else do
      let (slots, r) ← rest.readMember name slots bytes
      return ((slot, slots), r)

/-- Puts the value of a member into its slot; a member that is no field is passed over. -/
def putMember : {αs : List Type} → Fields αs → String → Slots αs → Value →
    Except Mismatch (Slots αs)
  | _, .nil, _, (), _ => .ok ()
  | _, .cons field rest, name, (slot, slots), v =>
    if name = field.name then do return (some (← field.decoder.ofValue v), slots)
    else do return (slot, ← rest.putMember name slots v)

/-- The row of all fields, once all members have been met. -/
def complete : {αs : List Type} → Fields αs → Slots αs → Except Mismatch (Row αs)
  | _, .nil, () => .ok ()
  | _, .cons field rest, (slot, slots) =>
    match slot.or field.ifMissing with
    | none => .error (.missing field.name)
    | some a => do return (a, ← rest.complete slots)

/-- Reads members up to the closing brace, which is left unread. -/
def readMembers {αs : List Type} (fields : Fields αs) (fuel : Nat) (first : Bool)
    (slots : Slots αs) (bytes : List UInt8) : Except Fault (Row αs × List UInt8) :=
  match fuel with
  | 0 => .error (.upon .noValue bytes)
  | fuel + 1 => do
    match ← nextName first bytes with
    | .stop r =>
      match fields.complete slots with
      | .ok row => return (row, r)
      | .error m => .error (.raised m r)
    | .more r =>
      let (name, r) ← readString r
      let (slots, r) ← fields.readMember name slots r
      fields.readMembers fuel false slots r

/-- Reads the fields as items of a list; `at` counts the items before. -/
def readRow : {αs : List Type} → Fields αs → String → Nat → List UInt8 →
    Except Fault (Row αs × List UInt8)
  | _, .nil, _, _, bytes => .ok ((), bytes)
  | _, .cons field rest, wanted, place, bytes => do
    match ← nextItem (place == 0) bytes with
    | .stop r =>
      match field.ifShort with
      | none => .error (.raised (.wrongLength place wanted) r)
      | some a =>
        let (row, r) ← rest.readRow wanted (place + 1) r
        return ((a, row), r)
    | .more r =>
      let (a, r) ← field.decoder.ofText r
      let (row, r) ← rest.readRow wanted (place + 1) r
      return ((a, row), r)

/-- Takes the fields from the items of an array, with the items left over. -/
def takeRow : {αs : List Type} → Fields αs → String → Nat → List Value →
    Except Mismatch (Row αs × List Value)
  | _, .nil, _, _, vs => .ok ((), vs)
  | _, .cons field rest, wanted, place, [] =>
    match field.ifShort with
    | none => .error (.wrongLength place wanted)
    | some a => do
      let (row, vs) ← rest.takeRow wanted (place + 1) []
      return ((a, row), vs)
  | _, .cons field rest, wanted, place, v :: vs => do
    let a ← field.decoder.ofValue v
    let (row, vs) ← rest.takeRow wanted (place + 1) vs
    return ((a, row), vs)

end Fields

/-- The bytes behind the end of an object, as far as a closing brace shows it. -/
def afterObject (bytes : List UInt8) : List UInt8 :=
  match skipGaps bytes with
  | 125 :: r => r
  | r => r

/-- Reads a record of the given kind from an object or an array. -/
def Decoder.record {α : Type} {αs : List Type} (kind : String) (fields : Fields αs)
    (build : Row αs → α) : Decoder α where
  ofText bytes :=
    match skipGaps bytes with
    | [] => .error (.upon .endInValue [])
    | 91 :: r =>
      match fields.readRow s!"struct {kind} with {fields.count} elements" 0 r with
      | .ok (row, r) => endList (build row) r
      | .error f => .error (f.settle afterList)
    | 123 :: r =>
      match fields.readMembers (r.length + 1) true fields.noSlots r with
      | .ok (row, r) => .ok (build row, r.drop 1)
      | .error f => .error (f.settle afterObject)
    | r => .error (mistyped s!"struct {kind}" r)
  ofValue
    | .array vs => do
      let (row, left) ← fields.takeRow s!"struct {kind} with {fields.count} elements" 0 vs
      if left.isEmpty then return build row
      else .error (.wrongLength vs.length "fewer elements in array")
    | .object members => do
      let slots ← members.foldlM (fun slots m => fields.putMember m.1 slots m.2) fields.noSlots
      return build (← fields.complete slots)
    | v => .error (.wrongType v.found s!"struct {kind}")

end ScriptRegistry.Json
