/-
ScriptRegistry/Proofs/Writing.lean

What was written is read.

The bytes of a value are those of its parts with marks between them, and each
reader takes just the bytes of the part it looks for: a string up to its closing
quote, whatever its characters are; an integer up to the mark behind it; a list
or an object up to its bracket.  An object is built from its members by their
names, so what is read is the value with the members of each object in order
(`Value.sorted`).

The induction is on how a value is made (`Value.Plain`), which counts the brackets
that may still be opened just as the reader does.  Every part of a value has fewer
bytes than the value, so the number of bytes bounds the calls.

Main result: `Value.ofBytes_bytes`.
-/
import ScriptRegistry.Json.Reader
import ScriptRegistry.Json.Writer
import ScriptRegistry.Proofs.Document
import ScriptRegistry.Proofs.Utf8

namespace ScriptRegistry.Json

/-! ### Strings -/

/-- The bytes of a string between its quotes. -/
def stringBody (s : String) : List UInt8 :=
  Text.encode (s.toList.flatMap escapeChar)

/-- Bytes that are neither quote nor backslash nor control are read as they are. -/
theorem readStringFrom_verbatim {bytes : List UInt8}
    (h : ∀ b ∈ bytes, b ≠ 34 ∧ b ≠ 92 ∧ ¬ b < 32) (acc r : List UInt8) :
    readStringFrom .plain acc (bytes ++ r) = readStringFrom .plain (bytes.reverse ++ acc) r := by
  induction bytes generalizing acc with
  | nil => rfl
  | cons b bytes ih =>
    obtain ⟨hquote, hescape, hcontrol⟩ := h b List.mem_cons_self
    rw [List.cons_append, readStringFrom, if_neg hquote, if_neg hescape, if_neg hcontrol,
      ih fun b hb => h b (List.mem_cons_of_mem _ hb), List.reverse_cons, List.append_assoc]
    rfl

/-- Four digits behind `\u` are read as the character of that number. -/
theorem readStringFrom_hex {a b c d : UInt8} {unit : Nat} (h : hexUnit? [a, b, c, d] = some unit)
    (hunit : unit < 0xd800) (acc r : List UInt8) :
    readStringFrom .plain acc (92 :: 117 :: a :: b :: c :: d :: r)
      = readStringFrom .plain ((Text.encodeChar (Char.ofNat unit)).reverse ++ acc) r := by
  have hjoin : joinUnit none unit = .ok (.inl (Char.ofNat unit)) := by
    have hhigh : ¬ 0xd800 ≤ unit := Nat.not_le.mpr hunit
    have hlow : ¬ 0xdc00 ≤ unit := by omega
    simp [joinUnit, hhigh, hlow]
  show readStringFrom (.hex none [a, b, c]) acc (d :: r) = _
  rw [readStringFrom]
  simp only [List.length_cons, List.length_nil, Nat.reduceAdd, Nat.lt_irrefl, if_false,
    List.cons_append, List.nil_append, h, hjoin]

theorem encodeChar_digitChar : ∀ n < 16,
    Text.encodeChar (Nat.digitChar n) = [(Nat.digitChar n).toNat.toUInt8] := by
  decide +kernel

/-- The two digits of a control are read as its number. -/
theorem hexUnit?_control : ∀ n < 32,
    hexUnit? [48, 48, (Nat.digitChar (n / 16)).toNat.toUInt8,
      (Nat.digitChar (n % 16)).toNat.toUInt8] = some n := by
  decide +kernel

/-- A character is read back, however it is written. -/
theorem readStringFrom_char (c : Char) (acc r : List UInt8) :
    readStringFrom .plain acc (Text.encode (escapeChar c) ++ r)
      = readStringFrom .plain ((Text.encodeChar c).reverse ++ acc) r := by
  rw [escapeChar]
  split
  · next h => subst h; rfl
  split
  · next h => subst h; rfl
  split
  · next h => subst h; rfl
  split
  · next h => subst h; rfl
  split
  · next h => subst h; rfl
  split
  · next h => subst h; rfl
  split
  · next h => subst h; rfl
  split
  · next hcontrol =>
    -- a control without a letter of its own, written as two zeros and two digits
    have hbytes : ∀ x y, Text.encode ['\\', 'u', '0', '0', x, y] ++ r
        = 92 :: 117 :: 48 :: 48 :: (Text.encodeChar x ++ (Text.encodeChar y ++ []) ++ r) :=
      fun _ _ => rfl
    have hread := readStringFrom_hex (hexUnit?_control c.toNat hcontrol) (by omega) acc r
    rw [Char.ofNat_toNat] at hread
    rw [hbytes, encodeChar_digitChar _ (by omega), encodeChar_digitChar _ (by omega)]
    exact hread
  · next hquote hescape _ _ _ _ _ hcontrol =>
    rw [Text.encode_cons, List.append_assoc]
    apply readStringFrom_verbatim
    intro b hb
    -- none of the marks is a byte of another character
    have hne : ∀ m : UInt8, m.toNat < 128 → c ≠ Char.ofNat m.toNat → b ≠ m := by
      rintro m hm hc rfl
      rcases Text.of_mem_encodeChar hb with heq | hge
      · apply hc
        rw [heq, Char.ofNat_toNat]
      · omega
    refine ⟨hne 34 (by decide) hquote, hne 92 (by decide) hescape, fun hlt => ?_⟩
    have hlt : b.toNat < 32 := hlt
    rcases Text.of_mem_encodeChar hb with heq | hge
    · omega
    · omega

/-- **Every string is read back.** -/
theorem readString_stringBody (s : String) (rest : List UInt8) :
    readString (stringBody s ++ 34 :: rest) = .ok (s, rest) := by
  have hread : ∀ done cs : List Char,
      readStringFrom .plain (Text.encode done).reverse
          (Text.encode (cs.flatMap escapeChar) ++ 34 :: rest)
        = .ok (String.ofList (done ++ cs), rest) := by
    intro done cs
    induction cs generalizing done with
    | nil =>
      show readStringFrom .plain (Text.encode done).reverse (34 :: rest) = _
      rw [readStringFrom, if_pos rfl, List.reverse_reverse, Text.decode_encode, List.append_nil]
    | cons c cs ih =>
      have hdone : (Text.encodeChar c).reverse ++ (Text.encode done).reverse
          = (Text.encode (done ++ [c])).reverse := by
        rw [Text.encode_append, List.reverse_append, Text.encode_cons]
        simp [Text.encode]
      rw [List.flatMap_cons, Text.encode_append, List.append_assoc, readStringFrom_char, hdone, ih,
        List.append_assoc]
      rfl
  have hall := hread [] s.toList
  rw [List.nil_append, String.ofList_toList] at hall
  exact hall

/-! ### Integers -/

/-- What stands behind a part of a text: a comma, a bracket or nothing. -/
inductive Ending : List UInt8 → Prop
  | nothing : Ending []
  | comma (r : List UInt8) : Ending (44 :: r)
  | bracket (r : List UInt8) : Ending (93 :: r)
  | brace (r : List UInt8) : Ending (125 :: r)

/-- The byte of a digit. -/
def digitByte (c : Char) : UInt8 :=
  c.toNat.toUInt8

theorem toNat_of_isDigit {c : Char} (h : c.isDigit = true) : 48 ≤ c.toNat ∧ c.toNat ≤ 57 := by
  simp only [Char.isDigit, Bool.and_eq_true, decide_eq_true_eq, UInt32.le_iff_toNat_le] at h
  exact h

theorem toNat_digitByte {c : Char} (h : c.isDigit = true) : (digitByte c).toNat = c.toNat :=
  Text.toNat_toUInt8 (by have := toNat_of_isDigit h; omega)

theorem isDigit_digitByte {c : Char} (h : c.isDigit = true) : isDigit (digitByte c) = true := by
  obtain ⟨hlow, hhigh⟩ := toNat_of_isDigit h
  rw [← toNat_digitByte h] at hlow hhigh
  simp only [isDigit, Bool.and_eq_true, decide_eq_true_eq]
  exact ⟨hlow, hhigh⟩

theorem encode_digits {cs : List Char} (h : ∀ c ∈ cs, c.isDigit = true) :
    Text.encode cs = cs.map digitByte := by
  induction cs with
  | nil => rfl
  | cons c cs ih =>
    have hc := toNat_of_isDigit (h c List.mem_cons_self)
    rw [Text.encode_cons, Text.encodeChar_of_ascii (by omega),
      ih fun c hc => h c (List.mem_cons_of_mem _ hc)]
    rfl

theorem isDigit_of_mem_digits {n : Nat} {c : Char} (h : c ∈ Decimal.digits n) :
    c.isDigit = true :=
  Nat.isDigit_of_mem_toDigits (by decide) (by decide) h

/-- Digits that spell a number below the bound are all taken. -/
theorem addDigits_digits {cs : List Char} (h : ∀ c ∈ cs, c.isDigit = true) {significand : Nat}
    (hbound : Nat.ofDigitChars 10 cs significand < significandBound) :
    addDigits significand (cs.map digitByte) = (Nat.ofDigitChars 10 cs significand, []) := by
  induction cs generalizing significand with
  | nil => rfl
  | cons c cs ih =>
    have hgrown : significand * 10 + digitValue (digitByte c)
        = 10 * significand + (c.toNat - '0'.toNat) := by
      rw [digitValue, toNat_digitByte (h c List.mem_cons_self), Nat.mul_comm]
      rfl
    rw [Nat.ofDigitChars_cons] at hbound ⊢
    have hprefix : 10 * significand + (c.toNat - '0'.toNat) < significandBound := by
      refine Nat.lt_of_le_of_lt ?_ hbound
      rw [Nat.ofDigitChars_eq_ofDigitChars_zero]
      exact Nat.le_trans (Nat.le_mul_of_pos_left _ (Nat.pow_pos (by decide))) (Nat.le_add_right _ _)
    rw [List.map_cons, addDigits, hgrown, if_pos hprefix]
    exact ih (fun c hc => h c (List.mem_cons_of_mem _ hc)) hbound

/-- Only zero is written with a zero in front. -/
theorem digits_eq_zero_cons {n : Nat} {cs : List Char} (h : Decimal.digits n = '0' :: cs) :
    n = 0 ∧ cs = [] := by
  have hn : n = 0 := by
    induction n using Nat.strongRecOn generalizing cs with
    | ind n ih =>
      rw [Decimal.digits] at h
      by_cases hlt : n < 10
      · rw [Nat.toDigits_of_lt_base hlt] at h
        obtain ⟨hdigit, -⟩ := List.cons.inj h
        have hall : ∀ m < 10, Nat.digitChar m = '0' → m = 0 := by decide
        exact hall n hlt hdigit
      · -- the leading digits are those of a smaller number, which is not zero
        rw [Nat.toDigits_of_base_le (by decide) (by omega)] at h
        rcases hlead : Nat.toDigits 10 (n / 10) with - | ⟨d, ds⟩
        · exact absurd hlead Nat.toDigits_ne_nil
        · rw [hlead] at h
          obtain rfl : d = '0' := (List.cons.inj h).1
          have hzero := ih (n / 10) (by omega) hlead
          omega
  subst hn
  rw [Decimal.digits, Nat.toDigits_zero] at h
  exact ⟨rfl, (List.cons.inj h).2.symm⟩

/-- An integer is read back up to the mark behind it. -/
theorem readNumber_digits {n : Nat} (hn : n < significandBound) {rest : List UInt8}
    (hrest : Ending rest) (positive : Bool) :
    readNumber positive (Text.encode (Decimal.digits n) ++ rest)
      = .ok (wholeNumber positive n, rest) := by
  have hall : ∀ c ∈ Decimal.digits n, c.isDigit = true := fun c hc => isDigit_of_mem_digits hc
  have hvalue : Nat.ofDigitChars 10 (Decimal.digits n) 0 = n := Nat.ofDigitChars_ten_toDigits
  have hstop : rest.takeWhile isDigit = [] := by
    cases hrest <;> rfl
  rw [encode_digits hall]
  rcases hdigits : Decimal.digits n with - | ⟨c, cs⟩
  · exact absurd hdigits Nat.toDigits_ne_nil
  · rw [hdigits] at hall hvalue
    have hc := hall c List.mem_cons_self
    have hcs : ∀ c ∈ cs, c.isDigit = true := fun c hc => hall c (List.mem_cons_of_mem _ hc)
    by_cases hzero : c = '0'
    · -- the reader takes no digit behind a leading zero
      subst hzero
      obtain ⟨rfl, rfl⟩ := digits_eq_zero_cons hdigits
      cases hrest <;> rfl
    · have hne : digitByte c ≠ 48 := by
        intro heq
        apply hzero
        have hnat : c.toNat = 48 := by
          rw [← toNat_digitByte hc, heq]
          rfl
        exact Text.ofNat_of_eq hnat.symm ▸ rfl
      have htake : (cs.map digitByte ++ rest).takeWhile isDigit = cs.map digitByte := by
        rw [List.takeWhile_append_of_pos, hstop, List.append_nil]
        intro b hb
        obtain ⟨c', hc', rfl⟩ := List.mem_map.mp hb
        exact isDigit_digitByte (hcs c' hc')
      have hfirst : digitValue (digitByte c) = 10 * 0 + (c.toNat - '0'.toNat) := by
        rw [digitValue, toNat_digitByte hc]
        exact (Nat.zero_add _).symm
      have hadd : addDigits (digitValue (digitByte c)) (cs.map digitByte) = (n, []) := by
        rw [Nat.ofDigitChars_cons, ← hfirst] at hvalue
        rw [addDigits_digits hcs (by rw [hvalue]; exact hn), hvalue]
      rw [List.map_cons, List.cons_append, readNumber, isDigit_digitByte hc]
      simp only [hne, decide_false, Bool.false_and, Bool.not_true, Bool.false_eq_true, if_false,
        htake, List.drop_left, hadd]
      cases hrest <;> rfl

/-! ### Values -/

/-- A value without floating-point numbers, whose integers have the size that numbers have, and
whose brackets are nested at most so deep. -/
inductive Value.Plain : Nat → Value → Prop
  | null (depth : Nat) : Plain depth .null
  | bool (depth : Nat) (b : Bool) : Plain depth (.bool b)
  | integer (depth : Nat) (i : Int) (low : -(negativeBound : Int) ≤ i)
      (high : i < (significandBound : Int)) : Plain depth (.number (.integer i))
  | string (depth : Nat) (s : String) : Plain depth (.string s)
  | array (depth : Nat) (items : List Value) (parts : ∀ v ∈ items, Plain depth v) :
      Plain (depth + 1) (.array items)
  | object (depth : Nat) (members : List (String × Value))
      (parts : ∀ m ∈ members, Plain depth m.2) : Plain (depth + 1) (.object members)

mutual

/-- The value with the members of each of its objects in order. -/
def Value.sorted : Value → Value
  | .array items => .array (sortedItems items)
  | .object members => .ofMembers (sortedMembers members)
  | v => v

/-- The items of a list, each with its members in order. -/
def Value.sortedItems : List Value → List Value
  | [] => []
  | v :: vs => v.sorted :: sortedItems vs

/-- The members of an object as they are, each with its own members in order. -/
def Value.sortedMembers : List (String × Value) → List (String × Value)
  | [] => []
  | (name, v) :: ms => (name, v.sorted) :: sortedMembers ms

end

theorem Value.sortedItems_eq (items : List Value) : sortedItems items = items.map sorted := by
  induction items with
  | nil => rfl
  | cons v vs ih => rw [sortedItems, ih, List.map_cons]

theorem Value.sortedMembers_eq (members : List (String × Value)) :
    sortedMembers members = members.map fun m => (m.1, m.2.sorted) := by
  induction members with
  | nil => rfl
  | cons m ms ih => rw [sortedMembers, ih, List.map_cons]

/-- The items of a list in its text, each after a comma but the first, with the bracket. -/
def itemBytes (first : Bool) : List Value → List UInt8
  | [] => [93]
  | v :: vs => (if first then [] else [44]) ++ (v.bytes ++ itemBytes false vs)

/-- A member in a text. -/
def memberBytes (m : String × Value) : List UInt8 :=
  34 :: (stringBody m.1 ++ 34 :: 58 :: m.2.bytes)

/-- The members of an object in its text, each after a comma but the first, with the brace. -/
def memberListBytes (first : Bool) : List (String × Value) → List UInt8
  | [] => [125]
  | m :: ms => (if first then [] else [44]) ++ (memberBytes m ++ memberListBytes false ms)

theorem bytes_string (s : String) : (Value.string s).bytes = 34 :: (stringBody s ++ [34]) := by
  show Text.encode (writeString s) = _
  rw [writeString, Text.encode_append, Text.encode_append]
  rfl

theorem encode_writeItems (items : List Value) :
    Text.encode (writeItems items) = itemBytes false items := by
  induction items with
  | nil => rfl
  | cons v vs ih =>
    rw [writeItems, Text.encode_cons, Text.encode_append, ih]
    rfl

theorem bytes_array (items : List Value) : (Value.array items).bytes = 91 :: itemBytes true items := by
  rcases items with - | ⟨v, vs⟩
  · rfl
  · show Text.encode ('[' :: (writeValue v ++ writeItems vs)) = _
    rw [Text.encode_cons, Text.encode_append, encode_writeItems]
    rfl

theorem encode_member (name : String) (v : Value) (r : List Char) :
    Text.encode (writeString name ++ ':' :: (writeValue v ++ r))
      = memberBytes (name, v) ++ Text.encode r := by
  have hname : Text.encode (writeString name) = 34 :: (stringBody name ++ [34]) :=
    bytes_string name
  rw [Text.encode_append, Text.encode_cons, Text.encode_append, hname, memberBytes]
  simp [Value.bytes, Text.encodeChar_of_ascii]

theorem encode_writeMembers (members : List (String × Value)) :
    Text.encode (writeMembers members) = memberListBytes false members := by
  induction members with
  | nil => rfl
  | cons m ms ih =>
    obtain ⟨name, v⟩ := m
    rw [writeMembers, Text.encode_cons, encode_member, ih]
    rfl

theorem bytes_object (members : List (String × Value)) :
    (Value.object members).bytes = 123 :: memberListBytes true members := by
  rcases members with - | ⟨⟨name, v⟩, ms⟩
  · rfl
  · show Text.encode ('\x7b' :: (writeString name ++ ':' :: (writeValue v ++ writeMembers ms))) = _
    rw [Text.encode_cons, encode_member, encode_writeMembers]
    rfl

/-! ### First bytes -/

/-- Bytes that begin a value: the first one is neither a gap nor the end of a list. -/
def Begins (bytes : List UInt8) : Prop :=
  ∃ b r, bytes = b :: r ∧ isGap b = false ∧ b ≠ 93

theorem skipGaps_cons {b : UInt8} (h : isGap b = false) (r : List UInt8) :
    skipGaps (b :: r) = b :: r := by
  rw [skipGaps, List.dropWhile_cons, h]
  rfl

/-- A digit is none of the other bytes that a value begins with. -/
theorem ne_of_isDigit {b c : UInt8} (h : isDigit b = true) (hc : isDigit c = false) : b ≠ c := by
  rintro rfl
  rw [h] at hc
  cases hc

theorem isGap_of_isDigit {b : UInt8} (h : isDigit b = true) : isGap b = false := by
  simp only [isGap, Bool.or_eq_false_iff, beq_eq_false_iff_ne]
  exact ⟨⟨⟨ne_of_isDigit h rfl, ne_of_isDigit h rfl⟩, ne_of_isDigit h rfl⟩, ne_of_isDigit h rfl⟩

theorem encode_digits_cons (n : Nat) :
    ∃ b r, Text.encode (Decimal.digits n) = b :: r ∧ isDigit b = true := by
  rw [encode_digits fun c hc => isDigit_of_mem_digits hc]
  rcases hdigits : Decimal.digits n with - | ⟨c, cs⟩
  · exact absurd hdigits Nat.toDigits_ne_nil
  · refine ⟨_, _, rfl, isDigit_digitByte (isDigit_of_mem_digits (n := n) ?_)⟩
    rw [hdigits]
    exact List.mem_cons_self

theorem Value.Plain.begins {depth : Nat} {v : Value} (h : v.Plain depth) : Begins v.bytes := by
  cases h with
  | null => exact ⟨110, _, rfl, rfl, by decide⟩
  | bool _ b =>
    cases b with
    | true => exact ⟨116, _, rfl, rfl, by decide⟩
    | false => exact ⟨102, _, rfl, rfl, by decide⟩
  | integer _ i =>
    cases i with
    | ofNat n =>
      obtain ⟨b, r, hbytes, hb⟩ := encode_digits_cons n
      exact ⟨b, r, hbytes, isGap_of_isDigit hb, ne_of_isDigit hb rfl⟩
    | negSucc n => exact ⟨45, _, rfl, rfl, by decide⟩
  | string _ s => exact ⟨34, _, rfl, rfl, by decide⟩
  | array _ items => exact ⟨91, _, bytes_array items, rfl, by decide⟩
  | object _ members => exact ⟨123, _, bytes_object members, rfl, by decide⟩

theorem Begins.pos {bytes : List UInt8} (h : Begins bytes) : 0 < bytes.length := by
  obtain ⟨b, r, rfl, -⟩ := h
  exact Nat.succ_pos _

/-! ### One more step -/

variable {fuel depth : Nat}

theorem nextItem_cons (first : Bool) {v : Value} (h : Begins v.bytes) (vs : List Value)
    (rest : List UInt8) : nextItem first (itemBytes first (v :: vs) ++ rest)
      = .ok (.more (v.bytes ++ (itemBytes false vs ++ rest))) := by
  obtain ⟨b, r, hbytes, hgap, hne⟩ := h
  rw [itemBytes, hbytes]
  cases first with
  | true =>
    show nextItem true (b :: (r ++ itemBytes false vs ++ rest)) = _
    rw [nextItem, skipGaps_cons hgap]
    split
    · next heq => cases heq
    · next heq => exact absurd (List.cons.inj heq).1 hne
    · next heq =>
      obtain ⟨rfl, rfl⟩ := List.cons.inj heq
      rw [if_pos rfl, List.append_assoc]
      rfl
  | false =>
    have hcomma : isGap 44 = false := rfl
    show nextItem false (44 :: b :: (r ++ itemBytes false vs ++ rest)) = _
    rw [nextItem, skipGaps_cons hcomma]
    split
    · next heq => cases heq
    · next heq => exact absurd (List.cons.inj heq).1 (by decide)
    · next heq =>
      obtain ⟨rfl, rfl⟩ := List.cons.inj heq
      rw [if_neg Bool.false_ne_true, if_pos rfl, skipGaps_cons hgap]
      split
      · next heq => cases heq
      · next heq => exact absurd (List.cons.inj heq).1 hne
      · rw [List.append_assoc]
        rfl

/-- The name of a member is found, up to its text. -/
theorem nextName_cons (first : Bool) (m : String × Value) (ms : List (String × Value))
    (rest : List UInt8) : nextName first (memberListBytes first (m :: ms) ++ rest)
      = .ok (.more (stringBody m.1 ++ 34 :: 58 :: (m.2.bytes ++
          (memberListBytes false ms ++ rest)))) := by
  have hbytes : memberBytes m ++ memberListBytes false ms ++ rest
      = 34 :: (stringBody m.1 ++ 34 :: 58 :: (m.2.bytes ++
          (memberListBytes false ms ++ rest))) := by
    simp [memberBytes]
  rw [memberListBytes, List.append_assoc, hbytes]
  cases first <;> rfl

theorem length_itemBytes_pos (first : Bool) (vs : List Value) :
    0 < (itemBytes first vs).length := by
  cases vs with
  | nil => exact Nat.succ_pos _
  | cons v vs =>
    rw [itemBytes, List.length_append, List.length_append]
    have := length_itemBytes_pos false vs
    omega

theorem ending_itemBytes (vs : List Value) (rest : List UInt8) :
    Ending (itemBytes false vs ++ rest) := by
  cases vs with
  | nil => exact .bracket _
  | cons v vs => exact .comma _

theorem ending_memberListBytes (ms : List (String × Value)) (rest : List UInt8) :
    Ending (memberListBytes false ms ++ rest) := by
  cases ms with
  | nil => exact .brace _
  | cons m ms => exact .comma _

/-- The value is read from its bytes, whatever part of a text they are. -/
def Value.ReadsBack (depth : Nat) (v : Value) : Prop :=
  Begins v.bytes ∧ ∀ fuel rest, v.bytes.length ≤ fuel → Ending rest →
    readValueWith fuel (depth + 1) (v.bytes ++ rest) = .ok (v.sorted, rest)

/-- Items are read one after the other. -/
theorem readItemsWith_itemBytes {vs : List Value} (h : ∀ v ∈ vs, v.ReadsBack depth) {first : Bool}
    (hfuel : (itemBytes first vs).length ≤ fuel) (rest : List UInt8) :
    readItemsWith fuel (depth + 1) first (itemBytes first vs ++ rest)
      = .ok (Value.sortedItems vs, rest) := by
  induction vs generalizing fuel first with
  | nil =>
    rcases fuel with - | fuel
    · exact absurd hfuel (Nat.not_succ_le_zero _)
    · cases first <;> rfl
  | cons v vs ih =>
    obtain ⟨hbegins, hread⟩ := h v List.mem_cons_self
    have hlength : v.bytes.length + (itemBytes false vs).length ≤ fuel := by
      rw [itemBytes, List.length_append, List.length_append] at hfuel
      omega
    have hhere := hbegins.pos
    have hbehind := length_itemBytes_pos false vs
    rcases fuel with - | fuel
    · omega
    · rw [readItemsWith, nextItem_cons first hbegins]
      have hvalue := hread fuel _ (by omega) (ending_itemBytes vs rest)
      have hothers : readItemsWith fuel (depth + 1) false (itemBytes false vs ++ rest)
          = .ok (Value.sortedItems vs, rest) :=
        ih (fun v hv => h v (List.mem_cons_of_mem _ hv)) (by omega)
      refine bind_eq_ok_iff.mpr ⟨_, rfl, ?_⟩
      exact bind_eq_ok_iff.mpr ⟨_, hvalue, bind_eq_ok_iff.mpr ⟨_, hothers, rfl⟩⟩

/-- Members are read one after the other. -/
theorem readMembersWith_memberListBytes {ms : List (String × Value)}
    (h : ∀ m ∈ ms, m.2.ReadsBack depth) {first : Bool}
    (hfuel : (memberListBytes first ms).length ≤ fuel) (rest : List UInt8) :
    readMembersWith fuel (depth + 1) first (memberListBytes first ms ++ rest)
      = .ok (Value.sortedMembers ms, rest) := by
  induction ms generalizing fuel first with
  | nil =>
    rcases fuel with - | fuel
    · exact absurd hfuel (Nat.not_succ_le_zero _)
    · cases first <;> rfl
  | cons m ms ih =>
    obtain ⟨name, v⟩ := m
    obtain ⟨-, hread⟩ : v.ReadsBack depth := h (name, v) List.mem_cons_self
    have hlength : v.bytes.length + (memberListBytes false ms).length < fuel := by
      simp only [memberListBytes, memberBytes, List.length_append, List.length_cons] at hfuel
      omega
    rcases fuel with - | fuel
    · omega
    · rw [readMembersWith, nextName_cons]
      have hvalue := hread fuel _ (by omega) (ending_memberListBytes ms rest)
      have hothers : readMembersWith fuel (depth + 1) false (memberListBytes false ms ++ rest)
          = .ok (Value.sortedMembers ms, rest) :=
        ih (fun m hm => h m (List.mem_cons_of_mem _ hm)) (by omega)
      refine bind_eq_ok_iff.mpr ⟨_, rfl, ?_⟩
      refine bind_eq_ok_iff.mpr ⟨_, readString_stringBody name _, ?_⟩
      refine bind_eq_ok_iff.mpr ⟨_, rfl, ?_⟩
      exact bind_eq_ok_iff.mpr ⟨_, hvalue, bind_eq_ok_iff.mpr ⟨_, hothers, rfl⟩⟩

/-- A value that begins with a digit is read as a number. -/
theorem readValueWith_digit {b : UInt8} (h : isDigit b = true) {bytes rest : List UInt8}
    {n : Number} (hread : readNumber true (b :: bytes) = .ok (n, rest)) :
    readValueWith (fuel + 1) depth (b :: bytes) = .ok (.number n, rest) := by
  have hne : ∀ c : UInt8, isDigit c = false → b ≠ c := fun c hc => ne_of_isDigit h hc
  rw [readValueWith, skipGaps_cons (isGap_of_isDigit h)]
  split
  · next heq => cases heq
  · next heq => exact absurd (List.cons.inj heq).1 (hne 110 rfl)
  · next heq => exact absurd (List.cons.inj heq).1 (hne 116 rfl)
  · next heq => exact absurd (List.cons.inj heq).1 (hne 102 rfl)
  · next heq => exact absurd (List.cons.inj heq).1 (hne 45 rfl)
  · next heq => exact absurd (List.cons.inj heq).1 (hne 34 rfl)
  · next heq => exact absurd (List.cons.inj heq).1 (hne 91 rfl)
  · next heq => exact absurd (List.cons.inj heq).1 (hne 123 rfl)
  · next heq =>
    obtain ⟨rfl, rfl⟩ := List.cons.inj heq
    rw [if_pos h]
    exact bind_eq_ok_iff.mpr ⟨_, hread, rfl⟩

/-- An integer is read back. -/
theorem readsBack_integer (depth : Nat) {i : Int} (hlow : -(negativeBound : Int) ≤ i)
    (hhigh : i < (significandBound : Int)) : (Value.number (.integer i)).ReadsBack depth := by
  have hbegins := (Value.Plain.integer depth i hlow hhigh).begins
  refine ⟨hbegins, fun fuel rest hfuel hrest => ?_⟩
  have hpos := hbegins.pos
  rcases fuel with - | fuel
  · omega
  · cases i with
    | ofNat n =>
      have hread := readNumber_digits (Int.ofNat_lt.mp hhigh) hrest true
      obtain ⟨b, r, hbytes, hb⟩ := encode_digits_cons n
      show readValueWith (fuel + 1) (depth + 1) (Text.encode (Decimal.digits n) ++ rest) = _
      rw [hbytes, List.cons_append] at hread ⊢
      exact readValueWith_digit hb hread
    | negSucc n =>
      -- the sign is taken off first, and what is left is the absolute value
      have hbound : n + 1 ≤ negativeBound := by omega
      have hread := readNumber_digits (n := n + 1)
        (Nat.lt_of_le_of_lt hbound (by decide)) hrest false
      have hwhole : wholeNumber false (n + 1) = .integer (Int.negSucc n) := by
        have hfits : ¬ negativeBound < n + 1 := Nat.not_lt.mpr hbound
        simp only [wholeNumber, Bool.false_eq_true, if_false, Nat.add_eq_zero_iff, Nat.one_ne_zero,
          and_false, decide_false, Bool.false_or, hfits]
        rfl
      show readValueWith (fuel + 1) (depth + 1)
        (45 :: (Text.encode (Decimal.digits (n + 1)) ++ rest)) = _
      rw [hwhole] at hread
      rw [readValueWith]
      exact bind_eq_ok_iff.mpr ⟨_, hread, rfl⟩

theorem Value.Plain.readsBack {v : Value} (h : v.Plain depth) : v.ReadsBack depth := by
  induction h with
  | null depth =>
    refine ⟨(Value.Plain.null depth).begins, fun fuel rest hfuel _ => ?_⟩
    rcases fuel with - | fuel
    · exact absurd hfuel (by decide)
    · rfl
  | bool depth b =>
    refine ⟨(Value.Plain.bool depth b).begins, fun fuel rest hfuel _ => ?_⟩
    rcases fuel with - | fuel
    · cases b <;> exact absurd hfuel (by decide)
    · cases b <;> rfl
  | integer depth i hlow hhigh => exact readsBack_integer depth hlow hhigh
  | string depth s =>
    refine ⟨(Value.Plain.string depth s).begins, fun fuel rest hfuel _ => ?_⟩
    rw [bytes_string] at hfuel ⊢
    rcases fuel with - | fuel
    · exact absurd hfuel (Nat.not_succ_le_zero _)
    · show readValueWith (fuel + 1) (depth + 1) (34 :: (stringBody s ++ [34] ++ rest)) = _
      rw [List.append_assoc, readValueWith]
      exact bind_eq_ok_iff.mpr ⟨_, readString_stringBody s rest, rfl⟩
  | array depth items parts ih =>
    refine ⟨(Value.Plain.array depth items parts).begins, fun fuel rest hfuel _ => ?_⟩
    rw [bytes_array] at hfuel ⊢
    rcases fuel with - | fuel
    · exact absurd hfuel (Nat.not_succ_le_zero _)
    · show readValueWith (fuel + 1) (depth + 2) (91 :: (itemBytes true items ++ rest)) = _
      rw [readValueWith]
      exact bind_eq_ok_iff.mpr
        ⟨_, readItemsWith_itemBytes ih (Nat.le_of_succ_le_succ hfuel) rest, rfl⟩
  | object depth members parts ih =>
    refine ⟨(Value.Plain.object depth members parts).begins, fun fuel rest hfuel _ => ?_⟩
    rw [bytes_object] at hfuel ⊢
    rcases fuel with - | fuel
    · exact absurd hfuel (Nat.not_succ_le_zero _)
    · show readValueWith (fuel + 1) (depth + 2) (123 :: (memberListBytes true members ++ rest)) = _
      rw [readValueWith]
      exact bind_eq_ok_iff.mpr
        ⟨_, readMembersWith_memberListBytes ih (Nat.le_of_succ_le_succ hfuel) rest, rfl⟩

/-- **The text of a value is read as the value, with the members of each object in order.** -/
theorem Value.ofBytes_bytes {v : Value} (h : v.Plain 127) : Value.ofBytes v.bytes = .ok v.sorted := by
  have hread := h.readsBack.2 (2 * v.bytes.length + 2) [] (by omega) .nothing
  rw [List.append_nil] at hread
  rw [Value.ofBytes, readValue, depthBound, hread]
  rfl

end ScriptRegistry.Json
