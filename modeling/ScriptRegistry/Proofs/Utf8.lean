/-
ScriptRegistry/Proofs/Utf8.lean

Bytes of a text lead back to the text, and no other bytes do.

The tests on bytes are first said about their numbers, so that a character's
bytes can be followed by arithmetic: each of the four widths of `encodeChar` is
one case, and in each the lead byte announces the width, the bytes behind it
pass their tests, and the payloads add up to the code point.  The narrower
ranges of `isSecond` are met because the code point is not below its width and
is no surrogate.

The way back uses the same ranges.  Bytes that pass the tests of their width add
up to a code point that is no surrogate and needs this width, so that writing it
gives the bytes again: a text has one spelling.

Main results: `decodeChar_encodeChar`, with any bytes behind, `decode_encode` and
`decode_eq_ok_iff`.
-/
import ScriptRegistry.Text.Utf8

namespace ScriptRegistry.Text

/-! ### Tests on bytes, by number -/

theorem toNat_toUInt8 {n : Nat} (h : n < 256) : n.toUInt8.toNat = n := by
  show n % 256 = n
  exact Nat.mod_eq_of_lt h

theorem payload_toUInt8 {n : Nat} (h : n < 64) : payload (0x80 + n).toUInt8 = n := by
  rw [payload, toNat_toUInt8 (by omega)]
  omega

theorem isContinuation_toUInt8 {n : Nat} (h : n < 64) :
    isContinuation (0x80 + n).toUInt8 = true := by
  have hb : (0x80 + n).toUInt8.toNat = 0x80 + n := toNat_toUInt8 (by omega)
  simp only [isContinuation, Bool.and_eq_true, decide_eq_true_eq, UInt8.le_iff_toNat_le,
    UInt8.lt_iff_toNat_lt, hb]
  exact ⟨Nat.le_add_right _ _, by show 0x80 + n < 192; omega⟩

/-- The width that a lead byte announces. -/
theorem sequenceLength_eq {b : UInt8} {n : Nat} (hb : b.toNat = n) :
    sequenceLength b = if n < 0x80 then some 1 else if 0xc2 ≤ n ∧ n < 0xe0 then some 2
      else if 0xe0 ≤ n ∧ n < 0xf0 then some 3 else if 0xf0 ≤ n ∧ n < 0xf5 then some 4
      else none := by
  subst hb
  simp only [sequenceLength, Bool.and_eq_true, decide_eq_true_eq, UInt8.le_iff_toNat_le,
    UInt8.lt_iff_toNat_lt]
  rfl

/-- The second bytes of a lead byte, by number. -/
theorem isSecond_of {lead b : UInt8} {n m : Nat} (hlead : lead.toNat = n) (hb : b.toNat = m)
    (hm : 0x80 ≤ m ∧ m < 0xc0) (h₁ : n = 0xe0 → 0xa0 ≤ m) (h₂ : n = 0xed → m < 0xa0)
    (h₃ : n = 0xf0 → 0x90 ≤ m) (h₄ : n = 0xf4 → m < 0x90) : isSecond lead b = true := by
  subst hlead hb
  have heq : ∀ k : UInt8, lead = k ↔ lead.toNat = k.toNat := fun k => UInt8.toNat_inj.symm
  simp only [isSecond, isContinuation, heq]
  split
  · next h => simpa [UInt8.le_iff_toNat_le, UInt8.lt_iff_toNat_lt] using ⟨h₁ h, hm.2⟩
  · split
    · next h => simpa [UInt8.le_iff_toNat_le, UInt8.lt_iff_toNat_lt] using ⟨hm.1, h₂ h⟩
    · split
      · next h => simpa [UInt8.le_iff_toNat_le, UInt8.lt_iff_toNat_lt] using ⟨h₃ h, hm.2⟩
      · split
        · next h => simpa [UInt8.le_iff_toNat_le, UInt8.lt_iff_toNat_lt] using ⟨hm.1, h₄ h⟩
        · simpa [UInt8.le_iff_toNat_le, UInt8.lt_iff_toNat_lt] using hm

theorem isContinuation_iff {b : UInt8} :
    isContinuation b = true ↔ 0x80 ≤ b.toNat ∧ b.toNat < 0xc0 := by
  simp only [isContinuation, Bool.and_eq_true, decide_eq_true_eq, UInt8.le_iff_toNat_le,
    UInt8.lt_iff_toNat_lt]
  exact Iff.rfl

/-- The range of a second byte, and how a lead byte narrows it. -/
theorem isSecond_range {lead b : UInt8} (h : isSecond lead b = true) :
    0x80 ≤ b.toNat ∧ b.toNat < 0xc0 ∧ (lead.toNat = 0xe0 → 0xa0 ≤ b.toNat) ∧
      (lead.toNat = 0xed → b.toNat < 0xa0) ∧ (lead.toNat = 0xf0 → 0x90 ≤ b.toNat) ∧
      (lead.toNat = 0xf4 → b.toNat < 0x90) := by
  have heq : ∀ k : UInt8, lead = k ↔ lead.toNat = k.toNat := fun k => UInt8.toNat_inj.symm
  simp only [isSecond, isContinuation, heq] at h
  repeat' split at h
  all_goals
    simp only [Bool.and_eq_true, decide_eq_true_eq, UInt8.le_iff_toNat_le,
      UInt8.lt_iff_toNat_lt, UInt8.reduceToNat] at h
    simp only [UInt8.reduceToNat] at *
    omega

/-- The range of the lead bytes of each width. -/
theorem sequenceLength_range {b : UInt8} {width : Nat} (h : sequenceLength b = some width) :
    width = 1 ∧ b.toNat < 0x80 ∨ width = 2 ∧ 0xc2 ≤ b.toNat ∧ b.toNat < 0xe0 ∨
      width = 3 ∧ 0xe0 ≤ b.toNat ∧ b.toNat < 0xf0 ∨
      width = 4 ∧ 0xf0 ≤ b.toNat ∧ b.toNat < 0xf5 := by
  rw [sequenceLength_eq rfl] at h
  split at h
  · cases h
    omega
  · split at h
    · cases h
      omega
    · split at h
      · cases h
        omega
      · split at h
        · cases h
          omega
        · cases h

theorem toUInt8_of_toNat {n : Nat} {b : UInt8} (h : n = b.toNat) : n.toUInt8 = b := by
  subst h
  exact UInt8.ofNat_toNat

/-! ### Characters by width -/

section Width

variable {lead b₁ b₂ b₃ : UInt8} {rest : List UInt8}

theorem decodeChar_one (h : sequenceLength lead = some 1) :
    decodeChar lead rest = .ok (Char.ofNat lead.toNat, rest) := by
  rw [decodeChar]
  exact h

theorem decodeChar_two (h : sequenceLength lead = some 2) (h₁ : isContinuation b₁ = true) :
    decodeChar lead (b₁ :: rest)
      = .ok (Char.ofNat ((lead.toNat % 32) * 64 + payload b₁), rest) := by
  simp only [decodeChar, h, h₁, if_true]

theorem decodeChar_three (h : sequenceLength lead = some 3) (h₁ : isSecond lead b₁ = true)
    (h₂ : isContinuation b₂ = true) :
    decodeChar lead (b₁ :: b₂ :: rest)
      = .ok (Char.ofNat ((lead.toNat % 16) * 4096 + payload b₁ * 64 + payload b₂), rest) := by
  simp only [decodeChar, h, h₁, h₂, Bool.not_true, Bool.false_eq_true, if_false, if_true]

theorem decodeChar_four (h : sequenceLength lead = some 4) (h₁ : isSecond lead b₁ = true)
    (h₂ : isContinuation b₂ = true) (h₃ : isContinuation b₃ = true) :
    decodeChar lead (b₁ :: b₂ :: b₃ :: rest)
      = .ok (Char.ofNat ((lead.toNat % 8) * 262144 + payload b₁ * 4096 + payload b₂ * 64
          + payload b₃), rest) := by
  simp only [decodeChar, h, h₁, h₂, h₃, Bool.not_true, Bool.false_eq_true, if_false, if_true]

end Width

/-! ### Round trips -/

/-- A code point is no surrogate and not above the last one. -/
theorem toNat_valid (c : Char) : c.toNat < 0xd800 ∨ 0xdfff < c.toNat ∧ c.toNat < 0x110000 :=
  c.valid

theorem ofNat_of_eq {c : Char} {n : Nat} (h : n = c.toNat) : Char.ofNat n = c := by
  rw [h]
  exact Char.ofNat_toNat c

/-- The bytes of a character are read as the character, whatever follows them. -/
theorem decodeChar_encodeChar (c : Char) (rest : List UInt8) :
    ∃ lead tail, encodeChar c = lead :: tail ∧
      decodeChar lead (tail ++ rest) = .ok (c, rest) := by
  have hvalid := toNat_valid c
  have hcont : ∀ n : Nat, isContinuation (0x80 + n % 64).toUInt8 = true :=
    fun n => isContinuation_toUInt8 (Nat.mod_lt _ (by decide))
  have hload : ∀ n : Nat, payload (0x80 + n % 64).toUInt8 = n % 64 :=
    fun n => payload_toUInt8 (Nat.mod_lt _ (by decide))
  rw [encodeChar]
  split
  · next h₁ =>
    have hlead : c.toNat.toUInt8.toNat = c.toNat := toNat_toUInt8 (by omega)
    refine ⟨_, _, rfl, ?_⟩
    have hlen : sequenceLength c.toNat.toUInt8 = some 1 := by
      rw [sequenceLength_eq hlead, if_pos h₁]
    rw [List.nil_append, decodeChar_one hlen, ofNat_of_eq hlead]
  · split
    · next h₁ h₂ =>
      have hlead : (0xc0 + c.toNat / 64).toUInt8.toNat = 0xc0 + c.toNat / 64 :=
        toNat_toUInt8 (by omega)
      refine ⟨_, _, rfl, ?_⟩
      have hlen : sequenceLength (0xc0 + c.toNat / 64).toUInt8 = some 2 := by
        rw [sequenceLength_eq hlead, if_neg (by omega), if_pos (by omega)]
      rw [List.cons_append, List.nil_append, decodeChar_two hlen (hcont _), hlead, hload,
        ofNat_of_eq (c := c) (by omega)]
    · split
      · next h₁ h₂ h₃ =>
        have hlead : (0xe0 + c.toNat / 4096).toUInt8.toNat = 0xe0 + c.toNat / 4096 :=
          toNat_toUInt8 (by omega)
        have hnext : (0x80 + c.toNat / 64 % 64).toUInt8.toNat = 0x80 + c.toNat / 64 % 64 :=
          toNat_toUInt8 (by omega)
        refine ⟨_, _, rfl, ?_⟩
        have hlen : sequenceLength (0xe0 + c.toNat / 4096).toUInt8 = some 3 := by
          rw [sequenceLength_eq hlead, if_neg (by omega), if_neg (by omega), if_pos (by omega)]
        -- the lead bytes of overlong forms and of surrogates narrow the second byte
        have hsecond := isSecond_of hlead hnext (by omega) (by omega) (by omega) (by omega)
          (by omega)
        rw [List.cons_append, List.cons_append, List.nil_append,
          decodeChar_three hlen hsecond (hcont _), hlead, hload, hload,
          ofNat_of_eq (c := c) (by omega)]
      · next h₁ h₂ h₃ =>
        have hlead : (0xf0 + c.toNat / 262144).toUInt8.toNat = 0xf0 + c.toNat / 262144 :=
          toNat_toUInt8 (by omega)
        have hnext : (0x80 + c.toNat / 4096 % 64).toUInt8.toNat = 0x80 + c.toNat / 4096 % 64 :=
          toNat_toUInt8 (by omega)
        refine ⟨_, _, rfl, ?_⟩
        have hlen : sequenceLength (0xf0 + c.toNat / 262144).toUInt8 = some 4 := by
          rw [sequenceLength_eq hlead, if_neg (by omega), if_neg (by omega), if_neg (by omega),
            if_pos (by omega)]
        -- the last lead byte narrows the second one to what is below the last code point
        have hsecond := isSecond_of hlead hnext (by omega) (by omega) (by omega) (by omega)
          (by omega)
        rw [List.cons_append, List.cons_append, List.cons_append, List.nil_append,
          decodeChar_four hlen hsecond (hcont _) (hcont _), hlead, hload, hload, hload,
          ofNat_of_eq (c := c) (by omega)]

theorem decodeFrom_encode (valid : Nat) (s : List Char) :
    decodeFrom valid (encode s) = .ok s := by
  induction s generalizing valid with
  | nil => rw [encode, List.flatMap_nil, decodeFrom]
  | cons c s ih =>
    obtain ⟨lead, tail, hbytes, hchar⟩ := decodeChar_encodeChar c (encode s)
    have hencode : encode (c :: s) = lead :: (tail ++ encode s) := by
      rw [encode, List.flatMap_cons, hbytes]
      rfl
    rw [hencode, decodeFrom]
    split
    · next d r hd =>
      obtain ⟨rfl, rfl⟩ : c = d ∧ encode s = r := by
        rw [hchar] at hd
        exact Prod.mk.inj (Except.ok.inj hd)
      rw [ih]
      rfl
    · next hd => rw [hchar] at hd; cases hd
    · next hd => rw [hchar] at hd; cases hd

/-- **The bytes of a text are read as the text.** -/
theorem decode_encode (s : List Char) : decode (encode s) = .ok s :=
  decodeFrom_encode 0 s

/-! ### Bytes of texts -/

theorem encode_append (s t : List Char) : encode (s ++ t) = encode s ++ encode t :=
  List.flatMap_append

theorem encode_cons (c : Char) (s : List Char) : encode (c :: s) = encodeChar c ++ encode s :=
  List.flatMap_cons

theorem byteLength_append (s t : List Char) :
    byteLength (s ++ t) = byteLength s + byteLength t := by
  rw [byteLength, encode_append, List.length_append]
  rfl

theorem encodeChar_of_ascii {c : Char} (h : c.toNat < 128) : encodeChar c = [c.toNat.toUInt8] := by
  rw [encodeChar]
  exact if_pos h

theorem byteLength_of_ascii {s : List Char} (h : ∀ c ∈ s, c.toNat < 128) :
    byteLength s = s.length := by
  induction s with
  | nil => rfl
  | cons c s ih =>
    have hothers : (encode s).length = s.length := ih fun d hd => h d (List.mem_cons_of_mem _ hd)
    rw [byteLength, encode_cons, encodeChar_of_ascii (h c List.mem_cons_self), List.length_append,
      hothers, List.length_singleton, List.length_cons, Nat.add_comm]

/-- Each byte of a character is the character or none below 128. -/
theorem of_mem_encodeChar {c : Char} {b : UInt8} (h : b ∈ encodeChar c) :
    b.toNat = c.toNat ∨ 128 ≤ b.toNat := by
  have hvalid := toNat_valid c
  have hhigh : ∀ n, 128 ≤ n → n < 256 → 128 ≤ n.toUInt8.toNat := by
    intro n hn hlt
    rw [toNat_toUInt8 hlt]
    exact hn
  rw [encodeChar] at h
  split at h
  · rw [List.mem_singleton.mp h]
    exact Or.inl (toNat_toUInt8 (by omega))
  · refine Or.inr ?_
    split at h
    · rcases List.mem_cons.mp h with rfl | h
      · exact hhigh _ (by omega) (by omega)
      · rw [List.mem_singleton.mp h]
        exact hhigh _ (by omega) (by omega)
    · split at h
      · simp only [List.mem_cons, List.not_mem_nil, or_false] at h
        rcases h with rfl | rfl | rfl
        all_goals exact hhigh _ (by omega) (by omega)
      · simp only [List.mem_cons, List.not_mem_nil, or_false] at h
        rcases h with rfl | rfl | rfl | rfl
        all_goals exact hhigh _ (by omega) (by omega)

/-- The first byte of a character continues none. -/
theorem exists_encodeChar_cons (c : Char) :
    ∃ lead tail, encodeChar c = lead :: tail ∧ isContinuation lead = false := by
  obtain ⟨lead, tail, hc, hread⟩ := decodeChar_encodeChar c []
  refine ⟨lead, tail, hc, ?_⟩
  cases hwidth : sequenceLength lead with
  | none =>
    simp only [decodeChar, hwidth] at hread
    cases hread
  | some width =>
    have hrange := sequenceLength_range hwidth
    rw [← Bool.not_eq_true, isContinuation_iff]
    omega

/-! ### Texts of bytes -/

theorem toNat_ofNat {n : Nat} (h : n < 0xd800 ∨ 0xdfff < n ∧ n < 0x110000) :
    (Char.ofNat n).toNat = n := by
  rw [Char.ofNat, dif_pos h]
  rfl

section Width

variable {lead b₁ b₂ b₃ : UInt8}

theorem encodeChar_one (h : lead.toNat < 0x80) : encodeChar (Char.ofNat lead.toNat) = [lead] := by
  rw [encodeChar, toNat_ofNat (by omega)]
  exact (if_pos h).trans (congrArg (fun b => [b]) (toUInt8_of_toNat rfl))

theorem encodeChar_two (h : 0xc2 ≤ lead.toNat ∧ lead.toNat < 0xe0)
    (h₁ : isContinuation b₁ = true) :
    encodeChar (Char.ofNat ((lead.toNat % 32) * 64 + payload b₁)) = [lead, b₁] := by
  have hb₁ := isContinuation_iff.mp h₁
  rw [payload, encodeChar, toNat_ofNat (by omega)]
  rw [if_neg (by omega), if_pos (by omega), toUInt8_of_toNat (b := lead) (by omega),
    toUInt8_of_toNat (b := b₁) (by omega)]

theorem encodeChar_three (h : 0xe0 ≤ lead.toNat ∧ lead.toNat < 0xf0)
    (h₁ : isSecond lead b₁ = true) (h₂ : isContinuation b₂ = true) :
    encodeChar (Char.ofNat ((lead.toNat % 16) * 4096 + payload b₁ * 64 + payload b₂))
      = [lead, b₁, b₂] := by
  have hb₁ := isSecond_range h₁
  have hb₂ := isContinuation_iff.mp h₂
  -- the narrowed second byte keeps the code point off the surrogates and above two bytes
  rw [payload, payload, encodeChar, toNat_ofNat (by omega)]
  rw [if_neg (by omega), if_neg (by omega), if_pos (by omega),
    toUInt8_of_toNat (b := lead) (by omega), toUInt8_of_toNat (b := b₁) (by omega),
    toUInt8_of_toNat (b := b₂) (by omega)]

theorem encodeChar_four (h : 0xf0 ≤ lead.toNat ∧ lead.toNat < 0xf5)
    (h₁ : isSecond lead b₁ = true) (h₂ : isContinuation b₂ = true)
    (h₃ : isContinuation b₃ = true) :
    encodeChar (Char.ofNat ((lead.toNat % 8) * 262144 + payload b₁ * 4096 + payload b₂ * 64
      + payload b₃)) = [lead, b₁, b₂, b₃] := by
  have hb₁ := isSecond_range h₁
  have hb₂ := isContinuation_iff.mp h₂
  have hb₃ := isContinuation_iff.mp h₃
  rw [payload, payload, payload, encodeChar, toNat_ofNat (by omega)]
  rw [if_neg (by omega), if_neg (by omega), if_neg (by omega),
    toUInt8_of_toNat (b := lead) (by omega), toUInt8_of_toNat (b := b₁) (by omega),
    toUInt8_of_toNat (b := b₂) (by omega), toUInt8_of_toNat (b := b₃) (by omega)]

end Width

/-- A character that is read is written by the bytes that were taken for it. -/
theorem encodeChar_of_decodeChar {lead : UInt8} {rest r : List UInt8} {c : Char}
    (h : decodeChar lead rest = .ok (c, r)) : lead :: rest = encodeChar c ++ r := by
  have hrange := fun width (hwidth : sequenceLength lead = some width) =>
    sequenceLength_range hwidth
  unfold decodeChar at h
  split at h
  · next hlength =>
    cases h
    rw [encodeChar_one (by have := hrange 1 hlength; omega)]
    rfl
  · next hlength =>
    split at h
    · next h₁ =>
      cases h
      rw [encodeChar_two (by have := hrange 2 hlength; omega) h₁]
      rfl
    · cases h
  · next hlength =>
    split at h
    · cases h
    · next h₁ =>
      split at h
      · cases h
      · split at h
        · next h₂ =>
          cases h
          rw [encodeChar_three (by have := hrange 3 hlength; omega) (by simpa using h₁) h₂]
          rfl
        · cases h
  · next hlength =>
    split at h
    · cases h
    · next h₁ =>
      split at h
      · cases h
      · split at h
        · cases h
        · next h₂ =>
          split at h
          · cases h
          · split at h
            · next h₃ =>
              cases h
              rw [encodeChar_four (by have := hrange 4 hlength; omega) (by simpa using h₁)
                (by simpa using h₂) h₃]
              rfl
            · cases h
  · cases h
  · cases h

theorem encode_of_decodeFrom {valid : Nat} {bytes : List UInt8} {s : List Char}
    (h : decodeFrom valid bytes = .ok s) : bytes = encode s := by
  fun_induction decodeFrom valid bytes generalizing s with
  | case1 =>
    cases h
    rfl
  | case2 valid lead rest c r hchar hlength ih =>
    cases hrest : decodeFrom (valid + (sequenceLength lead).getD 1) r with
    | error fault =>
      rw [hrest] at h
      cases h
    | ok t =>
      rw [hrest] at h
      cases h
      rw [encode_cons, ← ih hrest]
      exact encodeChar_of_decodeChar hchar
  | case3 => cases h
  | case4 => cases h

/-- **Bytes are read as a text exactly if they are the bytes of the text.** -/
theorem decode_eq_ok_iff {bytes : List UInt8} {s : List Char} :
    decode bytes = .ok s ↔ bytes = encode s := by
  constructor
  · exact encode_of_decodeFrom
  · rintro rfl
    exact decode_encode s

/-- A text is known by its bytes. -/
theorem encode_inj {s t : List Char} : encode s = encode t ↔ s = t := by
  constructor
  · intro h
    have hs := decode_encode s
    rw [h, decode_encode] at hs
    exact (Except.ok.inj hs).symm
  · exact congrArg encode

/-- The beginning of a text is known by the number of its bytes. -/
theorem append_inj_of_byteLength {s s' t t' : List Char} (h : s ++ t = s' ++ t')
    (hlength : byteLength s = byteLength s') : s = s' ∧ t = t' := by
  have hbytes := congrArg encode h
  rw [encode_append, encode_append] at hbytes
  obtain rfl : s = s' := encode_inj.mp (List.append_inj_left hbytes hlength)
  exact ⟨rfl, List.append_cancel_left h⟩

end ScriptRegistry.Text
