/-
ScriptRegistry/Proofs/Digest.lean

What spells a digest.

A text is read two characters at a time.  The second of them has to be a
hexadecimal digit; in place of the first a plus sign may stand, which counts as a
zero.  So the digest that a text spells is rendered as the text in lower case, with
zeros for the plus signs.  Of one pair this is `byteOfHex?_eq_some_iff`, and a list of
characters is looked at pair by pair.

Main results: `Digest.ofString_render` and `Digest.ofString_reads`.
-/
import ScriptRegistry.Artifact.Digest
import ScriptRegistry.Proofs.Utf8

namespace ScriptRegistry.Artifact

/-! ### Digits -/

/-- The hexadecimal digits, in either case. -/
def IsHexDigit (c : Char) : Prop :=
  ('0' ≤ c ∧ c ≤ '9') ∨ ('a' ≤ c ∧ c ≤ 'f') ∨ ('A' ≤ c ∧ c ≤ 'F')

instance (c : Char) : Decidable (IsHexDigit c) :=
  inferInstanceAs (Decidable (_ ∨ _))

theorem hexValue?_digitChar : ∀ n < 16,
    Nat.digitChar n ≠ '+' ∧ hexValue? (Nat.digitChar n) = some n := by
  decide

theorem IsHexDigit.toNat_lt {c : Char} (h : IsHexDigit c) : c.toNat < 128 := by
  have hle : ∀ {d : Char}, c ≤ d → c.toNat ≤ d.toNat := fun h => h
  rcases h with ⟨-, h⟩ | ⟨-, h⟩ | ⟨-, h⟩
  · exact Nat.lt_of_le_of_lt (hle h) (by decide)
  · exact Nat.lt_of_le_of_lt (hle h) (by decide)
  · exact Nat.lt_of_le_of_lt (hle h) (by decide)

theorem isHexDigit_of_hexValue? {c : Char} {n : Nat} (h : hexValue? c = some n) :
    IsHexDigit c := by
  simp only [hexValue?, Bool.and_eq_true, decide_eq_true_eq] at h
  split at h
  · next hc => exact .inl hc
  · split at h
    · next hc => exact .inr (.inl hc)
    · split at h
      · next hc => exact .inr (.inr hc)
      · cases h

/-- A digit has a value, and that value is written as the digit in lower case. -/
theorem IsHexDigit.exists_value {c : Char} (h : IsHexDigit c) :
    ∃ n < 16, hexValue? c = some n ∧ Nat.digitChar n = c.toLower ∧ c ≠ '+' := by
  have hascii : ∀ k < 128, IsHexDigit (Char.ofNat k) → ∃ n < 16,
      hexValue? (Char.ofNat k) = some n ∧ Nat.digitChar n = (Char.ofNat k).toLower ∧
        Char.ofNat k ≠ '+' := by
    decide
  rw [← Char.ofNat_toNat c] at h ⊢
  exact hascii _ (Char.ofNat_toNat c ▸ h.toNat_lt) h

/-- The digit that a character is rendered as: a plus sign counts as a zero. -/
def rendered (c : Char) : Char :=
  if c = '+' then '0' else c.toLower

theorem map_rendered_of_not_mem {cs : List Char} (h : '+' ∉ cs) :
    cs.map rendered = cs.map Char.toLower := by
  refine List.map_congr_left fun c hc => ?_
  rw [rendered, if_neg (fun hplus : c = '+' => h (hplus ▸ hc))]

/-! ### Pairs of characters -/

/-- The digits of a byte spell it. -/
theorem byteOfHex?_hexByte (b : UInt8) :
    byteOfHex? (Nat.digitChar (b.toNat / 16)) (Nat.digitChar (b.toNat % 16)) = some b := by
  have hb : b.toNat < 256 := b.toNat_lt
  obtain ⟨hplus, hhigh⟩ := hexValue?_digitChar (b.toNat / 16) (by omega)
  obtain ⟨-, hlow⟩ := hexValue?_digitChar (b.toNat % 16) (by omega)
  have hvalue : b.toNat / 16 * 16 + b.toNat % 16 = b.toNat := by omega
  rw [byteOfHex?, if_neg hplus, hhigh, hlow]
  show some (b.toNat / 16 * 16 + b.toNat % 16).toUInt8 = some b
  rw [hvalue]
  exact congrArg some UInt8.ofNat_toNat

theorem hexByte_inj {b b' : UInt8} (h : hexByte b = hexByte b') : b = b' := by
  simp only [hexByte, List.cons.injEq, and_true] at h
  have hb := byteOfHex?_hexByte b
  rw [h.1, h.2, byteOfHex?_hexByte] at hb
  exact (Option.some.inj hb).symm

/-- The byte with the digits `n` and `m`. -/
theorem hexByte_of_values {n m : Nat} (hn : n < 16) (hm : m < 16) :
    hexByte (n * 16 + m).toUInt8 = [Nat.digitChar n, Nat.digitChar m] := by
  rw [hexByte, Text.toNat_toUInt8 (by omega), show (n * 16 + m) / 16 = n by omega,
    show (n * 16 + m) % 16 = m by omega]

/-- What may stand first in a pair has a value. -/
def highValue? (a : Char) : Option Nat :=
  if a = '+' then some 0 else hexValue? a

theorem byteOfHex?_eq (a b : Char) :
    byteOfHex? a b = (highValue? a).bind fun high => (hexValue? b).bind fun low =>
      some (high * 16 + low).toUInt8 := by
  rw [byteOfHex?, highValue?]
  split
  · rfl
  · rfl

theorem exists_highValue? {a : Char} (h : IsHexDigit a ∨ a = '+') :
    ∃ n < 16, highValue? a = some n ∧ Nat.digitChar n = rendered a := by
  by_cases hplus : a = '+'
  · subst hplus
    exact ⟨0, by decide, rfl, rfl⟩
  · obtain ⟨n, hn, hvalue, hdigit, -⟩ := (h.resolve_right hplus).exists_value
    exact ⟨n, hn, by rw [highValue?, if_neg hplus, hvalue], by rw [rendered, if_neg hplus, hdigit]⟩

theorem mayStart_of_highValue? {a : Char} {n : Nat} (h : highValue? a = some n) :
    IsHexDigit a ∨ a = '+' := by
  by_cases hplus : a = '+'
  · exact .inr hplus
  · rw [highValue?, if_neg hplus] at h
    exact .inl (isHexDigit_of_hexValue? h)

/-- A pair spells a byte if it may be read at all, namely the one that is rendered as it. -/
theorem exists_byteOfHex? {a b : Char} (ha : IsHexDigit a ∨ a = '+') (hb : IsHexDigit b) :
    ∃ n, byteOfHex? a b = some n ∧ hexByte n = [rendered a, rendered b] := by
  obtain ⟨high, hhigh, hvalue, hdigit⟩ := exists_highValue? ha
  obtain ⟨low, hlow, hvalue', hdigit', hplus⟩ := hb.exists_value
  refine ⟨(high * 16 + low).toUInt8, ?_, ?_⟩
  · rw [byteOfHex?_eq, hvalue, hvalue']
    rfl
  · rw [hexByte_of_values hhigh hlow, hdigit, hdigit', rendered, rendered, if_neg hplus]

theorem byteOfHex?_eq_some_iff {a b : Char} {n : UInt8} :
    byteOfHex? a b = some n ↔
      (IsHexDigit a ∨ a = '+') ∧ IsHexDigit b ∧ hexByte n = [rendered a, rendered b] := by
  constructor
  · intro h
    have hparts := h
    rw [byteOfHex?_eq] at hparts
    obtain ⟨high, hhigh, hparts⟩ := Option.bind_eq_some_iff.mp hparts
    obtain ⟨low, hlow, -⟩ := Option.bind_eq_some_iff.mp hparts
    have ha := mayStart_of_highValue? hhigh
    have hb := isHexDigit_of_hexValue? hlow
    obtain ⟨n', hn', hrendered⟩ := exists_byteOfHex? ha hb
    rw [h] at hn'
    cases hn'
    exact ⟨ha, hb, hrendered⟩
  · rintro ⟨ha, hb, hrendered⟩
    obtain ⟨n', hn', hrendered'⟩ := exists_byteOfHex? ha hb
    rw [hn', hexByte_inj (hrendered'.trans hrendered.symm)]

/-! ### Lists of characters -/

/-- Characters that are read in pairs: digits, with plus signs at even places only. -/
def Spelling (cs : List Char) : Prop :=
  ∀ i (h : i < cs.length), IsHexDigit cs[i] ∨ (cs[i] = '+' ∧ i % 2 = 0)

theorem spelling_cons_cons {a b : Char} {rest : List Char} :
    Spelling (a :: b :: rest) ↔ (IsHexDigit a ∨ a = '+') ∧ IsHexDigit b ∧ Spelling rest := by
  constructor
  · intro h
    refine ⟨(h 0 (by simp)).imp_right And.left, (h 1 (by simp)).resolve_right (by simp),
      fun i hi => ?_⟩
    have hi' := h (i + 2) (by simpa using hi)
    rwa [Nat.add_mod_right] at hi'
  · rintro ⟨ha, hb, hrest⟩ i hi
    match i, hi with
    | 0, _ => exact ha.imp_right fun hplus => ⟨hplus, rfl⟩
    | 1, _ => exact .inl hb
    | i + 2, hi =>
      rw [Nat.add_mod_right]
      exact hrest i (by simpa using hi)

theorem Spelling.toNat_lt {cs : List Char} (h : Spelling cs) : ∀ c ∈ cs, c.toNat < 128 := by
  intro c hc
  obtain ⟨i, hi, rfl⟩ := List.getElem_of_mem hc
  rcases h i hi with hdigit | ⟨hplus, -⟩
  · exact hdigit.toNat_lt
  · rw [hplus]
    decide

theorem length_flatMap_hexByte (bytes : List UInt8) :
    (bytes.flatMap hexByte).length = 2 * bytes.length := by
  induction bytes with
  | nil => rfl
  | cons b bytes ih =>
    rw [List.flatMap_cons, List.length_append, ih, List.length_cons]
    show 2 + 2 * bytes.length = _
    omega

/-- The digits of bytes spell them. -/
theorem bytesOfHex?_flatMap (bytes : List UInt8) :
    bytesOfHex? (bytes.flatMap hexByte) = some bytes := by
  induction bytes with
  | nil => rfl
  | cons b bytes ih =>
    show (do
      return (← byteOfHex? (Nat.digitChar (b.toNat / 16)) (Nat.digitChar (b.toNat % 16))) ::
        (← bytesOfHex? (bytes.flatMap hexByte))) = some (b :: bytes)
    rw [byteOfHex?_hexByte, ih]
    rfl

/-- Characters spell the bytes that are rendered as they are. -/
theorem bytesOfHex?_eq_some_iff {cs : List Char} {bytes : List UInt8} :
    bytesOfHex? cs = some bytes ↔ Spelling cs ∧ bytes.flatMap hexByte = cs.map rendered := by
  induction cs using bytesOfHex?.induct generalizing bytes with
  | case1 =>
    constructor
    · rintro ⟨⟩
      exact ⟨fun i hi => absurd hi (Nat.not_lt_zero i), rfl⟩
    · rintro ⟨-, hbytes⟩
      have hlength := length_flatMap_hexByte bytes
      rw [hbytes] at hlength
      simp only [List.map_nil, List.length_nil] at hlength
      rw [List.eq_nil_of_length_eq_zero (show bytes.length = 0 by omega)]
      rfl
  | case2 a b rest ih =>
    rw [spelling_cons_cons]
    constructor
    · intro h
      obtain ⟨n, hn, h'⟩ := Option.bind_eq_some_iff.mp h
      obtain ⟨ns, hns, h''⟩ := Option.bind_eq_some_iff.mp h'
      cases h''
      obtain ⟨ha, hb, hn⟩ := byteOfHex?_eq_some_iff.mp hn
      obtain ⟨hrest, hns⟩ := ih.mp hns
      exact ⟨⟨ha, hb, hrest⟩, by rw [List.flatMap_cons, hn, hns]; rfl⟩
    · rintro ⟨⟨ha, hb, hrest⟩, hbytes⟩
      cases bytes with
      | nil => cases hbytes
      | cons n ns =>
        have hparts : hexByte n = [rendered a, rendered b] ∧
            ns.flatMap hexByte = rest.map rendered :=
          List.append_inj hbytes rfl
        rw [bytesOfHex?, byteOfHex?_eq_some_iff.mpr ⟨ha, hb, hparts.1⟩,
          ih.mpr ⟨hrest, hparts.2⟩]
        rfl
  | case3 a =>
    constructor
    · rintro ⟨⟩
    · rintro ⟨-, hbytes⟩
      have hlength := length_flatMap_hexByte bytes
      rw [hbytes] at hlength
      simp only [List.map_cons, List.map_nil, List.length_cons, List.length_nil] at hlength
      omega

/-- Characters that come in pairs and may be read spell bytes. -/
theorem Spelling.exists_bytes {cs : List Char} (h : Spelling cs) (heven : cs.length % 2 = 0) :
    ∃ bytes, bytesOfHex? cs = some bytes := by
  induction cs using bytesOfHex?.induct with
  | case1 => exact ⟨[], rfl⟩
  | case2 a b rest ih =>
    obtain ⟨ha, hb, hrest⟩ := spelling_cons_cons.mp h
    obtain ⟨n, hn, -⟩ := exists_byteOfHex? ha hb
    obtain ⟨ns, hns⟩ := ih hrest (by rwa [← Nat.add_mod_right])
    exact ⟨n :: ns, by rw [bytesOfHex?, hn, hns]; rfl⟩
  | case3 a => cases heven

/-! ### Texts -/

namespace Digest

theorem render_toList (d : Digest) : d.render.toList = d.bytes.flatMap hexByte := by
  rw [render, String.toList_ofList]

/-- A text spells a digest if it has 64 characters that may be read in pairs; the digest is
rendered as they are. -/
theorem ofString_eq_ok_iff {text : String} {d : Digest} :
    ofString text = .ok d ↔
      (text.toList.length = 64 ∧ Spelling text.toList) ∧
        d.render.toList = text.toList.map rendered := by
  rw [render_toList]
  constructor
  · intro h
    simp only [ofString] at h
    split at h
    · cases h
    · next hlength =>
      split at h
      · cases h
      · next bytes hbytes =>
        split at h
        · next h32 =>
          cases h
          obtain ⟨hspelling, hbytes⟩ := bytesOfHex?_eq_some_iff.mp hbytes
          refine ⟨⟨?_, hspelling⟩, hbytes⟩
          rw [← List.length_map rendered, ← hbytes, length_flatMap_hexByte, h32]
        · cases h
  · rintro ⟨⟨hlength, hspelling⟩, hrendered⟩
    have hascii := hspelling.toNat_lt
    have hany : text.toList.any (fun c => decide (128 ≤ c.toNat)) = false := by
      rw [List.any_eq_false]
      intro c hc
      have hlt := hascii c hc
      simp only [decide_eq_true_eq]
      omega
    have hbytes := bytesOfHex?_eq_some_iff.mpr ⟨hspelling, hrendered⟩
    simp only [ofString, Text.byteLength_of_ascii hascii, hlength, hany, hbytes, d.length_bytes,
      ne_eq, not_true_eq_false, decide_false, Bool.or_self, Bool.false_eq_true, if_false, dite_true]

/-- A digest is read back from its digits. -/
theorem ofString_render (d : Digest) : ofString d.render = .ok d := by
  obtain ⟨hspelling, hrendered⟩ := bytesOfHex?_eq_some_iff.mp (bytesOfHex?_flatMap d.bytes)
  refine ofString_eq_ok_iff.mpr ⟨⟨?_, ?_⟩, ?_⟩
  · rw [render_toList, length_flatMap_hexByte, d.length_bytes]
  · rwa [render_toList]
  · rwa [render_toList]

/-- Without a plus sign every place has to hold a digit. -/
theorem spelling_iff_of_not_mem {cs : List Char} (h : '+' ∉ cs) :
    Spelling cs ↔ ∀ c ∈ cs, IsHexDigit c := by
  constructor
  · intro hspelling c hc
    obtain ⟨i, hi, rfl⟩ := List.getElem_of_mem hc
    exact (hspelling i hi).resolve_right fun hplus => h (hplus.1 ▸ hc)
  · exact fun hdigits i hi => .inl (hdigits _ (List.getElem_mem hi))

/-- **A text spells a digest exactly if it has 64 characters, each a hexadecimal digit or, first in
its pair, a plus sign; and the digest is rendered as the text in lower case with zeros for the plus
signs.  Without plus signs that leaves the 64 digits in either case, and every digest is read back
from the text it is rendered as.** -/
theorem ofString_reads (text : String) :
    ((∃ d, ofString text = .ok d) ↔ text.toList.length = 64 ∧ Spelling text.toList) ∧
    (∀ d, ofString text = .ok d → d.render.toList = text.toList.map rendered) ∧
    ('+' ∉ text.toList →
      ((∃ d, ofString text = .ok d) ↔
        text.toList.length = 64 ∧ ∀ c ∈ text.toList, IsHexDigit c) ∧
      ∀ d, ofString text = .ok d → d.render = text.toLower) ∧
    ∀ d, ofString d.render = .ok d := by
  have hread : (∃ d, ofString text = .ok d) ↔ text.toList.length = 64 ∧ Spelling text.toList := by
    constructor
    · rintro ⟨d, hd⟩
      exact (ofString_eq_ok_iff.mp hd).1
    · rintro ⟨hlength, hspelling⟩
      obtain ⟨bytes, hbytes⟩ := hspelling.exists_bytes (by rw [hlength])
      have hrendered := (bytesOfHex?_eq_some_iff.mp hbytes).2
      have h32 : bytes.length = 32 := by
        have hcount := length_flatMap_hexByte bytes
        rw [hrendered, List.length_map, hlength] at hcount
        omega
      refine ⟨⟨bytes, h32⟩, ofString_eq_ok_iff.mpr ⟨⟨hlength, hspelling⟩, ?_⟩⟩
      rw [render_toList, hrendered]
  have hrendered : ∀ d, ofString text = .ok d → d.render.toList = text.toList.map rendered :=
    fun d hd => (ofString_eq_ok_iff.mp hd).2
  refine ⟨hread, hrendered, fun hplus => ⟨?_, fun d hd => ?_⟩, ofString_render⟩
  · rw [hread, spelling_iff_of_not_mem hplus]
  · rw [← String.toList_inj, hrendered d hd, map_rendered_of_not_mem hplus, ← String.toList_map]
    rfl

/-- A plus sign is no digit, and a text that starts with one spells a digest. -/
theorem ofString_plusSign :
    ¬ ((∃ d, ofString "+f23456789abcdef0123456789abcdef0123456789abcdef0123456789abcdef" = .ok d) ↔
      "+f23456789abcdef0123456789abcdef0123456789abcdef0123456789abcdef".toList.length = 64 ∧
        ∀ c ∈ "+f23456789abcdef0123456789abcdef0123456789abcdef0123456789abcdef".toList,
          IsHexDigit c) := by
  intro h
  have hread : ofString "+f23456789abcdef0123456789abcdef0123456789abcdef0123456789abcdef" =
      .ok ⟨[15, 35, 69, 103, 137, 171, 205, 239, 1, 35, 69, 103, 137, 171, 205, 239,
        1, 35, 69, 103, 137, 171, 205, 239, 1, 35, 69, 103, 137, 171, 205, 239], rfl⟩ := by
    rfl
  exact absurd ((h.mp ⟨_, hread⟩).2 '+' (by decide)) (by decide)

end Digest

end ScriptRegistry.Artifact
