/-
ScriptRegistry/Proofs/Payload.lean

A payload holds one text, and a text has one payload, up to blanks.

The symbols of an encoding come in groups of four.  Seen from the numbers of its
symbols, a group stands for three bytes, or as the last one for two or one; then
the bits that belong to no byte are zero (`LastGroup`).  Every group of bytes has
such numbers, and writing its bytes gives their symbols again, so the relation is
read off both from what is written and from what is accepted.  A reader that went
on where a filler is missing, or that passed over bits that are not zero, would
not fit into it.

The bytes of a text are unique as well, and no symbol is a blank: what is opened
is the payload of the text with blanks put in.

Main results: `Base64.decode_eq_ok_iff` and `decodeText_eq_ok_iff_unwrapped`.
-/
import ScriptRegistry.Proofs.Document
import ScriptRegistry.Proofs.Utf8
import ScriptRegistry.Transport.Payload

namespace ScriptRegistry.Transport.Base64

open Json (bind_eq_ok_iff)
open Text (toUInt8_of_toNat toNat_toUInt8)

/-! ### Symbols -/

theorem value?_symbol {n : Nat} (h : n < 64) : value? (symbol n) = some n := by
  revert h
  revert n
  decide

/-- Each of the five ranges of symbols is counted from where the one before ends. -/
theorem eq_symbol_of_value? {b : UInt8} {n : Nat} (h : value? b = some n) :
    n < 64 ∧ b = symbol n := by
  simp only [value?, Bool.and_eq_true, decide_eq_true_eq, UInt8.le_iff_toNat_le,
    ← UInt8.toNat_inj, UInt8.reduceToNat] at h
  rw [symbol]
  split at h
  · cases h
    rw [if_pos (by omega), toUInt8_of_toNat (b := b) (by omega)]
    exact ⟨by omega, rfl⟩
  · split at h
    · cases h
      rw [if_neg (by omega), if_pos (by omega), toUInt8_of_toNat (b := b) (by omega)]
      exact ⟨by omega, rfl⟩
    · split at h
      · cases h
        rw [if_neg (by omega), if_neg (by omega), if_pos (by omega),
          toUInt8_of_toNat (b := b) (by omega)]
        exact ⟨by omega, rfl⟩
      · split at h
        · next hb =>
          cases h
          exact ⟨by omega, UInt8.toNat_inj.mp hb⟩
        · split at h
          · next hb =>
            cases h
            exact ⟨by omega, UInt8.toNat_inj.mp hb⟩
          · cases h

theorem value?_eq_some_iff {b : UInt8} {n : Nat} : value? b = some n ↔ n < 64 ∧ b = symbol n := by
  constructor
  · exact eq_symbol_of_value?
  · rintro ⟨h, rfl⟩
    exact value?_symbol h

theorem symbol_ne_pad {n : Nat} (h : n < 64) : symbol n ≠ pad := by
  intro heq
  have hvalue := value?_symbol h
  rw [heq] at hvalue
  cases hvalue

theorem valueAt_eq_ok_iff {b : UInt8} {offset n : Nat} :
    valueAt b offset = .ok n ↔ n < 64 ∧ b = symbol n := by
  rw [valueAt, ← value?_eq_some_iff]
  rcases value? b with - | m
  · simp
  · simp

/-! ### Groups -/

/-- The three bytes that the numbers of a full group stand for. -/
def threeBytes (n₀ n₁ n₂ n₃ : Nat) : List UInt8 :=
  let n := ((n₀ * 64 + n₁) * 64 + n₂) * 64 + n₃
  [(n / 65536).toUInt8, (n / 256 % 256).toUInt8, (n % 256).toUInt8]

/-- The two bytes of a last group with three symbols. -/
def twoBytes (n₀ n₁ n₂ : Nat) : List UInt8 :=
  let n := (n₀ * 64 + n₁) * 16 + n₂ / 4
  [(n / 256).toUInt8, (n % 256).toUInt8]

/-- The byte of a last group with two symbols. -/
def oneByte (n₀ n₁ : Nat) : List UInt8 :=
  [(n₀ * 4 + n₁ / 16).toUInt8]

/-- How the last group is written: in full, or filled up, with zero for the bits that belong to no
byte. -/
inductive LastGroup : List UInt8 → List UInt8 → Prop
  | none : LastGroup [] []
  | one {n₀ n₁ : Nat} (h₀ : n₀ < 64) (h₁ : n₁ < 64) (hzero : n₁ % 16 = 0) :
      LastGroup (oneByte n₀ n₁) [symbol n₀, symbol n₁, pad, pad]
  | two {n₀ n₁ n₂ : Nat} (h₀ : n₀ < 64) (h₁ : n₁ < 64) (h₂ : n₂ < 64) (hzero : n₂ % 4 = 0) :
      LastGroup (twoBytes n₀ n₁ n₂) [symbol n₀, symbol n₁, symbol n₂, pad]
  | three {n₀ n₁ n₂ n₃ : Nat} (h₀ : n₀ < 64) (h₁ : n₁ < 64) (h₂ : n₂ < 64) (h₃ : n₃ < 64) :
      LastGroup (threeBytes n₀ n₁ n₂ n₃) [symbol n₀, symbol n₁, symbol n₂, symbol n₃]

theorem encode_threeBytes {n₀ n₁ n₂ n₃ : Nat} (h₀ : n₀ < 64) (h₁ : n₁ < 64) (h₂ : n₂ < 64)
    (h₃ : n₃ < 64) (rest : List UInt8) :
    encode (threeBytes n₀ n₁ n₂ n₃ ++ rest)
      = symbol n₀ :: symbol n₁ :: symbol n₂ :: symbol n₃ :: encode rest := by
  rw [threeBytes, List.cons_append, List.cons_append, List.cons_append, List.nil_append, encode,
    toNat_toUInt8 (by omega), toNat_toUInt8 (by omega), toNat_toUInt8 (by omega)]
  congr 4 <;> congr 1 <;> omega

theorem encode_twoBytes {n₀ n₁ n₂ : Nat} (h₀ : n₀ < 64) (h₁ : n₁ < 64) (h₂ : n₂ < 64)
    (hzero : n₂ % 4 = 0) :
    encode (twoBytes n₀ n₁ n₂) = [symbol n₀, symbol n₁, symbol n₂, pad] := by
  rw [twoBytes, encode, toNat_toUInt8 (by omega), toNat_toUInt8 (by omega)]
  congr 3 <;> congr 1 <;> omega

theorem encode_oneByte {n₀ n₁ : Nat} (h₀ : n₀ < 64) (h₁ : n₁ < 64) (hzero : n₁ % 16 = 0) :
    encode (oneByte n₀ n₁) = [symbol n₀, symbol n₁, pad, pad] := by
  rw [oneByte, encode, toNat_toUInt8 (by omega)]
  congr 2 <;> congr 1 <;> omega

/-- Any three bytes make a full group. -/
theorem exists_threeBytes (a b c : UInt8) (rest : List UInt8) :
    ∃ n₀ n₁ n₂ n₃, n₀ < 64 ∧ n₁ < 64 ∧ n₂ < 64 ∧ n₃ < 64 ∧
      a :: b :: c :: rest = threeBytes n₀ n₁ n₂ n₃ ++ rest := by
  have ha := a.toNat_lt
  have hb := b.toNat_lt
  have hc := c.toNat_lt
  refine ⟨a.toNat / 4, a.toNat % 4 * 16 + b.toNat / 16, b.toNat % 16 * 4 + c.toNat / 64,
    c.toNat % 64, by omega, by omega, by omega, by omega, ?_⟩
  rw [threeBytes, toUInt8_of_toNat (b := a) (by omega), toUInt8_of_toNat (b := b) (by omega),
    toUInt8_of_toNat (b := c) (by omega)]
  rfl

theorem exists_twoBytes (a b : UInt8) : ∃ n₀ n₁ n₂, n₀ < 64 ∧ n₁ < 64 ∧ n₂ < 64 ∧ n₂ % 4 = 0 ∧
    [a, b] = twoBytes n₀ n₁ n₂ := by
  have ha := a.toNat_lt
  have hb := b.toNat_lt
  refine ⟨a.toNat / 4, a.toNat % 4 * 16 + b.toNat / 16, b.toNat % 16 * 4, by omega, by omega,
    by omega, by omega, ?_⟩
  rw [twoBytes, toUInt8_of_toNat (b := a) (by omega), toUInt8_of_toNat (b := b) (by omega)]

theorem exists_oneByte (a : UInt8) : ∃ n₀ n₁, n₀ < 64 ∧ n₁ < 64 ∧ n₁ % 16 = 0 ∧
    [a] = oneByte n₀ n₁ := by
  have ha := a.toNat_lt
  refine ⟨a.toNat / 4, a.toNat % 4 * 16, by omega, by omega, by omega, ?_⟩
  rw [oneByte, toUInt8_of_toNat (b := a) (by omega)]

/-- Up to three bytes are encoded by a last group. -/
theorem lastGroup_encode (bytes : List UInt8) (h : bytes.length ≤ 3) :
    LastGroup bytes (encode bytes) := by
  match bytes with
  | [] => exact .none
  | [a] =>
    obtain ⟨n₀, n₁, h₀, h₁, hzero, hbytes⟩ := exists_oneByte a
    rw [hbytes, encode_oneByte h₀ h₁ hzero]
    exact .one h₀ h₁ hzero
  | [a, b] =>
    obtain ⟨n₀, n₁, n₂, h₀, h₁, h₂, hzero, hbytes⟩ := exists_twoBytes a b
    rw [hbytes, encode_twoBytes h₀ h₁ h₂ hzero]
    exact .two h₀ h₁ h₂ hzero
  | [a, b, c] =>
    obtain ⟨n₀, n₁, n₂, n₃, h₀, h₁, h₂, h₃, hbytes⟩ := exists_threeBytes a b c []
    rw [hbytes, encode_threeBytes h₀ h₁ h₂ h₃]
    exact .three h₀ h₁ h₂ h₃
  | _ :: _ :: _ :: _ :: _ =>
    simp only [List.length_cons] at h
    omega

/-- There is no other group for them. -/
theorem LastGroup.eq_encode {bytes group : List UInt8} (h : LastGroup bytes group) :
    group = Base64.encode bytes := by
  cases h with
  | none => rfl
  | one h₀ h₁ hzero => exact (encode_oneByte h₀ h₁ hzero).symm
  | two h₀ h₁ h₂ hzero => exact (encode_twoBytes h₀ h₁ h₂ hzero).symm
  | three h₀ h₁ h₂ h₃ => exact (encode_threeBytes h₀ h₁ h₂ h₃ []).symm

/-! ### Reading the last group -/

/-- What the last group may hold: symbols, and fillers behind them. -/
theorem of_lastSymbols {start pads filled : Nat} {found all : List (UInt8 × Nat)}
    {group : List UInt8} (h : lastSymbols start found pads group = .ok (all, filled)) :
    ∃ numbers k, (∀ n ∈ numbers, n < 64) ∧ group = numbers.map symbol ++ List.replicate k pad ∧
      all = found ++ numbers.map (fun n => (symbol n, n)) ∧ filled = pads + k ∧
      (0 < pads → numbers = []) := by
  induction group generalizing found pads with
  | nil =>
    cases h
    exact ⟨[], 0, by simp⟩
  | cons b rest ih =>
    rw [lastSymbols] at h
    split at h
    · next hpad =>
      split at h
      · cases h
      · -- behind a filler there are only fillers
        obtain ⟨numbers, k, -, hrest, hall, hfilled, hnone⟩ := ih h
        obtain rfl := hnone (Nat.succ_pos pads)
        refine ⟨[], k + 1, by simp, ?_, hall, by omega, fun _ => rfl⟩
        rw [hrest, hpad]
        rfl
    · split at h
      · cases h
      · next hpads =>
        rcases hvalue : valueAt b (start + found.length + pads) with fault | n
        · rw [hvalue] at h
          cases h
        · rw [hvalue] at h
          obtain ⟨hn, rfl⟩ := valueAt_eq_ok_iff.mp hvalue
          obtain ⟨numbers, k, hnumbers, hrest, hall, hfilled, -⟩ := ih h
          refine ⟨n :: numbers, k, List.forall_mem_cons.mpr ⟨hn, hnumbers⟩, ?_, ?_, hfilled,
            fun hpos => absurd hpos hpads⟩
          · rw [hrest]
            rfl
          · rw [hall]
            simp

/-- What is accepted as the last group: nothing, or symbols and fillers that make up groups of
four, with the bytes that so many symbols stand for. -/
theorem of_decodeLast {start : Nat} {group bytes : List UInt8}
    (h : decodeLast start group = .ok bytes) : group = [] ∧ bytes = [] ∨
      ∃ numbers k, (∀ n ∈ numbers, n < 64) ∧ group = numbers.map symbol ++ List.replicate k pad ∧
        2 ≤ numbers.length ∧ (numbers.length + k) % 4 = 0 ∧
        (∀ n₀ n₁, numbers = [n₀, n₁] → n₁ % 16 = 0 ∧ bytes = oneByte n₀ n₁) ∧
        (∀ n₀ n₁ n₂, numbers = [n₀, n₁, n₂] → n₂ % 4 = 0 ∧ bytes = twoBytes n₀ n₁ n₂) ∧
        (∀ n₀ n₁ n₂ n₃, numbers = [n₀, n₁, n₂, n₃] → bytes = threeBytes n₀ n₁ n₂ n₃) := by
  rw [decodeLast] at h
  obtain ⟨⟨found, pads⟩, hlast, h⟩ := bind_eq_ok_iff.mp h
  obtain ⟨numbers, k, hnumbers, hgroup, rfl, rfl, -⟩ := of_lastSymbols hlast
  simp only [List.nil_append, List.length_map, Nat.zero_add, ne_eq, ite_not, bind, Except.bind,
    pure, Except.pure, throw, throwThe, MonadExceptOf.throw] at h
  split at h
  · next hempty =>
    cases h
    exact Or.inl ⟨List.isEmpty_iff.mp hempty, rfl⟩
  · split at h
    · cases h
    · next hsymbols =>
      split at h
      · next hfull =>
        refine Or.inr ⟨numbers, k, hnumbers, hgroup, Nat.le_of_not_lt hsymbols, hfull, ?_, ?_, ?_⟩
        · rintro n₀ n₁ rfl
          simp only [List.map_cons, List.map_nil] at h
          split at h
          · next hzero =>
            cases h
            exact ⟨hzero, rfl⟩
          · cases h
        · rintro n₀ n₁ n₂ rfl
          simp only [List.map_cons, List.map_nil] at h
          split at h
          · next hzero =>
            cases h
            exact ⟨hzero, rfl⟩
          · cases h
        · rintro n₀ n₁ n₂ n₃ rfl
          cases h
          rfl
      · cases h

/-- A group of at most four characters that is accepted is a last group. -/
theorem lastGroup_of_decodeLast {start : Nat} {group bytes : List UInt8}
    (hlength : group.length ≤ 4) (h : decodeLast start group = .ok bytes) :
    LastGroup bytes group := by
  rcases of_decodeLast h with
    ⟨rfl, rfl⟩ | ⟨numbers, k, hnumbers, rfl, htwo, hfull, hone, hpair, hthree⟩
  · exact .none
  · rw [List.length_append, List.length_map, List.length_replicate] at hlength
    have hfour : numbers.length + k = 4 := by omega
    match numbers with
    | [] => exact absurd htwo (by decide)
    | [_] => exact absurd htwo (by simp)
    | [n₀, n₁] =>
      obtain rfl : k = 2 := by
        simp only [List.length_cons, List.length_nil] at hfour
        omega
      obtain ⟨hzero, rfl⟩ := hone n₀ n₁ rfl
      simp only [List.forall_mem_cons] at hnumbers
      exact .one hnumbers.1 hnumbers.2.1 hzero
    | [n₀, n₁, n₂] =>
      obtain rfl : k = 1 := by
        simp only [List.length_cons, List.length_nil] at hfour
        omega
      obtain ⟨hzero, rfl⟩ := hpair n₀ n₁ n₂ rfl
      simp only [List.forall_mem_cons] at hnumbers
      exact .two hnumbers.1 hnumbers.2.1 hnumbers.2.2.1 hzero
    | [n₀, n₁, n₂, n₃] =>
      obtain rfl : k = 0 := by
        simp only [List.length_cons, List.length_nil] at hfour
        omega
      obtain rfl := hthree n₀ n₁ n₂ n₃ rfl
      simp only [List.forall_mem_cons] at hnumbers
      exact .three hnumbers.1 hnumbers.2.1 hnumbers.2.2.1 hnumbers.2.2.2.1
    | _ :: _ :: _ :: _ :: _ :: _ =>
      simp only [List.length_cons] at hfour
      omega

/-- Symbols are read one after the other, and behind two of them fillers. -/
theorem lastSymbols_of_numbers (start : Nat) (numbers : List Nat) (h : ∀ n ∈ numbers, n < 64)
    (found : List (UInt8 × Nat)) {k : Nat} (hk : 0 < k → 2 ≤ found.length + numbers.length) :
    lastSymbols start found 0 (numbers.map symbol ++ List.replicate k pad)
      = .ok (found ++ numbers.map (fun n => (symbol n, n)), k) := by
  induction numbers generalizing found with
  | nil =>
    have hpads : ∀ pads k, (0 < k → 2 ≤ found.length + pads) →
        lastSymbols start found pads (List.replicate k pad) = .ok (found, pads + k) := by
      intro pads k hk
      induction k generalizing pads with
      | zero => rfl
      | succ k ih =>
        rw [List.replicate_succ, lastSymbols, if_pos rfl, if_neg (by omega), ih _ (by omega)]
        congr 2
        omega
    rw [List.map_nil, List.map_nil, List.nil_append, List.append_nil, hpads 0 k hk, Nat.zero_add]
  | cons n numbers ih =>
    obtain ⟨hn, hnumbers⟩ := List.forall_mem_cons.mp h
    have hvalue : valueAt (symbol n) (start + found.length + 0) = .ok n :=
      valueAt_eq_ok_iff.mpr ⟨hn, rfl⟩
    rw [List.map_cons, List.cons_append, lastSymbols, if_neg (symbol_ne_pad hn),
      if_neg (Nat.lt_irrefl 0), hvalue]
    have hrest := ih hnumbers (found ++ [(symbol n, n)]) (by
      intro hpos
      have := hk hpos
      simp only [List.length_append, List.length_cons, List.length_nil] at this ⊢
      omega)
    rw [List.append_assoc] at hrest
    exact hrest

theorem decodeLast_of_lastGroup {bytes group : List UInt8} (h : LastGroup bytes group)
    (start : Nat) : decodeLast start group = .ok bytes := by
  cases h with
  | none => rfl
  | @one n₀ n₁ h₀ h₁ hzero =>
    have hlast := lastSymbols_of_numbers start [n₀, n₁] (by simp [h₀, h₁]) []
      (k := 2) fun _ => Nat.le_refl 2
    refine bind_eq_ok_iff.mpr ⟨_, hlast, ?_⟩
    simp [hzero, pure, Except.pure, oneByte]
  | @two n₀ n₁ n₂ h₀ h₁ h₂ hzero =>
    have hlast := lastSymbols_of_numbers start [n₀, n₁, n₂] (by simp [h₀, h₁, h₂]) []
      (k := 1) fun _ => Nat.le_succ 2
    refine bind_eq_ok_iff.mpr ⟨_, hlast, ?_⟩
    simp [hzero, pure, Except.pure, twoBytes]
  | @three n₀ n₁ n₂ n₃ h₀ h₁ h₂ h₃ =>
    have hlast := lastSymbols_of_numbers start [n₀, n₁, n₂, n₃]
      (by simp [h₀, h₁, h₂, h₃]) [] (k := 0) fun hpos => absurd hpos (Nat.lt_irrefl 0)
    refine bind_eq_ok_iff.mpr ⟨_, hlast, ?_⟩
    simp [pure, Except.pure, threeBytes]

/-! ### Whole encodings -/

theorem length_encode_mod (bytes : List UInt8) : (encode bytes).length % 4 = 0 := by
  fun_induction encode bytes with
  | case1 => rfl
  | case2 a => simp
  | case3 a b => simp
  | case4 a b c rest n ih =>
    simp only [List.length_cons]
    omega

theorem encode_ne_nil (a : UInt8) (bytes : List UInt8) : encode (a :: bytes) ≠ [] := by
  match bytes with
  | [] => exact List.cons_ne_nil _ _
  | [_] => exact List.cons_ne_nil _ _
  | _ :: _ :: _ => exact List.cons_ne_nil _ _

theorem decodeFrom_encode (start : Nat) (bytes : List UInt8) :
    decodeFrom start (encode bytes) = .ok bytes := by
  induction bytes using encode.induct generalizing start with
  | case1 => rfl
  | case2 a => exact decodeLast_of_lastGroup (lastGroup_encode [a] (by simp)) start
  | case3 a b =>
    exact decodeLast_of_lastGroup (lastGroup_encode [a, b] (by simp)) start
  | case4 a b c rest ih =>
    obtain ⟨n₀, n₁, n₂, n₃, h₀, h₁, h₂, h₃, hbytes⟩ := exists_threeBytes a b c rest
    rw [hbytes, encode_threeBytes h₀ h₁ h₂ h₃]
    cases rest with
    | nil =>
      -- the last group is full
      exact decodeLast_of_lastGroup (.three h₀ h₁ h₂ h₃) start
    | cons d rest =>
      obtain ⟨e, others, hrest⟩ := List.exists_cons_of_ne_nil (encode_ne_nil d rest)
      have hothers := ih (start + 4)
      rw [hrest] at hothers ⊢
      rw [decodeFrom, valueAt_eq_ok_iff.mpr ⟨h₀, rfl⟩, valueAt_eq_ok_iff.mpr ⟨h₁, rfl⟩,
        valueAt_eq_ok_iff.mpr ⟨h₂, rfl⟩, valueAt_eq_ok_iff.mpr ⟨h₃, rfl⟩, hothers]
      rfl

theorem encode_of_decodeFrom {start : Nat} {symbols bytes : List UInt8}
    (h : decodeFrom start symbols = .ok bytes) : symbols = encode bytes := by
  fun_induction decodeFrom start symbols generalizing bytes with
  | case1 start a b c d e rest ih =>
    obtain ⟨n₀, hvalue₀, h⟩ := bind_eq_ok_iff.mp h
    obtain ⟨n₁, hvalue₁, h⟩ := bind_eq_ok_iff.mp h
    obtain ⟨n₂, hvalue₂, h⟩ := bind_eq_ok_iff.mp h
    obtain ⟨n₃, hvalue₃, h⟩ := bind_eq_ok_iff.mp h
    obtain ⟨others, hothers, h⟩ := bind_eq_ok_iff.mp h
    cases h
    obtain ⟨h₀, rfl⟩ := valueAt_eq_ok_iff.mp hvalue₀
    obtain ⟨h₁, rfl⟩ := valueAt_eq_ok_iff.mp hvalue₁
    obtain ⟨h₂, rfl⟩ := valueAt_eq_ok_iff.mp hvalue₂
    obtain ⟨h₃, rfl⟩ := valueAt_eq_ok_iff.mp hvalue₃
    rw [ih hothers]
    exact (encode_threeBytes h₀ h₁ h₂ h₃ others).symm
  | case2 start group hshort =>
    have hlength : group.length ≤ 4 := by
      match group with
      | [] | [_] | [_, _] | [_, _, _] | [_, _, _, _] => simp
      | a :: b :: c :: d :: e :: rest => exact (hshort a b c d e rest rfl).elim
    exact (lastGroup_of_decodeLast hlength h).eq_encode

/-- **Symbols are decoded to bytes exactly if they are the encoding of the bytes.** -/
theorem decode_eq_ok_iff {symbols bytes : List UInt8} :
    decode symbols = .ok bytes ↔ symbols = encode bytes := by
  constructor
  · intro h
    rw [decode] at h
    split at h
    · cases h
    · exact encode_of_decodeFrom h
  · rintro rfl
    have hstray : strayEnd? (encode bytes) = none := by
      rw [strayEnd?, length_encode_mod]
      rfl
    rw [decode, hstray]
    exact decodeFrom_encode 0 bytes

/-- The characters of an encoding. -/
inductive Letter : UInt8 → Prop
  | pad : Letter pad
  | symbol {n : Nat} (h : n < 64) : Letter (symbol n)

theorem LastGroup.letters {bytes group : List UInt8} (h : LastGroup bytes group) :
    ∀ s ∈ group, Letter s := by
  have hpad := Letter.pad
  have hsymbol : ∀ n < 64, Letter (symbol n) := fun n hn => .symbol hn
  cases h <;> simp [*]

theorem letters_encode (bytes : List UInt8) : ∀ s ∈ encode bytes, Letter s := by
  induction bytes using encode.induct with
  | case1 => exact LastGroup.none.letters
  | case2 a => exact (lastGroup_encode [a] (by simp)).letters
  | case3 a b => exact (lastGroup_encode [a, b] (by simp)).letters
  | case4 a b c rest ih =>
    obtain ⟨n₀, n₁, n₂, n₃, h₀, h₁, h₂, h₃, hbytes⟩ := exists_threeBytes a b c rest
    rw [hbytes, encode_threeBytes h₀ h₁ h₂ h₃]
    simp only [List.forall_mem_cons]
    exact ⟨.symbol h₀, .symbol h₁, .symbol h₂, .symbol h₃, ih⟩

end ScriptRegistry.Transport.Base64

namespace ScriptRegistry.Transport

open Base64 (Letter)

/-! ### Payloads -/

theorem Base64.Letter.isAscii {s : UInt8} (h : Letter s) : s.toNat < 128 := by
  cases h with
  | pad => decide
  | @symbol n hn =>
    revert hn
    revert n
    decide

/-- No letter is a blank. -/
theorem Base64.Letter.isAsciiBlank_eq_false {s : UInt8} (h : Letter s) :
    Text.isAsciiBlank (Char.ofNat s.toNat) = false := by
  cases h with
  | pad => decide
  | @symbol n hn =>
    revert hn
    revert n
    decide

theorem toList_encodeText (text : String) : (encodeText text).toList
    = (Base64.encode (Text.encode text.toList)).map fun b => Char.ofNat b.toNat :=
  String.toList_ofList

/-- The characters of a payload have one byte each. -/
theorem encode_encodeText (text : String) :
    Text.encode (encodeText text).toList = Base64.encode (Text.encode text.toList) := by
  rw [toList_encodeText]
  have hletters := Base64.letters_encode (Text.encode text.toList)
  generalize Base64.encode (Text.encode text.toList) = symbols at hletters
  induction symbols with
  | nil => rfl
  | cons s symbols ih =>
    obtain ⟨hs, hothers⟩ := List.forall_mem_cons.mp hletters
    rw [List.map_cons, Text.encode_cons, Text.encodeChar_one hs.isAscii, ih hothers]
    rfl

/-- A payload that is not wrapped has no blanks. -/
theorem compact_encodeText (text : String) :
    compact (encodeText text) = (encodeText text).toList := by
  rw [compact, List.filter_eq_self, toList_encodeText]
  intro c hc
  obtain ⟨s, hs, rfl⟩ := List.mem_map.mp hc
  rw [(Base64.letters_encode _ s hs).isAsciiBlank_eq_false]
  rfl

/-- A payload is opened where its symbols are those of the bytes of the text. -/
theorem decodeText_eq_ok_iff {payload text : String} : decodeText payload = .ok text ↔
    Text.encode (compact payload) = Base64.encode (Text.encode text.toList) := by
  rw [decodeText, ← Base64.decode_eq_ok_iff]
  rcases Base64.decode (Text.encode (compact payload)) with fault | bytes
  · simp
  · simp only [Except.ok.injEq]
    rw [← Text.decode_eq_ok_iff]
    rcases Text.decode bytes with fault | cs
    · simp
    · simp only [Except.ok.injEq]
      constructor
      · rintro rfl
        exact String.toList_ofList.symm
      · rintro rfl
        exact String.ofList_toList

/-- The characters by which a payload may be wrapped. -/
def asciiBlanks : List Char :=
  [' ', '\t', '\n', '\x0c', '\r']

/-- A payload with its lines put together. -/
def unwrapped (payload : String) : List Char :=
  payload.toList.filter (· ∉ asciiBlanks)

theorem compact_eq_unwrapped (payload : String) : compact payload = unwrapped payload := by
  refine List.filter_congr fun c _ => ?_
  rw [Bool.eq_iff_iff]
  simp [Text.isAsciiBlank, asciiBlanks, and_assoc]

/-- **A payload is opened to a text exactly if it is the payload of the text with blanks put
in.**  So a text can be opened from its own payload, and two payloads of a text differ by
blanks only. -/
theorem decodeText_eq_ok_iff_unwrapped (payload text : String) :
    (decodeText payload = .ok text ↔ unwrapped payload = (encodeText text).toList) ∧
      decodeText (encodeText text) = .ok text ∧
      ∀ other, decodeText payload = .ok text → decodeText other = .ok text →
        unwrapped payload = unwrapped other := by
  have hopened : ∀ payload, decodeText payload = .ok text ↔
      unwrapped payload = (encodeText text).toList := by
    intro payload
    rw [decodeText_eq_ok_iff, ← encode_encodeText, Text.encode_inj, compact_eq_unwrapped]
  have hself : unwrapped (encodeText text) = (encodeText text).toList := by
    rw [← compact_eq_unwrapped, compact_encodeText]
  refine ⟨hopened payload, (hopened _).mpr hself, fun other h h' => ?_⟩
  rw [(hopened payload).mp h, (hopened other).mp h']

end ScriptRegistry.Transport
