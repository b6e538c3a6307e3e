/-
ScriptRegistry/Proofs/Moments.lean

A moment is read back from its standard form.

Every number of the form is padded to its width, so a number of fixed width ends
where its digits are used up, and the others, years with a sign and fractions, end
before a mark.  No blank stands in the form and the offset is none, so the freedom
of the reader plays no part and the moment that was written is not shifted.

Main result: `Moment.ofString_render`.
-/
import ScriptRegistry.Proofs.Document
import ScriptRegistry.Time.Reader

namespace ScriptRegistry.Time

open Json (bind_eq_ok_iff)

/-! ### Padded numbers -/

theorem ofDigits_eq (ds : List Char) : ofDigits ds = Nat.ofDigitChars 10 ds 0 := by
  rw [ofDigits, Nat.ofDigitChars]
  congr
  funext n d
  rw [Nat.mul_comm]
  rfl

theorem ofDigits_padded (width n : Nat) : ofDigits (padded width n) = n := by
  rw [ofDigits_eq, padded, Nat.ofDigitChars_append, Nat.ofDigitChars_replicate_zero, Nat.mul_zero]
  exact Nat.ofDigitChars_ten_toDigits

theorem isDigit_of_mem_padded {width n : Nat} {c : Char} (h : c ∈ padded width n) :
    isDigit c = true := by
  rcases List.mem_append.mp h with h | h
  · rw [List.eq_of_mem_replicate h]
    rfl
  · have hdigit : c.isDigit = true := Nat.isDigit_of_mem_toDigits (by decide) (by decide) h
    exact hdigit

/-- A padded number begins with a digit. -/
theorem exists_padded_eq_cons (width n : Nat) :
    ∃ c cs, padded width n = c :: cs ∧ isDigit c = true := by
  rcases hdigits : padded width n with - | ⟨c, cs⟩
  · exact absurd hdigits (List.append_ne_nil_of_right_ne_nil _ Nat.toDigits_ne_nil)
  · exact ⟨c, cs, rfl, isDigit_of_mem_padded (hdigits ▸ List.mem_cons_self)⟩

/-- A number that needs no more digits has just as many as asked for. -/
theorem length_padded {width n : Nat} (hwidth : 0 < width) (h : n < Nat.pow 10 width) :
    (padded width n).length = width := by
  have hlength : (Decimal.digits n).length ≤ width :=
    (Nat.length_toDigits_le_iff (by decide) hwidth).mpr h
  rw [padded, List.length_append, List.length_replicate]
  omega

/-! ### Numbers -/

/-- What follows a number does not go on with a digit. -/
def Stops (rest : List Char) : Prop :=
  ∀ c r, rest = c :: r → isDigit c = false

theorem stops_cons {c : Char} (h : isDigit c = false) (r : List Char) : Stops (c :: r) := by
  rintro c' r' heq
  cases heq
  exact h

theorem Stops.takeWhile_take {rest : List Char} (h : Stops rest) (k : Nat) :
    (rest.take k).takeWhile isDigit = [] := by
  rcases rest with - | ⟨c, r⟩
  · rw [List.take_nil, List.takeWhile_nil]
  · rcases k with - | k
    · rfl
    · rw [List.take_succ_cons, List.takeWhile_cons, h c r rfl]
      rfl

/-- A number is read up to its last digit, if no more are asked for or no more follow. -/
theorem readNumber_padded {width places n : Nat} {rest : List Char}
    (hwidth : (padded places n).length ≤ width)
    (hend : (padded places n).length = width ∨ Stops rest) (hn : n < numberBound) :
    readNumber width (padded places n ++ rest) = .ok (n, rest) := by
  have hrest : (rest.take (width - (padded places n).length)).takeWhile isDigit = [] := by
    rcases hend with hall | hstops
    · rw [hall, Nat.sub_self]
      rfl
    · exact hstops.takeWhile_take _
  have hsplit : splitDigits width (padded places n ++ rest) = (padded places n, rest) := by
    rw [splitDigits, List.take_append, List.take_of_length_le hwidth,
      List.takeWhile_append_of_pos fun c hc => isDigit_of_mem_padded hc, hrest, List.append_nil,
      List.drop_left]
  obtain ⟨c, cs, hdigits, -⟩ := exists_padded_eq_cons places n
  have hvalue := ofDigits_padded places n
  rw [hdigits] at hsplit hvalue
  rw [hdigits, List.cons_append, readNumber, ← List.cons_append, hsplit]
  simp only [List.isEmpty_cons, Bool.false_eq_true, if_false, hvalue, if_pos hn]

theorem isBlank_of_isDigit {c : Char} (h : isDigit c = true) : Text.isBlank c = false := by
  simp only [isDigit, Bool.and_eq_true, decide_eq_true_eq, Char.le_def, UInt32.le_iff_toNat_le] at h
  obtain ⟨hlow, hhigh⟩ := h
  have hlow : 48 ≤ c.toNat := hlow
  have hhigh : c.toNat ≤ 57 := hhigh
  simp only [Text.isBlank, Bool.or_eq_false_iff, Bool.and_eq_false_iff, decide_eq_false_iff_not,
    beq_eq_false_iff_ne]
  omega

/-- A number begins with a digit, so there are no blanks to pass over. -/
theorem trimStart_padded (width n : Nat) (rest : List Char) :
    Text.trimStart (padded width n ++ rest) = padded width n ++ rest := by
  obtain ⟨c, cs, hdigits, hdigit⟩ := exists_padded_eq_cons width n
  rw [hdigits, List.cons_append, Text.trimStart, List.dropWhile_cons, isBlank_of_isDigit hdigit]
  rfl

/-- Two digits are read as a number between its bounds. -/
theorem readBetween_padded {low high n : Nat} (hlow : low ≤ n) (hhigh : n ≤ high) (hn : n < 100)
    (rest : List Char) : readBetween low high (padded 2 n ++ rest) = .ok (n, rest) := by
  have hlength : (padded 2 n).length = 2 := length_padded (by decide) hn
  have hbound : n < numberBound := Nat.lt_trans hn (by decide)
  rw [readBetween, trimStart_padded,
    readNumber_padded (Nat.le_of_eq hlength) (Or.inl hlength) hbound]
  show (if decide (low ≤ n) && decide (n ≤ high) then _ else _) = _
  rw [decide_eq_true hlow, decide_eq_true hhigh]
  rfl

/-! ### Years and fractions -/

/-- A month that has days is one of the twelve. -/
theorem daysIn_pos {year : Int} {month : Nat} (h : 0 < daysIn year month) :
    1 ≤ month ∧ month ≤ 12 ∧ daysIn year month ≤ 31 := by
  have hmonth : 1 ≤ month ∧ month ≤ 12 := by
    rw [daysIn.eq_def] at h
    split at h
    all_goals first | decide | exact absurd h (by decide)
  refine ⟨hmonth.1, hmonth.2, ?_⟩
  rw [daysIn.eq_def]
  split
  · split <;> decide
  all_goals decide

/-- The numbers of a moment stay in their ranges. -/
theorem Moment.bounds (m : Moment) : firstYear ≤ m.year ∧ m.year ≤ lastYear ∧ 1 ≤ m.month ∧
    m.month ≤ 12 ∧ 1 ≤ m.day ∧ m.day ≤ 31 ∧ m.hour < 24 ∧ m.minute < 60 ∧ m.second ≤ 60 ∧
    m.nano < 1000000000 := by
  have h := m.civil
  simp only [isCivil, Bool.and_eq_true, decide_eq_true_eq] at h
  obtain ⟨⟨⟨⟨⟨⟨⟨hfirst, hlast⟩, hday⟩, hdays⟩, hhour⟩, hminute⟩, hsecond⟩, hnano⟩ := h
  obtain ⟨hmonth, hmonth', hmost⟩ := daysIn_pos (Nat.lt_of_lt_of_le hday hdays)
  exact ⟨hfirst, hlast, hmonth, hmonth', hday, Nat.le_trans hdays hmost, hhour, hminute, hsecond,
    hnano⟩

theorem readMark_cons {mark : Char} (h : Text.isBlank mark = false) (rest : List Char) :
    readMark mark (mark :: rest) = .ok rest := by
  rw [readMark, Text.trimStart, List.dropWhile_cons, h]
  exact if_pos rfl

/-- A year is read up to the mark behind it. -/
theorem readYear_renderYear {year : Int} (hlow : firstYear ≤ year) (hhigh : year ≤ lastYear)
    (rest : List Char) :
    readYear (renderYear year ++ '-' :: rest) = .ok (year, '-' :: rest) := by
  have hlow : -262143 ≤ year := hlow
  have hhigh : year ≤ 262142 := hhigh
  have hstops : Stops ('-' :: rest) := stops_cons rfl rest
  rw [readYear]
  refine bind_eq_ok_iff.mpr ⟨(year, '-' :: rest), ?_, ?_⟩
  · by_cases hshort : (decide (0 ≤ year) && decide (year ≤ 9999)) = true
    · rw [renderYear, if_pos hshort, trimStart_padded]
      simp only [Bool.and_eq_true, decide_eq_true_eq] at hshort
      have hfits : year.toNat < 10000 := by omega
      have hlength : (padded 4 year.toNat).length = 4 := length_padded (by decide) hfits
      have hfirst : ∀ c r, padded 4 year.toNat ++ '-' :: rest = c :: r → isDigit c = true := by
        intro c r heq
        obtain ⟨d, ds, hdigits, hdigit⟩ := exists_padded_eq_cons 4 year.toNat
        rw [hdigits] at heq
        obtain rfl : d = c := (List.cons.inj heq).1
        exact hdigit
      -- a digit is no sign, so at most four digits are taken, and there are just four
      split
      · next heq => exact absurd (hfirst _ _ heq) (by decide)
      · next heq => exact absurd (hfirst _ _ heq) (by decide)
      · rw [readNumber_padded (Nat.le_of_eq hlength) (Or.inl hlength)
          (Nat.lt_of_le_of_lt (by omega : year.toNat ≤ 9999) (by decide))]
        show Except.ok ((year.toNat : Int), '-' :: rest) = _
        rw [Int.toNat_of_nonneg hshort.1]
    · -- behind a sign the digits go on up to the mark
      have hbound : year.natAbs < numberBound :=
        Nat.lt_of_le_of_lt (by omega : year.natAbs ≤ 262143) (by decide)
      have hread : readNumber (padded 4 year.natAbs ++ '-' :: rest).length
          (padded 4 year.natAbs ++ '-' :: rest) = .ok (year.natAbs, '-' :: rest) := by
        refine readNumber_padded ?_ (Or.inr hstops) hbound
        rw [List.length_append]
        exact Nat.le_add_right _ _
      rw [renderYear, if_neg hshort]
      by_cases hneg : year < 0
      · rw [if_pos hneg]
        refine bind_eq_ok_iff.mpr ⟨_, hread, ?_⟩
        show Except.ok (-(year.natAbs : Int), '-' :: rest) = _
        rw [Int.ofNat_natAbs_of_nonpos (by omega), Int.neg_neg]
      · rw [if_neg hneg]
        refine bind_eq_ok_iff.mpr ⟨_, hread, ?_⟩
        show Except.ok ((year.natAbs : Int), '-' :: rest) = _
        rw [Int.natAbs_of_nonneg (by omega)]
  · have hfits : (decide (-2147483648 ≤ year) && decide (year ≤ 2147483647)) = true := by
      simp only [Bool.and_eq_true, decide_eq_true_eq]
      omega
    exact if_pos hfits

/-- The digits of a fraction are read as so many nanoseconds. -/
theorem readFraction_padded {places n : Nat} (hplaces : 0 < places) (hmost : places ≤ 9)
    (hn : n < Nat.pow 10 places) :
    readFraction ('.' :: (padded places n ++ ['Z'])) = .ok (n * Nat.pow 10 (9 - places), ['Z']) := by
  have hlength : (padded places n).length = places := length_padded hplaces hn
  have hbound : n < numberBound :=
    Nat.lt_of_lt_of_le hn (Nat.le_trans (Nat.pow_le_pow_right (by decide) hmost) (by decide))
  have hread : readNumber 9 (padded places n ++ ['Z']) = .ok (n, ['Z']) :=
    readNumber_padded (by omega) (Or.inr (stops_cons rfl [])) hbound
  refine bind_eq_ok_iff.mpr ⟨_, hread, ?_⟩
  show Except.ok (n * Nat.pow 10 (9 - ((padded places n ++ ['Z']).length - 1)), ['Z']) = _
  rw [List.length_append, hlength]
  rfl

/-- A fraction is read as the nanoseconds that it was written of, whatever its places. -/
theorem readFraction_renderFraction {nano : Nat} (h : nano < 1000000000) :
    readFraction (renderFraction nano ++ ['Z']) = .ok (nano, ['Z']) := by
  rw [renderFraction]
  split
  · next hzero =>
    rw [hzero]
    rfl
  · split
    · next hmilli =>
      have hplaces : nano / 1000000 < Nat.pow 10 3 := show _ < 1000 by omega
      have hread := readFraction_padded (by decide) (by decide) hplaces
      have hback : nano / 1000000 * Nat.pow 10 (9 - 3) = nano :=
        Nat.div_mul_cancel (Nat.dvd_of_mod_eq_zero hmilli)
      rwa [hback] at hread
    · split
      · next hmicro =>
        have hplaces : nano / 1000 < Nat.pow 10 6 := show _ < 1000000 by omega
        have hread := readFraction_padded (by decide) (by decide) hplaces
        have hback : nano / 1000 * Nat.pow 10 (9 - 6) = nano :=
          Nat.div_mul_cancel (Nat.dvd_of_mod_eq_zero hmicro)
        rwa [hback] at hread
      · have hplaces : nano < Nat.pow 10 9 := h
        have hread := readFraction_padded (by decide) (by decide) hplaces
        rwa [Nat.sub_self, Nat.pow_eq, Nat.pow_zero, Nat.mul_one] at hread

/-! ### Moments -/

theorem Moment.ofCivil?_self (m : Moment) :
    Moment.ofCivil? m.year m.month m.day m.hour m.minute m.second m.nano = some m :=
  dif_pos m.civil

/-- Without an offset a moment stays what it is. -/
theorem Moment.shiftMinutes_zero (m : Moment) : m.shiftMinutes 0 = some m := by
  obtain ⟨-, -, -, -, -, -, hhour, hminute, -⟩ := m.bounds
  have hstart : ¬ ((m.hour : Int) * 60 + m.minute + 0 < 0) := by omega
  have hend : (m.hour : Int) * 60 + m.minute + 0 < 1440 := by omega
  have hinDay : (((m.hour : Int) * 60 + m.minute + 0) % 1440).toNat = m.hour * 60 + m.minute := by
    omega
  have hback : (m.hour * 60 + m.minute) / 60 = m.hour := by omega
  have hback' : (m.hour * 60 + m.minute) % 60 = m.minute := by omega
  simp only [Moment.shiftMinutes, hstart, hend, hinDay, hback, hback', if_false, if_true]
  exact m.ofCivil?_self

/-- **A moment is read back from its standard form.** -/
theorem Moment.ofString_render (m : Moment) : Moment.ofString m.render = .ok m := by
  obtain ⟨hfirst, hlast, hmonth, hmonth', hday, hday', hhour, hminute, hsecond, hnano⟩ := m.bounds
  have hchars : m.renderChars = renderYear m.year ++ '-' :: (padded 2 m.month ++ '-' ::
      (padded 2 m.day ++ 'T' :: (padded 2 m.hour ++ ':' :: (padded 2 m.minute ++ ':' ::
        (padded 2 m.second ++ (renderFraction m.nano ++ ['Z'])))))) := by
    simp [Moment.renderChars]
  rw [Moment.ofString, Moment.render, String.toList_ofList, hchars, Moment.ofChars]
  refine bind_eq_ok_iff.mpr ⟨_, readYear_renderYear hfirst hlast _, ?_⟩
  refine bind_eq_ok_iff.mpr ⟨_, readMark_cons (by decide) _, ?_⟩
  refine bind_eq_ok_iff.mpr ⟨_, readBetween_padded hmonth hmonth' (by omega) _, ?_⟩
  refine bind_eq_ok_iff.mpr ⟨_, readMark_cons (by decide) _, ?_⟩
  refine bind_eq_ok_iff.mpr ⟨_, readBetween_padded hday hday' (by omega) _, ?_⟩
  refine bind_eq_ok_iff.mpr ⟨_, rfl, ?_⟩
  refine bind_eq_ok_iff.mpr ⟨_, readBetween_padded (Nat.zero_le _) (by omega) (by omega) _, ?_⟩
  refine bind_eq_ok_iff.mpr ⟨_, readMark_cons (by decide) _, ?_⟩
  refine bind_eq_ok_iff.mpr ⟨_, readBetween_padded (Nat.zero_le _) (by omega) (by omega) _, ?_⟩
  refine bind_eq_ok_iff.mpr ⟨_, readMark_cons (by decide) _, ?_⟩
  refine bind_eq_ok_iff.mpr ⟨_, readBetween_padded (Nat.zero_le _) hsecond (by omega) _, ?_⟩
  refine bind_eq_ok_iff.mpr ⟨_, readFraction_renderFraction hnano, ?_⟩
  refine bind_eq_ok_iff.mpr ⟨(0, []), rfl, ?_⟩
  simp only [Text.trimStart, List.dropWhile_nil, List.isEmpty_nil, Bool.not_true,
    Bool.false_eq_true, if_false, m.ofCivil?_self, Int.neg_zero, m.shiftMinutes_zero]
  rfl

end ScriptRegistry.Time
