/-
ScriptRegistry/Proofs/Attempts.lean

What an update makes of what it finds.

Attempt `k` of an update reads the latest version of a name at call `2 * k` about
records, and inserts at call `2 * k + 1`.  What it finds at each call is a sequence
`seen`, and every attempt loses, wins, finds no version, or finds the last one there
can be.  The first that does not lose is the last one made; if all of them lose, the
last one is the last that is allowed.  So there is at most one attempt that is reached
and not lost, and each result can be told from `seen` alone.

Main results: `Concludes.eq_of_reached`, and one equivalence for each result.
-/
import ScriptRegistry.Store.Operation

namespace ScriptRegistry.Store

/-! ### Attempts -/

variable (seen : Nat → Option Version)

/-- Attempt `k` finds a version that can be followed, and another one when it inserts. -/
def Loses (k : Nat) : Prop :=
  ∃ v, seen (2 * k) = some v ∧ v.number + 1 < versionBound ∧ seen (2 * k + 1) ≠ some v

/-- Attempt `k` finds a version that can be followed, and the same one when it inserts. -/
def Wins (k : Nat) (v : Version) : Prop :=
  seen (2 * k) = some v ∧ v.number + 1 < versionBound ∧ seen (2 * k + 1) = some v

/-- Attempt `k` finds the last version there can be. -/
def Exhausts (k : Nat) : Prop :=
  ∃ v, seen (2 * k) = some v ∧ v.number + 1 = versionBound

/-- All attempts before `k` are lost. -/
def Reached (k : Nat) : Prop :=
  ∀ j < k, Loses seen j

/-- How an attempt ends, if it is not followed by another one: whether it may be the last of
`tries` counts only for one that is lost. -/
inductive Concludes (name : AlgorithmName) (tries k : Nat) : Except StoreError Record → Prop
  | won {v : Version} {record : Record} (h : Wins seen k v)
      (hnumber : record.version.number = v.number + 1) : Concludes name tries k (.ok record)
  | lost {expected actual : Option Version} (h : Loses seen k) (hlast : k + 1 = tries) :
      Concludes name tries k (.error (.versionConflict name expected actual))
  | absent (h : seen (2 * k) = none) : Concludes name tries k (.error (.notFound name))
  | exhausted {number : Nat} (h : Exhausts seen k) :
      Concludes name tries k (.error (.input (.versionsExhausted number)))

variable {seen} {name : AlgorithmName} {tries k k' : Nat} {v : Version}
    {result : Except StoreError Record}

theorem Wins.not_loses (h : Wins seen k v) : ¬ Loses seen k := by
  rintro ⟨v', hread, -, hother⟩
  obtain rfl := Option.some.inj (h.1.symm.trans hread)
  exact hother h.2.2

theorem Exhausts.not_loses (h : Exhausts seen k) : ¬ Loses seen k := by
  obtain ⟨v, hread, hlast⟩ := h
  rintro ⟨v', hread', hnext, -⟩
  obtain rfl := Option.some.inj (hread.symm.trans hread')
  omega

theorem not_loses_of_absent (h : seen (2 * k) = none) : ¬ Loses seen k := by
  rintro ⟨v, hread, -⟩
  rw [h] at hread
  cases hread

/-- A lost attempt concludes nothing unless it is the last one. -/
theorem Concludes.last_of_loses (h : Concludes seen name tries k result) (hk : Loses seen k) :
    k + 1 = tries := by
  cases h with
  | won h => exact absurd hk h.not_loses
  | lost h hlast => exact hlast
  | absent h => exact absurd hk (not_loses_of_absent h)
  | exhausted h => exact absurd hk h.not_loses

/-- **There is one attempt that is reached and not lost, at most**, and it concludes. -/
theorem Concludes.eq_of_reached (h : Concludes seen name tries k result)
    (hreached : Reached seen k) (hk' : k' < tries) (hreached' : Reached seen k')
    (hend : ¬ Loses seen k') : k' = k := by
  rcases Nat.lt_trichotomy k' k with hlt | heq | hlt
  · exact absurd (hreached k' hlt) hend
  · exact heq
  · have hlast := h.last_of_loses (hreached' k hlt)
    omega

/-! The results, each by what the attempts find. -/

theorem Concludes.ok_iff (h : Concludes seen name tries k result) (hk : k < tries)
    (hreached : Reached seen k) : (∃ record, result = .ok record) ↔
      ∃ k' < tries, Reached seen k' ∧ ∃ v, Wins seen k' v := by
  constructor
  · rintro ⟨record, rfl⟩
    cases h with
    | won hwins hnumber => exact ⟨k, hk, hreached, _, hwins⟩
  · rintro ⟨k', hk', hreached', v, hwins⟩
    obtain rfl := h.eq_of_reached hreached hk' hreached' hwins.not_loses
    cases h with
    | won _ _ => exact ⟨_, rfl⟩
    | lost hlost _ => exact absurd hlost hwins.not_loses
    | absent habsent => cases habsent.symm.trans hwins.1
    | exhausted hlast =>
      obtain ⟨v', hread, hlast⟩ := hlast
      obtain rfl := Option.some.inj (hread.symm.trans hwins.1)
      exact absurd hlast (Nat.ne_of_lt hwins.2.1)

theorem Concludes.number_eq {record : Record} (h : Concludes seen name tries k (.ok record))
    (hreached : Reached seen k) (hreached' : Reached seen k') (hwins : Wins seen k' v) :
    record.version.number = v.number + 1 := by
  cases h with
  | @won v' _ hwins' hnumber =>
    have heq : k = k' := by
      rcases Nat.lt_trichotomy k k' with hlt | heq | hlt
      · exact absurd (hreached' k hlt) hwins'.not_loses
      · exact heq
      · exact absurd (hreached k' hlt) hwins.not_loses
    subst heq
    obtain rfl := Option.some.inj (hwins.1.symm.trans hwins'.1)
    exact hnumber

theorem Concludes.conflict_iff (h : Concludes seen name tries k result) (hk : k < tries)
    (hreached : Reached seen k) :
    (∃ name expected actual, result = .error (.versionConflict name expected actual)) ↔
      ∀ k' < tries, Loses seen k' := by
  constructor
  · rintro ⟨name', expected, actual, rfl⟩ k' hk'
    cases h with
    | lost hlost hlast =>
      rcases Nat.lt_succ_iff_lt_or_eq.mp (hlast ▸ hk') with hlt | rfl
      · exact hreached k' hlt
      · exact hlost
  · intro hall
    cases h with
    | won hwins _ => exact absurd (hall k hk) hwins.not_loses
    | lost _ _ => exact ⟨_, _, _, rfl⟩
    | absent habsent => exact absurd (hall k hk) (not_loses_of_absent habsent)
    | exhausted hlast => exact absurd (hall k hk) hlast.not_loses

theorem Concludes.notFound_iff (h : Concludes seen name tries k result) (hk : k < tries)
    (hreached : Reached seen k) : result = .error (.notFound name) ↔
      ∃ k' < tries, Reached seen k' ∧ seen (2 * k') = none := by
  constructor
  · rintro rfl
    cases h with
    | absent habsent => exact ⟨k, hk, hreached, habsent⟩
  · rintro ⟨k', hk', hreached', habsent⟩
    obtain rfl := h.eq_of_reached hreached hk' hreached' (not_loses_of_absent habsent)
    cases h with
    | won hwins _ => cases habsent.symm.trans hwins.1
    | lost hlost _ => exact absurd hlost (not_loses_of_absent habsent)
    | absent _ => rfl
    | exhausted hlast =>
      obtain ⟨v, hread, -⟩ := hlast
      cases habsent.symm.trans hread

theorem Concludes.exhausted_iff (h : Concludes seen name tries k result) (hk : k < tries)
    (hreached : Reached seen k) :
    (∃ number, result = .error (.input (.versionsExhausted number))) ↔
      ∃ k' < tries, Reached seen k' ∧ Exhausts seen k' := by
  constructor
  · rintro ⟨number, rfl⟩
    cases h with
    | exhausted hlast => exact ⟨k, hk, hreached, hlast⟩
  · rintro ⟨k', hk', hreached', hlast⟩
    obtain rfl := h.eq_of_reached hreached hk' hreached' hlast.not_loses
    have ⟨v, hread, hnumber⟩ := hlast
    cases h with
    | won hwins _ =>
      obtain rfl := Option.some.inj (hread.symm.trans hwins.1)
      exact absurd hnumber (Nat.ne_of_lt hwins.2.1)
    | lost hlost _ => exact absurd hlost hlast.not_loses
    | absent habsent => cases habsent.symm.trans hread
    | exhausted _ => exact ⟨_, rfl⟩

end ScriptRegistry.Store
