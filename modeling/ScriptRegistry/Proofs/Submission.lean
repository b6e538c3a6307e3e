/-
ScriptRegistry/Proofs/Submission.lean

What a submission is read from.

The rules look at single members of a body, long before anything is read as a
whole.  Here the readers of the whole body are taken apart again: a submission
has each of its parts from the member of that name, and from that alone.

Main result: `submission_ofValue_iff`.
-/
import ScriptRegistry.Algorithm.Format
import ScriptRegistry.Proofs.Document

namespace ScriptRegistry

open Json

/-! ### Single readers -/

theorem string_ofValue_iff {v : Value} {text : String} :
    Decoder.string.ofValue v = .ok text ↔ v = .string text := by
  cases v <;> simp [Decoder.string, Decoder.texted]

/-- A refined reader accepts what both of its parts accept. -/
theorem refine_ofValue_iff {α β : Type} {d : Decoder α} {f : α → Except String β} {v : Value}
    {b : β} : (d.refine f).ofValue v = .ok b ↔ ∃ a, d.ofValue v = .ok a ∧ f a = .ok b := by
  rw [Decoder.refine, bind_eq_ok_iff]
  refine exists_congr fun a => and_congr_right fun _ => ?_
  rcases f a with message | b' <;> simp

theorem ofString_eq_ok_iff {text : String} {name : AlgorithmName} :
    AlgorithmName.ofString text = .ok name ↔ text = name.text := by
  rw [AlgorithmName.ofString]
  constructor
  · intro h
    split at h
    · cases h
      rfl
    · cases h
  · rintro rfl
    rw [dif_pos name.slug]

theorem name_ofValue_iff {v : Value} {name : AlgorithmName} :
    AlgorithmName.decoder.ofValue v = .ok name ↔ v = .string name.text := by
  have hread : ∀ text, (AlgorithmName.ofString text).mapError InputError.message = .ok name
      ↔ text = name.text := by
    intro text
    rw [← ofString_eq_ok_iff]
    rcases AlgorithmName.ofString text with e | n
    · exact ⟨fun h => (by cases h), fun h => (by cases h)⟩
    · exact ⟨fun h => (by cases h; rfl), fun h => (by cases h; rfl)⟩
  rw [AlgorithmName.decoder, refine_ofValue_iff]
  constructor
  · rintro ⟨text, htext, hname⟩
    rw [string_ofValue_iff.mp htext, (hread text).mp hname]
  · rintro rfl
    exact ⟨name.text, rfl, (hread _).mpr rfl⟩

/-- Where `null` is read as nothing, everything else is read as before. -/
theorem optional_ofValue_iff {α : Type} {d : Decoder α} {v : Value} {a : Option α} :
    d.optional.ofValue v = .ok a
      ↔ v = .null ∧ a = none ∨ v ≠ .null ∧ ∃ x, d.ofValue v = .ok x ∧ a = some x := by
  cases v with
  | null => simp [Decoder.optional, eq_comm]
  | _ =>
    simp only [Decoder.optional, ne_eq, reduceCtorEq, false_and, not_false_eq_true, true_and,
      false_or]
    rcases d.ofValue _ with mismatch | x <;> simp [Except.map, eq_comm]

/-! ### The blocks -/

/-- A field that must be there takes its member. -/
theorem take_iff {α : Type} {name : String} {d : Decoder α} {members : List (String × Value)}
    {a : α} : Field.take { name := name, decoder := d } members = .ok a
      ↔ ∃ v, members.lookup name = some v ∧ d.ofValue v = .ok a := by
  simp only [Field.take]
  rcases members.lookup name with - | v <;> simp

/-- A field that holds a string takes the text of its member. -/
theorem take_string_iff {name : String} {members : List (String × Value)} {text : String} :
    Field.take { name := name, decoder := .string } members = .ok text
      ↔ members.lookup name = some (.string text) := by
  rw [take_iff]
  constructor
  · rintro ⟨v, hv, htext⟩
    rw [hv, string_ofValue_iff.mp htext]
  · intro hv
    exact ⟨_, hv, rfl⟩

variable {members : List (String × Value)}

theorem mainSubmission_ofValue_iff (hmembers : (members.map (·.1)).Nodup) {m : MainSubmission} :
    MainSubmission.decoder.ofValue (.object members) = .ok m
      ↔ members.lookup "code" = some (.string m.code) ∧
        members.lookup "className" = some (.string m.className) ∧
        ∃ v, members.lookup "reducer" = some v ∧ Reducer.decoder.ofValue v = .ok m.reducer := by
  rw [MainSubmission.decoder, record_ofValue_object (by decide) hmembers]
  constructor
  · rintro ⟨⟨code, className, reducer, ⟨⟩⟩, htake, rfl⟩
    obtain ⟨hcode, htake⟩ := Fields.take_cons_iff.mp htake
    obtain ⟨hclass, htake⟩ := Fields.take_cons_iff.mp htake
    obtain ⟨hreducer, -⟩ := Fields.take_cons_iff.mp htake
    exact ⟨take_string_iff.mp hcode, take_string_iff.mp hclass, take_iff.mp hreducer⟩
  · rintro ⟨hcode, hclass, hreducer⟩
    refine ⟨(m.code, m.className, m.reducer, ()), ?_, rfl⟩
    apply Fields.take_cons_iff.mpr ⟨take_string_iff.mpr hcode, ?_⟩
    apply Fields.take_cons_iff.mpr ⟨take_string_iff.mpr hclass, ?_⟩
    exact Fields.take_cons_iff.mpr ⟨take_iff.mpr hreducer, rfl⟩

theorem privacySubmission_ofValue_iff (hmembers : (members.map (·.1)).Nodup)
    {p : PrivacySubmission} :
    PrivacySubmission.decoder.ofValue (.object members) = .ok p
      ↔ members.lookup "code" = some (.string p.code) ∧
        members.lookup "className" = some (.string p.className) ∧
        members.lookup "key" = some (.string p.key) := by
  rw [PrivacySubmission.decoder, record_ofValue_object (by decide) hmembers]
  constructor
  · rintro ⟨⟨code, className, key, ⟨⟩⟩, htake, rfl⟩
    obtain ⟨hcode, htake⟩ := Fields.take_cons_iff.mp htake
    obtain ⟨hclass, htake⟩ := Fields.take_cons_iff.mp htake
    obtain ⟨hkey, -⟩ := Fields.take_cons_iff.mp htake
    exact ⟨take_string_iff.mp hcode, take_string_iff.mp hclass, take_string_iff.mp hkey⟩
  · rintro ⟨hcode, hclass, hkey⟩
    refine ⟨(p.code, p.className, p.key, ()), ?_, rfl⟩
    apply Fields.take_cons_iff.mpr ⟨take_string_iff.mpr hcode, ?_⟩
    apply Fields.take_cons_iff.mpr ⟨take_string_iff.mpr hclass, ?_⟩
    exact Fields.take_cons_iff.mpr ⟨take_string_iff.mpr hkey, rfl⟩

/-! ### The submission -/

/-- The privacy block is taken where it is present and not `null`. -/
theorem take_privacy_iff {privacy : Option PrivacySubmission} :
    Field.take { name := "privacyAlgorithm", decoder := PrivacySubmission.decoder.optional,
                 ifMissing := some none, ifShort := some none } members = .ok privacy
      ↔ (Value.object members).field? "privacyAlgorithm" = none ∧ privacy = none ∨
        ∃ block p, (Value.object members).field? "privacyAlgorithm" = some block ∧
          PrivacySubmission.decoder.ofValue block = .ok p ∧ privacy = some p := by
  simp only [Field.take, field?_object_iff, field?_object_eq_none_iff]
  rcases members.lookup "privacyAlgorithm" with - | v
  · simp [eq_comm]
  · simp only [optional_ofValue_iff, reduceCtorEq, Option.some.injEq, false_or]
    constructor
    · rintro (h | ⟨hnull, p, hp, rfl⟩)
      · exact Or.inl h
      · exact Or.inr ⟨v, p, ⟨rfl, hnull⟩, hp, rfl⟩
    · rintro (h | ⟨block, p, ⟨rfl, hnull⟩, hp, rfl⟩)
      · exact Or.inl h
      · exact Or.inr ⟨hnull, p, hp, rfl⟩

/-- **A submission is read from an object member by member.** -/
theorem submission_ofValue_iff (hmembers : (members.map (·.1)).Nodup) {s : Submission} :
    Submission.decoder.ofValue (.object members) = .ok s
      ↔ members.lookup "algoName" = some (.string s.name.text) ∧
        members.lookup "description" = some (.string s.description) ∧
        (∃ block, members.lookup "algorithm" = some block ∧
          MainSubmission.decoder.ofValue block = .ok s.main) ∧
        ((Value.object members).field? "privacyAlgorithm" = none ∧ s.privacy = none ∨
          ∃ block p, (Value.object members).field? "privacyAlgorithm" = some block ∧
            PrivacySubmission.decoder.ofValue block = .ok p ∧ s.privacy = some p) := by
  have hname : ∀ name, Field.take { name := "algoName", decoder := AlgorithmName.decoder } members
      = .ok name ↔ members.lookup "algoName" = some (.string name.text) := by
    intro name
    rw [take_iff]
    constructor
    · rintro ⟨v, hv, hread⟩
      rw [hv, name_ofValue_iff.mp hread]
    · intro hv
      exact ⟨_, hv, name_ofValue_iff.mpr rfl⟩
  rw [Submission.decoder, record_ofValue_object (by decide) hmembers]
  constructor
  · rintro ⟨⟨name, description, main, privacy, ⟨⟩⟩, htake, rfl⟩
    obtain ⟨halgo, htake⟩ := Fields.take_cons_iff.mp htake
    obtain ⟨hdescription, htake⟩ := Fields.take_cons_iff.mp htake
    obtain ⟨hmain, htake⟩ := Fields.take_cons_iff.mp htake
    obtain ⟨hprivacy, -⟩ := Fields.take_cons_iff.mp htake
    exact ⟨(hname _).mp halgo, take_string_iff.mp hdescription, take_iff.mp hmain,
      take_privacy_iff.mp hprivacy⟩
  · rintro ⟨halgo, hdescription, hmain, hprivacy⟩
    refine ⟨(s.name, s.description, s.main, s.privacy, ()), ?_, rfl⟩
    apply Fields.take_cons_iff.mpr ⟨(hname _).mpr halgo, ?_⟩
    apply Fields.take_cons_iff.mpr ⟨take_string_iff.mpr hdescription, ?_⟩
    apply Fields.take_cons_iff.mpr ⟨take_iff.mpr hmain, ?_⟩
    exact Fields.take_cons_iff.mpr ⟨take_privacy_iff.mpr hprivacy, rfl⟩

end ScriptRegistry
