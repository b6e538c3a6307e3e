/-
ScriptRegistry/Proofs/RoundTrip.lean

Whatever is written is read as what it was.

For each type the parts of its form are named with their readers, and `reads_record`
puts them together; what is to be shown of a single type is only that its texts lead
back to it: the digits of a digest and of a version, the name of a reducer, the
standard form of a time.  That the text of a record has the members of its value,
whatever their order, is shown part by part in the same way.

Main result: `read_written`.
-/
import ScriptRegistry.Algorithm.Written
import ScriptRegistry.Proofs.Conversion
import ScriptRegistry.Proofs.Decoding
import ScriptRegistry.Proofs.Digest
import ScriptRegistry.Proofs.Moments

namespace ScriptRegistry

open Json

variable {depth : Nat}

/-! ### Parts -/

theorem AlgorithmName.reads (n : AlgorithmName) :
    AlgorithmName.decoder.Reads depth n.toJson n := by
  refine (Decoder.reads_string n.text).refine ?_
  rw [ofString_eq_ok_iff.mpr rfl]
  rfl

theorem Version.reads (v : Version) : Version.decoder.Reads depth v.toJson v := by
  refine (Decoder.reads_word32 v.bounded).refine ?_
  rw [Version.ofNat, dif_pos ⟨v.positive, v.bounded⟩]
  rfl

theorem Reducer.reads (r : Reducer) : Reducer.decoder.Reads depth r.toJson r := by
  refine Decoder.reads_choice ?_
  cases r <;> rfl

theorem Artifact.Digest.reads (d : Artifact.Digest) :
    Artifact.Digest.decoder.Reads depth d.toJson d := by
  refine (Decoder.reads_string d.render).refine ?_
  rw [d.ofString_render]
  rfl

theorem Artifact.Key.reads (k : Artifact.Key) : Artifact.Key.decoder.Reads depth k.toJson k :=
  (Decoder.reads_string k.text).map _

theorem Time.Moment.reads (m : Time.Moment) : Time.Moment.decoder.Reads depth m.toJson m := by
  refine Decoder.reads_texted ?_
  rw [m.ofString_render]
  rfl

theorem reads_strings (ss : List String) :
    Decoder.string.list.Reads (depth + 1) (.strings ss) ss :=
  Decoder.reads_list fun s _ => Decoder.reads_string s

/-! ### Records -/

theorem Source.Policy.reads (p : Source.Policy) :
    Source.Policy.decoder.Reads (depth + 2) p.toJson p :=
  reads_record (by decide) rfl
    (.cons rfl (reads_strings p.forbidden) <| .cons rfl (reads_strings p.required) <|
      .cons rfl (Decoder.reads_string p.baseClass) .nil) rfl

theorem MainSubmission.reads (m : MainSubmission) :
    MainSubmission.decoder.Reads (depth + 1) m.toJson m :=
  reads_record (by decide) rfl
    (.cons rfl (Decoder.reads_string m.code) <| .cons rfl (Decoder.reads_string m.className) <|
      .cons rfl m.reducer.reads .nil) rfl

theorem PrivacySubmission.reads (p : PrivacySubmission) :
    PrivacySubmission.decoder.Reads (depth + 1) p.toJson p :=
  reads_record (by decide) rfl
    (.cons rfl (Decoder.reads_string p.code) <| .cons rfl (Decoder.reads_string p.className) <|
      .cons rfl (Decoder.reads_string p.key) .nil) rfl

theorem Submission.reads (s : Submission) :
    Submission.decoder.Reads (depth + 2) s.toJson s :=
  reads_record (by decide) rfl
    (.cons rfl s.name.reads <| .cons rfl (Decoder.reads_string s.description) <|
      .cons rfl s.main.reads <|
      .cons rfl (Decoder.reads_optional PrivacySubmission.reads fun _ => ⟨_, rfl⟩) .nil) rfl

theorem TextRef.reads (r : TextRef) : TextRef.decoder.Reads (depth + 1) r.toJson r :=
  reads_record (by decide) rfl (.cons rfl r.key.reads <| .cons rfl r.digest.reads .nil) rfl

theorem RecordMain.reads (m : RecordMain) :
    RecordMain.decoder.Reads (depth + 2) m.toJson m :=
  reads_record (by decide) rfl
    (.cons rfl m.artifact.reads <| .cons rfl (Decoder.reads_string m.className) <|
      .cons rfl m.reducer.reads .nil) rfl

theorem RecordPrivacy.reads (p : RecordPrivacy) :
    RecordPrivacy.decoder.Reads (depth + 2) p.toJson p :=
  reads_record (by decide) rfl
    (.cons rfl p.artifact.reads <| .cons rfl (Decoder.reads_string p.className) .nil) rfl

theorem Record.reads (r : Record) : Record.decoder.Reads (depth + 3) r.toJson r :=
  reads_record (by decide) rfl
    (.cons rfl r.name.reads <| .cons rfl r.version.reads <|
      .cons rfl (Decoder.reads_string r.description) <| .cons rfl r.main.reads <|
      .cons rfl (Decoder.reads_optional RecordPrivacy.reads fun _ => ⟨_, rfl⟩) <|
      .cons rfl r.createdAt.reads .nil) rfl

theorem RetrievedMain.reads (m : RetrievedMain) :
    RetrievedMain.decoder.Reads (depth + 1) m.toJson m :=
  reads_record (by decide) rfl
    (.cons rfl (Decoder.reads_string m.code) <| .cons rfl (Decoder.reads_string m.className) <|
      .cons rfl m.reducer.reads .nil) rfl

theorem RetrievedPrivacy.reads (p : RetrievedPrivacy) :
    RetrievedPrivacy.decoder.Reads (depth + 1) p.toJson p :=
  reads_record (by decide) rfl
    (.cons rfl (Decoder.reads_string p.code) <| .cons rfl (Decoder.reads_string p.className) .nil)
    rfl

theorem Retrieved.reads (r : Retrieved) : Retrieved.decoder.Reads (depth + 2) r.toJson r :=
  reads_record (by decide) rfl
    (.cons rfl r.name.reads <| .cons rfl r.version.reads <|
      .cons rfl (Decoder.reads_string r.description) <| .cons rfl r.main.reads <|
      .cons rfl (Decoder.reads_optional RetrievedPrivacy.reads fun _ => ⟨_, rfl⟩) <|
      .cons rfl r.createdAt.reads .nil) rfl

theorem Latest.reads (l : Latest) : Latest.decoder.Reads (depth + 1) l.toJson l :=
  reads_record (by decide) rfl (.cons rfl l.name.reads <| .cons rfl l.version.reads .nil) rfl

/-! ### Texts -/

theorem Source.Policy.spells (p : Source.Policy) : p.written.Spells p.toJson :=
  spells_written (by simp)
    (.cons ⟨rfl, spells_strings _⟩ <| .cons ⟨rfl, spells_strings _⟩ <|
      .cons ⟨rfl, spells_string _⟩ .nil)

theorem MainSubmission.spells (m : MainSubmission) : m.written.Spells m.toJson :=
  spells_written (by simp)
    (.cons ⟨rfl, spells_string _⟩ <| .cons ⟨rfl, spells_string _⟩ <|
      .cons ⟨rfl, spells_string _⟩ .nil)

theorem PrivacySubmission.spells (p : PrivacySubmission) : p.written.Spells p.toJson :=
  spells_written (by simp)
    (.cons ⟨rfl, spells_string _⟩ <| .cons ⟨rfl, spells_string _⟩ <|
      .cons ⟨rfl, spells_string _⟩ .nil)

theorem Submission.spells (s : Submission) : s.written.Spells s.toJson :=
  spells_written (by simp)
    (.cons ⟨rfl, spells_string _⟩ <| .cons ⟨rfl, spells_string _⟩ <| .cons ⟨rfl, s.main.spells⟩ <|
      .cons ⟨rfl, spells_optional PrivacySubmission.spells _⟩ .nil)

theorem TextRef.spells (r : TextRef) : r.written.Spells r.toJson :=
  spells_written (by simp) (.cons ⟨rfl, spells_string _⟩ <| .cons ⟨rfl, spells_string _⟩ .nil)

theorem RecordMain.spells (m : RecordMain) : m.written.Spells m.toJson :=
  spells_written (by simp)
    (.cons ⟨rfl, m.artifact.spells⟩ <| .cons ⟨rfl, spells_string _⟩ <|
      .cons ⟨rfl, spells_string _⟩ .nil)

theorem RecordPrivacy.spells (p : RecordPrivacy) : p.written.Spells p.toJson :=
  spells_written (by simp) (.cons ⟨rfl, p.artifact.spells⟩ <| .cons ⟨rfl, spells_string _⟩ .nil)

theorem Record.spells (r : Record) : r.written.Spells r.toJson :=
  spells_written (by simp)
    (.cons ⟨rfl, spells_string _⟩ <| .cons ⟨rfl, spells_number _⟩ <|
      .cons ⟨rfl, spells_string _⟩ <| .cons ⟨rfl, r.main.spells⟩ <|
      .cons ⟨rfl, spells_optional RecordPrivacy.spells _⟩ <| .cons ⟨rfl, spells_string _⟩ .nil)

theorem RetrievedMain.spells (m : RetrievedMain) : m.written.Spells m.toJson :=
  spells_written (by simp)
    (.cons ⟨rfl, spells_string _⟩ <| .cons ⟨rfl, spells_string _⟩ <|
      .cons ⟨rfl, spells_string _⟩ .nil)

theorem RetrievedPrivacy.spells (p : RetrievedPrivacy) : p.written.Spells p.toJson :=
  spells_written (by simp) (.cons ⟨rfl, spells_string _⟩ <| .cons ⟨rfl, spells_string _⟩ .nil)

theorem Retrieved.spells (r : Retrieved) : r.written.Spells r.toJson :=
  spells_written (by simp)
    (.cons ⟨rfl, spells_string _⟩ <| .cons ⟨rfl, spells_number _⟩ <|
      .cons ⟨rfl, spells_string _⟩ <| .cons ⟨rfl, r.main.spells⟩ <|
      .cons ⟨rfl, spells_optional RetrievedPrivacy.spells _⟩ <| .cons ⟨rfl, spells_string _⟩ .nil)

theorem Latest.spells (l : Latest) : l.written.Spells l.toJson :=
  spells_written (by simp) (.cons ⟨rfl, spells_string _⟩ <| .cons ⟨rfl, spells_number _⟩ .nil)

/-! ### Round trips -/

/-- Whatever is written is read as what it was: straight from its text, from its value, and from
the value that its text is read as, which is its value.  So a text that was read can be replaced
by what is written of it.  Nor does the order of the members matter, to either reader. -/
structure RoundTrips {α : Type} (d : Decoder α) (toJson written : α → Value) : Prop where
  straight : ∀ a, d.ofBytes (written a).bytes = .ok a
  converted : ∀ a, d.ofValue (toJson a) = .ok a
  through : ∀ a, Value.ofBytes (written a).bytes = .ok (toJson a)
  again : ∀ text a, d.ofBytes text = .ok a → d.ofBytes (written a).bytes = d.ofBytes text
  againThrough : ∀ text v a, Value.ofBytes text = .ok v → d.ofValue v = .ok a →
    (Value.ofBytes (written a).bytes).map d.ofValue = .ok (d.ofValue v)
  spells : ∀ a, (written a).Spells (toJson a) ∧ (toJson a).Spells (toJson a)
  reordered : ∀ a (w : Value), w.Spells (toJson a) →
    d.ofBytes w.bytes = .ok a ∧ Value.ofBytes w.bytes = .ok (toJson a)

theorem roundTrips_of_reads {α : Type} {d : Decoder α} {toJson written : α → Value}
    (h : ∀ a, d.Reads 127 (toJson a) a) (hspells : ∀ a, (written a).Spells (toJson a)) :
    RoundTrips d toJson written := by
  have hreordered : ∀ a (w : Value), w.Spells (toJson a) →
      d.ofBytes w.bytes = .ok a ∧ Value.ofBytes w.bytes = .ok (toJson a) := by
    intro a w hw
    constructor
    · have hread := (h a).ofText w [] hw .nothing
      rw [List.append_nil] at hread
      exact bind_eq_ok_iff.mpr ⟨_, hread, rfl⟩
    · rw [Value.ofBytes_bytes ((h a).plain.of_spells hw), hw.sorted]
  refine
    { straight := fun a => (hreordered a _ (hspells a)).1
      converted := fun a => (h a).ofValue
      through := fun a => (hreordered a _ (hspells a)).2
      again := fun text a htext => ?_
      againThrough := fun text v a _ hv => ?_
      spells := fun a => ⟨hspells a, (h a).own⟩
      reordered := hreordered }
  · rw [htext]
    exact (hreordered a _ (hspells a)).1
  · rw [(hreordered a _ (hspells a)).2, hv, ← (h a).ofValue]
    rfl

/-- **Names, versions, reducers, digests, keys, policies, submissions, records and the forms in
which they are read back: each is read again from whatever is written of it.** -/
theorem read_written :
    RoundTrips AlgorithmName.decoder AlgorithmName.toJson AlgorithmName.toJson ∧
    RoundTrips Version.decoder Version.toJson Version.toJson ∧
    RoundTrips Reducer.decoder Reducer.toJson Reducer.toJson ∧
    RoundTrips Artifact.Digest.decoder Artifact.Digest.toJson Artifact.Digest.toJson ∧
    RoundTrips Artifact.Key.decoder Artifact.Key.toJson Artifact.Key.toJson ∧
    RoundTrips TextRef.decoder TextRef.toJson TextRef.written ∧
    RoundTrips Source.Policy.decoder Source.Policy.toJson Source.Policy.written ∧
    RoundTrips MainSubmission.decoder MainSubmission.toJson MainSubmission.written ∧
    RoundTrips PrivacySubmission.decoder PrivacySubmission.toJson PrivacySubmission.written ∧
    RoundTrips Submission.decoder Submission.toJson Submission.written ∧
    RoundTrips Record.decoder Record.toJson Record.written ∧
    RoundTrips Retrieved.decoder Retrieved.toJson Retrieved.written ∧
    RoundTrips Latest.decoder Latest.toJson Latest.written := by
  refine ⟨?_, ?_, ?_, ?_, ?_, ?_, ?_, ?_, ?_, ?_, ?_, ?_, ?_⟩
  · exact roundTrips_of_reads AlgorithmName.reads fun _ => spells_string _
  · exact roundTrips_of_reads Version.reads fun _ => spells_number _
  · exact roundTrips_of_reads Reducer.reads fun _ => spells_string _
  · exact roundTrips_of_reads Artifact.Digest.reads fun _ => spells_string _
  · exact roundTrips_of_reads Artifact.Key.reads fun _ => spells_string _
  · exact roundTrips_of_reads TextRef.reads TextRef.spells
  · exact roundTrips_of_reads Source.Policy.reads Source.Policy.spells
  · exact roundTrips_of_reads MainSubmission.reads MainSubmission.spells
  · exact roundTrips_of_reads PrivacySubmission.reads PrivacySubmission.spells
  · exact roundTrips_of_reads Submission.reads Submission.spells
  · exact roundTrips_of_reads Record.reads Record.spells
  · exact roundTrips_of_reads Retrieved.reads Retrieved.spells
  · exact roundTrips_of_reads Latest.reads Latest.spells

end ScriptRegistry
