/-
ScriptRegistry/Proofs/Conversion.lean

What the rules let pass is converted, with the same content.

The rules look at single members of a body, the readers take the body as a
whole, and neither knows of the other.  The rules are the stricter ones: where no
problem is found in a script block, its members are texts and the reducer has a
name, so that the block is read; and the payload that was opened to look for
violations is opened once more, with the same outcome.  The draft then repeats
the body (`Draft.Repeats`), down to the texts that the violations were looked
for in.

Main result: `Validation.Grants.converts`.
-/
import ScriptRegistry.Proofs.Judging

namespace ScriptRegistry

open Json Validation

/-! ### Same content -/

/-- Class name and source text are those of a script block, and the text is the one that
problems were looked for in. -/
structure Echoes (block : Value) (policy : Source.Policy) (className source : String) : Prop where
  named : block.field? "className" = some (.string className)
  holds : ∃ code, block.field? "code" = some (.string code) ∧ openPayload code = .ok source
  analysed : codeProblems block policy
    = (Source.violations source.toList policy className).map .violation

/-- A draft has the content of a body: a privacy script exactly where the body has a
privacy block, and all texts as they were looked at. -/
structure Draft.Repeats (d : Draft) (standards : Standards) (body : Value) : Prop where
  name : body.field? nameField = some (.string d.name.text)
  description : body.field? descriptionField = some (.string d.description)
  main : ∃ block, body.field? mainField = some block ∧
    Echoes block standards.main d.main.className d.main.source ∧
    block.field? "reducer" = some (.string d.main.reducer.render)
  privacy : Option.Rel (fun block (script : PrivacyScript) =>
    Echoes block standards.privacy script.className script.source)
    (body.field? privacyField) d.privacy

/-! ### Blocks without problems -/

theorem reducer_of_problems {block : Value} (h : reducerProblems block = []) :
    ∃ reducer : Reducer, block.field? "reducer" = some (.string reducer.render) := by
  rw [reducerProblems] at h
  split at h
  · cases h
  · next name hfield =>
    rw [hfield]
    split at h
    · next hsome =>
      obtain ⟨reducer, hreducer⟩ := Option.isSome_iff_exists.mp hsome
      refine ⟨reducer, ?_⟩
      rw [Reducer.ofString?] at hreducer
      split at hreducer
      · next hname =>
        cases hreducer
        rw [hname]
      · split at hreducer
        · next hname =>
          cases hreducer
          rw [hname]
        · cases hreducer
    · cases h
  · cases h

theorem reducer_ofValue (reducer : Reducer) :
    Reducer.decoder.ofValue (.string reducer.render) = .ok reducer := by
  cases reducer <;> rfl

/-- A block without problems has a class name and a payload that holds a text. -/
theorem echoes_of_problems {block : Value} {policy : Source.Policy}
    (hclass : classNameProblems block = []) (hcode : codeProblems block policy = []) :
    ∃ code className source, block.field? "code" = some (.string code) ∧
      openPayload code = .ok source ∧ Echoes block policy className source := by
  obtain ⟨className, hname⟩ : ∃ className, textMember block "className" = .ok className := by
    rw [classNameProblems] at hclass
    rcases hname : textMember block "className" with fault | className
    · rw [hname] at hclass
      cases hclass
    · exact ⟨className, rfl⟩
  obtain ⟨code, source, htext, hopen, hnone⟩ := source_of_problems hcode hname
  have hfield := textMember_eq_ok_iff.mp htext
  refine ⟨code, className, source, hfield, hopen, textMember_eq_ok_iff.mp hname,
    ⟨code, hfield, hopen⟩, ?_⟩
  rw [hcode, hnone]
  rfl

variable {members : List (String × Value)} {policy : Source.Policy}

/-- A main block without problems is read and opened. -/
theorem main_converts (hmembers : (members.map (·.1)).Nodup)
    (h : mainProblems (.object members) policy = []) :
    ∃ (m : MainSubmission) (script : MainScript),
      MainSubmission.decoder.ofValue (.object members) = .ok m ∧ m.unpack = .ok script ∧
      Echoes (.object members) policy script.className script.source ∧
      (Value.object members).field? "reducer" = some (.string script.reducer.render) := by
  simp only [mainProblems, List.append_eq_nil_iff] at h
  obtain ⟨code, className, source, hcode, hopen, hechoes⟩ := echoes_of_problems h.1.1 h.1.2
  obtain ⟨reducer, hreducer⟩ := reducer_of_problems h.2
  refine ⟨⟨code, className, reducer⟩, ⟨source, className, reducer⟩, ?_, ?_, hechoes, hreducer⟩
  · exact (mainSubmission_ofValue_iff hmembers).mpr ⟨(field?_object_iff.mp hcode).1,
      (field?_object_iff.mp hechoes.named).1, _, (field?_object_iff.mp hreducer).1,
      reducer_ofValue reducer⟩
  · rw [MainSubmission.unpack, hopen]
    rfl

/-- A privacy block without problems is read and opened. -/
theorem privacy_converts (hmembers : (members.map (·.1)).Nodup) {key : AccessKey}
    (h : privacyProblems (.object members) policy key = []) :
    ∃ (p : PrivacySubmission) (script : PrivacyScript),
      PrivacySubmission.decoder.ofValue (.object members) = .ok p ∧ p.unpack = .ok script ∧
      Echoes (.object members) policy script.className script.source := by
  simp only [privacyProblems, List.append_eq_nil_iff] at h
  obtain ⟨code, className, source, hcode, hopen, hechoes⟩ := echoes_of_problems h.1.2 h.2
  have hkey := textMember_eq_ok_iff.mp (key_of_problems h.1.1)
  refine ⟨⟨code, className, key.secret⟩, ⟨source, className⟩, ?_, ?_, hechoes⟩
  · exact (privacySubmission_ofValue_iff hmembers).mpr ⟨(field?_object_iff.mp hcode).1,
      (field?_object_iff.mp hechoes.named).1, (field?_object_iff.mp hkey).1⟩
  · rw [PrivacySubmission.unpack, hopen]
    rfl

/-! ### Bodies -/

/-- Only objects have fields. -/
theorem members_of_field? {v w : Value} {name : String} (h : v.field? name = some w) :
    ∃ members, v = .object members := by
  cases v with
  | object members => exact ⟨members, rfl⟩
  | _ => cases h

/-- The privacy part of a body that passes the rules is converted, if there is one. -/
theorem privacyPart_converts {standards : Standards} (hproper : (Value.object members).Proper)
    (h : ∀ block, (Value.object members).field? privacyField = some block →
      ∃ parts, block = .object parts ∧
        privacyProblems (.object parts) standards.privacy standards.accessKey = []) :
    ∃ (privacy : Option PrivacySubmission) (script : Option PrivacyScript),
      ((Value.object members).field? privacyField = none ∧ privacy = none ∨
        ∃ block p, (Value.object members).field? privacyField = some block ∧
          PrivacySubmission.decoder.ofValue block = .ok p ∧ privacy = some p) ∧
      (∀ s : Submission, s.privacy = privacy → ∀ main, s.main.unpack = .ok main →
        s.unpack = .ok ⟨s.name, s.description, main, script⟩) ∧
      Option.Rel (fun block (script : PrivacyScript) =>
        Echoes block standards.privacy script.className script.source)
        ((Value.object members).field? privacyField) script := by
  rcases hfield : (Value.object members).field? privacyField with - | block
  · refine ⟨none, none, Or.inl ⟨rfl, rfl⟩, fun s hs main hmain => ?_, Option.Rel.none⟩
    rw [Submission.unpack, hmain, hs]
    rfl
  · obtain ⟨parts, rfl, hproblems⟩ := h block hfield
    have hparts := (hproper.of_lookup (field?_object_iff.mp hfield).1).distinct
    obtain ⟨p, script, hread, hunpack, hechoes⟩ := privacy_converts hparts hproblems
    refine ⟨some p, some script, Or.inr ⟨_, p, rfl, hread, rfl⟩, fun s hs main hmain => ?_,
      Option.Rel.some hechoes⟩
    rw [Submission.unpack, hmain, hs]
    simp only [hunpack]
    rfl

/-- **A body that passes the rules is read and opened, and the draft repeats it.** -/
theorem Validation.Grants.converts {standards : Standards} {body : Document}
    (h : Grants standards body.value) :
    ∃ (s : Submission) (d : Draft), Submission.decoder.ofValue body.value = .ok s ∧
      s.unpack = .ok d ∧ d.Repeats standards body.value := by
  obtain ⟨⟨name, hname⟩, ⟨description, hdescription, -⟩, ⟨parts, hblock, hmain⟩, hprivacy⟩ := h
  obtain ⟨value, hproper⟩ := body
  obtain ⟨members, rfl⟩ := members_of_field? hblock
  have hlookup := (field?_object_iff.mp hblock).1
  obtain ⟨m, main, hread, hunpack, hechoes, hreducer⟩ :=
    main_converts (hproper.of_lookup hlookup).distinct hmain
  obtain ⟨privacy, script, hchoice, hprivacyUnpack, hrel⟩ :=
    privacyPart_converts hproper hprivacy
  refine ⟨⟨name, description, m, privacy⟩, ⟨name, description, main, script⟩, ?_,
    hprivacyUnpack _ rfl main hunpack, hname, hdescription,
    ⟨_, hblock, hechoes, hreducer⟩, hrel⟩
  exact (submission_ofValue_iff hproper.distinct).mpr ⟨(field?_object_iff.mp hname).1,
    (field?_object_iff.mp hdescription).1, ⟨_, hlookup, hread⟩, hchoice⟩

end ScriptRegistry
