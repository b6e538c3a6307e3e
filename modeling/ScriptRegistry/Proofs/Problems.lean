/-
ScriptRegistry/Proofs/Problems.lean

What is reported of a script.

The reasons against a script are texts; which of its parts one is about can be told
from how it begins (`Subject.openings`), and no two parts share a beginning.  So it
is enough to count problems.  Those of the class name, the source text, the reducer
and the key are looked for independently of each other, with one exception: whether
the class name is well formed is asked together with its declaration, after the
payload was opened.  An ill-formed name is therefore not reported of a script whose
payload cannot be opened.

Main result: `scripts_reported`.
-/
import ScriptRegistry.Proofs.Conversion
import ScriptRegistry.Proofs.Judging

namespace ScriptRegistry.Validation

open Source (Violation usesLibrary importsStatically withoutComments isClassName declares)

/-! ### Subjects -/

/-- What a reason against a script can be about. -/
inductive Subject
  | className
  | code
  | forbidden
  | missing
  | declaration
  | reducer
  | key
  deriving DecidableEq, Repr

/-- How the reasons about a subject begin. -/
def Subject.openings : Subject → List String
  | .className => ["className ", "invalid className "]
  | .code => ["code not ", "code must ", "code could "]
  | .forbidden => ["code contains "]
  | .missing => ["code does "]
  | .declaration => ["class "]
  | .reducer => ["reducer "]
  | .key => ["key "]

/-- Whether a reason is about a subject. -/
def Concerns (subject : Subject) (reason : String) : Prop :=
  ∃ opening ∈ subject.openings, opening.toList <+: reason.toList

/-- No opening continues another one. -/
theorem subject_of_openings : ∀ s s' : Subject, ∀ opening ∈ s.openings, ∀ opening' ∈ s'.openings,
    opening.toList <+: opening'.toList → s = s' := by
  intro s s'
  cases s <;> cases s' <;> decide

theorem Concerns.unique {s s' : Subject} {reason : String} (h : Concerns s reason)
    (h' : Concerns s' reason) : s = s' := by
  obtain ⟨opening, hmem, hprefix⟩ := h
  obtain ⟨opening', hmem', hprefix'⟩ := h'
  rcases List.prefix_or_prefix_of_prefix hprefix hprefix' with hle | hle
  · exact subject_of_openings s s' opening hmem opening' hmem' hle
  · exact (subject_of_openings s' s opening' hmem' opening hmem hle).symm

/-- The subject of a problem. -/
def ScriptProblem.subject : ScriptProblem → Subject
  | .className _ => .className
  | .code _ => .code
  | .payload _ => .code
  | .violation (.forbiddenLibrary _) => .forbidden
  | .violation (.missingLibrary _) => .missing
  | .violation (.invalidClassName _) => .className
  | .violation (.classNotFound _ _) => .declaration
  | .noReducer => .reducer
  | .unknownReducer => .reducer
  | .key _ => .key
  | .wrongKey => .key

theorem Concerns.append {s : Subject} {reason : String} (h : Concerns s reason) (rest : String) :
    Concerns s (reason ++ rest) := by
  obtain ⟨opening, hmem, hprefix⟩ := h
  refine ⟨opening, hmem, ?_⟩
  rw [String.toList_append]
  exact hprefix.trans (List.prefix_append _ _)

theorem concerns_member {s : Subject} {member : String}
    (habsent : Concerns s (MemberFault.absent.message member))
    (hnotText : Concerns s (MemberFault.notText.message member)) (fault : MemberFault) :
    Concerns s (fault.message member) := by
  cases fault with
  | absent => exact habsent
  | notText => exact hnotText

/-- The message of a problem begins as its subject says. -/
theorem concerns_message (p : ScriptProblem) : Concerns p.subject p.message := by
  cases p with
  | className fault =>
    exact concerns_member (s := .className) ⟨"className ", by decide, by decide⟩
      ⟨"className ", by decide, by decide⟩ fault
  | code fault =>
    exact concerns_member (s := .code) ⟨"code not ", by decide, by decide⟩
      ⟨"code must ", by decide, by decide⟩ fault
  | payload fault =>
    have h : Concerns .code "code could not be decoded: " := ⟨"code could ", by decide, by decide⟩
    exact h.append _
  | violation found =>
    cases found with
    | forbiddenLibrary library =>
      have h : Concerns .forbidden "code contains restricted library " :=
        ⟨"code contains ", by decide, by decide⟩
      exact h.append _
    | missingLibrary library =>
      have h : Concerns .missing "code does not import required library " :=
        ⟨"code does ", by decide, by decide⟩
      exact h.append _
    | invalidClassName name =>
      have h : Concerns .className "invalid className '" :=
        ⟨"invalid className ", by decide, by decide⟩
      exact (h.append _).append _
    | classNotFound name base =>
      have h : Concerns .declaration "class " := ⟨"class ", by decide, by decide⟩
      exact (((h.append _).append _).append _).append _
  | noReducer => exact ⟨"reducer ", by decide, by decide⟩
  | unknownReducer => exact ⟨"reducer ", by decide, by decide⟩
  | key fault =>
    exact concerns_member (s := .key) ⟨"key ", by decide, by decide⟩ ⟨"key ", by decide, by decide⟩
      fault
  | wrongKey => exact ⟨"key ", by decide, by decide⟩

/-- There is a reason about a subject exactly if there is a problem with it. -/
theorem exists_concerns_iff {problems : List ScriptProblem} {s : Subject} :
    (∃ reason ∈ problems.map ScriptProblem.message, Concerns s reason) ↔
      ∃ p ∈ problems, p.subject = s := by
  constructor
  · rintro ⟨reason, hreason, hconcerns⟩
    obtain ⟨p, hp, rfl⟩ := List.mem_map.mp hreason
    exact ⟨p, hp, (concerns_message p).unique hconcerns⟩
  · rintro ⟨p, hp, rfl⟩
    exact ⟨p.message, List.mem_map_of_mem hp, concerns_message p⟩

/-- A message stands for a problem if no other problem with its subject has it. -/
theorem message_mem_iff {problems : List ScriptProblem} {p : ScriptProblem}
    (h : ∀ p' ∈ problems, p'.subject = p.subject → p'.message = p.message → p' = p) :
    p.message ∈ problems.map ScriptProblem.message ↔ p ∈ problems := by
  constructor
  · intro hmem
    obtain ⟨p', hp', hmessage⟩ := List.mem_map.mp hmem
    have hsubject : p'.subject = p.subject :=
      (concerns_message p').unique (hmessage ▸ concerns_message p)
    rw [← h p' hp' hsubject hmessage]
    exact hp'
  · exact List.mem_map_of_mem

/-- The message about a forbidden library names it. -/
theorem forbiddenLibrary_of_message {p : ScriptProblem} {library : String}
    (hp : p.subject = .forbidden) (h : p.message = (Violation.forbiddenLibrary library).message) :
    p = .violation (.forbiddenLibrary library) := by
  cases p with
  | violation found =>
    cases found with
    | forbiddenLibrary library' =>
      have hlibrary : library' = library :=
        String.append_right_inj "code contains restricted library " |>.mp h
      rw [hlibrary]
    | _ => cases hp
  | _ => cases hp

/-- The message about a missing library names it. -/
theorem missingLibrary_of_message {p : ScriptProblem} {library : String}
    (hp : p.subject = .missing) (h : p.message = (Violation.missingLibrary library).message) :
    p = .violation (.missingLibrary library) := by
  cases p with
  | violation found =>
    cases found with
    | missingLibrary library' =>
      have hlibrary : library' = library :=
        String.append_right_inj "code does not import required library " |>.mp h
      rw [hlibrary]
    | _ => cases hp
  | _ => cases hp

/-! ### The class name and the source text -/

/-- The source text that a script brings. -/
def SourceText (script : Json.Value) (source : String) : Prop :=
  ∃ payload, script.field? "code" = some (.string payload) ∧ openPayload payload = .ok source

variable {script : Json.Value} {policy : Source.Policy} {name source : String} {p : ScriptProblem}
variable {found : Violation}

theorem SourceText.unique {source' : String} (h : SourceText script source)
    (h' : SourceText script source') : source = source' := by
  obtain ⟨payload, hfield, hopen⟩ := h
  obtain ⟨payload', hfield', hopen'⟩ := h'
  rw [hfield] at hfield'
  cases hfield'
  rw [hopen] at hopen'
  cases hopen'
  rfl

/-- A member with a fault is no text. -/
theorem field?_ne_of_fault {member : String} {fault : MemberFault}
    (h : textMember script member = .error fault) :
    ∀ text, script.field? member ≠ some (.string text) := by
  intro text hfield
  rw [textMember_eq_ok_iff.mpr hfield] at h
  cases h

theorem exists_classNameProblem_iff : (∃ p, p ∈ classNameProblems script) ↔
    ∀ name, script.field? "className" ≠ some (.string name) := by
  rw [classNameProblems]
  rcases hname : textMember script "className" with fault | name
  · exact ⟨fun _ => field?_ne_of_fault hname, fun _ => ⟨_, List.mem_singleton.mpr rfl⟩⟩
  · constructor
    · rintro ⟨p, ⟨⟩⟩
    · exact fun h => absurd (textMember_eq_ok_iff.mp hname) (h name)

theorem subject_of_mem_classNameProblems (h : p ∈ classNameProblems script) :
    ∃ fault, p = .className fault := by
  rw [classNameProblems] at h
  split at h
  · cases h
  · exact ⟨_, List.mem_singleton.mp h⟩

/-- What opens is looked at, and nothing else is said of the payload. -/
theorem codeProblems_of_sourceText (h : SourceText script source) :
    codeProblems script policy =
      (sourceViolations source policy (textMember script "className").toOption).map
        .violation := by
  obtain ⟨payload, hfield, hopen⟩ := h
  rw [codeProblems, textMember_eq_ok_iff.mpr hfield]
  simp only [hopen]

theorem codeProblems_of_closed (policy : Source.Policy)
    (h : ∀ source, ¬ SourceText script source) :
    ∃ p, p.subject = .code ∧ codeProblems script policy = [p] := by
  rw [codeProblems]
  rcases hcode : textMember script "code" with fault | payload
  · exact ⟨.code fault, rfl, rfl⟩
  · rcases hopen : openPayload payload with fault | source
    · exact ⟨.payload fault, rfl, by simp only [hopen]⟩
    · exact absurd ⟨payload, textMember_eq_ok_iff.mp hcode, hopen⟩ (h source)

theorem subject_of_mem_codeProblems (h : p ∈ codeProblems script policy) :
    (p.subject = .code ∧ ∀ source, ¬ SourceText script source) ∨ ∃ found, p = .violation found := by
  by_cases hsource : ∃ source, SourceText script source
  · obtain ⟨source, hsource⟩ := hsource
    rw [codeProblems_of_sourceText hsource] at h
    obtain ⟨found, -, rfl⟩ := List.mem_map.mp h
    exact .inr ⟨found, rfl⟩
  · have hclosed : ∀ source, ¬ SourceText script source := fun source h => hsource ⟨source, h⟩
    obtain ⟨p', hp', hproblems⟩ := codeProblems_of_closed policy hclosed
    rw [hproblems, List.mem_singleton] at h
    exact .inl ⟨h ▸ hp', hclosed⟩

/-- What it takes that a violation is reported of a script with the given source text. -/
def Breaks (script : Json.Value) (policy : Source.Policy) (source : String) : Violation → Prop
  | .forbiddenLibrary library => library ∈ policy.forbidden ∧
      usesLibrary (withoutComments source.toList) library = true
  | .missingLibrary library => library ∈ policy.required ∧
      importsStatically (withoutComments source.toList) library = false
  | .invalidClassName name => script.field? "className" = some (.string name) ∧
      isClassName name = false
  | .classNotFound name base => script.field? "className" = some (.string name) ∧
      isClassName name = true ∧ base = policy.baseClass ∧
      declares (withoutComments source.toList) name base = false

theorem classViolation?_eq_some_iff {text : List Char} {baseClass : String} :
    Source.classViolation? text name baseClass = some found ↔
      (isClassName name = false ∧ .invalidClassName name = found) ∨
      (isClassName name = true ∧ declares text name baseClass = false ∧
        .classNotFound name baseClass = found) := by
  rw [Source.classViolation?]
  cases isClassName name with
  | false => simp
  | true => cases declares text name baseClass <;> simp

/-- The libraries are looked at in any case, the class if it is named. -/
theorem mem_sourceViolations_iff :
    found ∈ sourceViolations source policy (textMember script "className").toOption ↔
      Breaks script policy source found := by
  have hclass : (found ∈ Source.libraryViolations (withoutComments source.toList)
        policy.forbidden policy.required ∨
      ∃ name, script.field? "className" = some (.string name) ∧
        Source.classViolation? (withoutComments source.toList) name policy.baseClass =
          some found) ↔ Breaks script policy source found := by
    simp only [Source.libraryViolations, classViolation?_eq_some_iff, List.mem_append,
      List.mem_map, List.mem_filter, Bool.not_eq_true']
    cases found with
    | forbiddenLibrary library => simp [Breaks]
    | missingLibrary library => simp [Breaks]
    | invalidClassName name => simp [Breaks]
    | classNotFound name base =>
      constructor
      · simp only [reduceCtorEq, and_false, exists_false, false_or, Violation.classNotFound.injEq]
        rintro ⟨name', hfield, hname, hdeclares, rfl, rfl⟩
        exact ⟨hfield, hname, rfl, hdeclares⟩
      · rintro ⟨hfield, hname, rfl, hdeclares⟩
        exact .inr ⟨name, hfield, .inr ⟨hname, hdeclares, rfl⟩⟩
  rw [← hclass]
  rcases hname : textMember script "className" with fault | name
  · simp [Except.toOption, sourceViolations, field?_ne_of_fault hname]
  · rw [textMember_eq_ok_iff] at hname
    simp [Except.toOption, sourceViolations, Source.violations, hname]

theorem violation_mem_iff : .violation found ∈ codeProblems script policy ↔
    ∃ source, SourceText script source ∧ Breaks script policy source found := by
  constructor
  · intro h
    by_cases hsource : ∃ source, SourceText script source
    · obtain ⟨source, hsource⟩ := hsource
      rw [codeProblems_of_sourceText hsource, List.mem_map] at h
      obtain ⟨found', hfound, ⟨⟩⟩ := h
      exact ⟨source, hsource, mem_sourceViolations_iff.mp hfound⟩
    · obtain ⟨p, hp, hproblems⟩ := codeProblems_of_closed policy
        fun source h => hsource ⟨source, h⟩
      rw [hproblems, List.mem_singleton] at h
      subst h
      cases found <;> cases hp
  · rintro ⟨source, hsource, hfound⟩
    rw [codeProblems_of_sourceText hsource]
    exact List.mem_map_of_mem (mem_sourceViolations_iff.mpr hfound)

/-! ### Reports -/

/-- The reasons that a verdict gives. -/
def reasonsOf : Except Objection Unit → List String
  | .ok () => []
  | .error objection => objection.reasons

/-- What is reported of the class name and the source text of a script. -/
structure Reported (script : Json.Value) (policy : Source.Policy) (reasons : List String) :
    Prop where
  className : (∃ reason ∈ reasons, Concerns .className reason) ↔
    (∀ name, script.field? "className" ≠ some (.string name)) ∨
      ∃ name source, script.field? "className" = some (.string name) ∧
        isClassName name = false ∧ SourceText script source
  code : (∃ reason ∈ reasons, Concerns .code reason) ↔ ∀ source, ¬ SourceText script source
  forbidden : ∀ library, (Violation.forbiddenLibrary library).message ∈ reasons ↔
    ∃ source, SourceText script source ∧ library ∈ policy.forbidden ∧
      usesLibrary (withoutComments source.toList) library = true
  missing : ∀ library, (Violation.missingLibrary library).message ∈ reasons ↔
    ∃ source, SourceText script source ∧ library ∈ policy.required ∧
      importsStatically (withoutComments source.toList) library = false
  declaration : ∀ name, script.field? "className" = some (.string name) →
    ((Violation.classNotFound name policy.baseClass).message ∈ reasons ↔
      isClassName name = true ∧ ∃ source, SourceText script source ∧
        declares (withoutComments source.toList) name policy.baseClass = false)

/-- The problems of the class name and of the source text are reported, whatever the others. -/
theorem reported_of_problems {problems others : List ScriptProblem}
    (hothers : ∀ p ∈ others, p.subject = .reducer ∨ p.subject = .key)
    (h : ∀ p, p ∈ problems ↔
      p ∈ classNameProblems script ∨ p ∈ codeProblems script policy ∨ p ∈ others) :
    Reported script policy (problems.map ScriptProblem.message) := by
  have hviolation : ∀ found, .violation found ∈ problems ↔
      ∃ source, SourceText script source ∧ Breaks script policy source found := by
    intro found
    rw [h, ← violation_mem_iff]
    constructor
    · rintro (hmem | hmem | hmem)
      · obtain ⟨fault, ⟨⟩⟩ := subject_of_mem_classNameProblems hmem
      · exact hmem
      · rcases hothers _ hmem with hs | hs <;> cases found <;> cases hs
    · exact fun hmem => .inr (.inl hmem)
  refine
    { className := ?_
      code := ?_
      forbidden := fun library => ?_
      missing := fun library => ?_
      declaration := fun name hfield => ?_ }
  · rw [exists_concerns_iff]
    constructor
    · rintro ⟨p, hp, hsubject⟩
      rcases (h p).mp hp with hmem | hmem | hmem
      · exact .inl (exists_classNameProblem_iff.mp ⟨p, hmem⟩)
      · right
        rcases subject_of_mem_codeProblems hmem with ⟨hcode, -⟩ | ⟨found, rfl⟩
        · cases hcode.symm.trans hsubject
        · cases found with
          | invalidClassName name =>
            obtain ⟨source, hsource, hfield, hname⟩ := violation_mem_iff.mp hmem
            exact ⟨name, source, hfield, hname, hsource⟩
          | _ => cases hsubject
      · rcases hothers p hmem with hs | hs <;> cases hs.symm.trans hsubject
    · rintro (hnone | ⟨name, source, hfield, hname, hsource⟩)
      · obtain ⟨p, hmem⟩ := exists_classNameProblem_iff.mpr hnone
        obtain ⟨fault, rfl⟩ := subject_of_mem_classNameProblems hmem
        exact ⟨_, (h _).mpr (.inl hmem), rfl⟩
      · exact ⟨.violation (.invalidClassName name),
          (hviolation _).mpr ⟨source, hsource, hfield, hname⟩, rfl⟩
  · rw [exists_concerns_iff]
    constructor
    · rintro ⟨p, hp, hsubject⟩
      rcases (h p).mp hp with hmem | hmem | hmem
      · obtain ⟨fault, rfl⟩ := subject_of_mem_classNameProblems hmem
        cases hsubject
      · rcases subject_of_mem_codeProblems hmem with ⟨-, hclosed⟩ | ⟨found, rfl⟩
        · exact hclosed
        · cases found <;> cases hsubject
      · rcases hothers p hmem with hs | hs <;> cases hs.symm.trans hsubject
    · intro hclosed
      obtain ⟨p, hsubject, hproblems⟩ := codeProblems_of_closed policy hclosed
      exact ⟨p, (h p).mpr (.inr (.inl (hproblems ▸ List.mem_singleton.mpr rfl))), hsubject⟩
  · refine (message_mem_iff (p := .violation (.forbiddenLibrary library))
      fun p _ hsubject hmessage => ?_).trans (hviolation _)
    exact forbiddenLibrary_of_message hsubject hmessage
  · refine (message_mem_iff (p := .violation (.missingLibrary library))
      fun p _ hsubject hmessage => ?_).trans (hviolation _)
    exact missingLibrary_of_message hsubject hmessage
  · -- among the problems there is but one class that was not found
    have hunique : ∀ p ∈ problems, p.subject = .declaration →
        p = .violation (.classNotFound name policy.baseClass) := by
      intro p hp hsubject
      cases p with
      | violation found =>
        cases found with
        | classNotFound name' base =>
          obtain ⟨source, -, hfield', -, rfl, -⟩ := (hviolation _).mp hp
          rw [hfield] at hfield'
          cases hfield'
          rfl
        | _ => cases hsubject
      | _ => cases hsubject
    refine (message_mem_iff (p := .violation (.classNotFound name policy.baseClass))
      fun p hp hsubject _ => hunique p hp hsubject).trans ?_
    rw [hviolation]
    constructor
    · rintro ⟨source, hsource, -, hname, -, hdeclares⟩
      exact ⟨hname, source, hsource, hdeclares⟩
    · rintro ⟨hname, source, hsource, hdeclares⟩
      exact ⟨source, hsource, hfield, hname, rfl, hdeclares⟩

/-- The class name and the source text of a script are as they should be. -/
def InOrder (script : Json.Value) (policy : Source.Policy) : Prop :=
  ∃ name source, script.field? "className" = some (.string name) ∧ isClassName name = true ∧
    SourceText script source ∧
    (∀ library ∈ policy.forbidden,
      usesLibrary (withoutComments source.toList) library = false) ∧
    (∀ library ∈ policy.required,
      importsStatically (withoutComments source.toList) library = true) ∧
    declares (withoutComments source.toList) name policy.baseClass = true

theorem inOrder_iff : InOrder script policy ↔
    classNameProblems script = [] ∧ codeProblems script policy = [] := by
  constructor
  · rintro ⟨name, source, hfield, hname, hsource, hforbidden, hrequired, hdeclares⟩
    refine ⟨List.eq_nil_iff_forall_not_mem.mpr fun p hp => ?_,
      List.eq_nil_iff_forall_not_mem.mpr fun p hp => ?_⟩
    · exact exists_classNameProblem_iff.mp ⟨p, hp⟩ name hfield
    · rcases subject_of_mem_codeProblems hp with ⟨-, hclosed⟩ | ⟨found, rfl⟩
      · exact hclosed source hsource
      · obtain ⟨source', hsource', hbreaks⟩ := violation_mem_iff.mp hp
        rw [hsource'.unique hsource] at hbreaks
        cases found with
        | forbiddenLibrary library =>
          rw [Breaks, hforbidden library hbreaks.1] at hbreaks
          cases hbreaks.2
        | missingLibrary library =>
          rw [Breaks, hrequired library hbreaks.1] at hbreaks
          cases hbreaks.2
        | invalidClassName name' =>
          obtain ⟨hfield', hname'⟩ := hbreaks
          rw [hfield] at hfield'
          cases hfield'
          rw [hname] at hname'
          cases hname'
        | classNotFound name' base =>
          obtain ⟨hfield', -, rfl, hdeclares'⟩ := hbreaks
          rw [hfield] at hfield'
          cases hfield'
          rw [hdeclares] at hdeclares'
          cases hdeclares'
  · rintro ⟨hclassName, hcode⟩
    have hfield : ∃ name, script.field? "className" = some (.string name) := by
      rcases Classical.em (∃ name, script.field? "className" = some (.string name)) with h | h
      · exact h
      · obtain ⟨p, hp⟩ := exists_classNameProblem_iff.mpr fun name hname => h ⟨name, hname⟩
        rw [hclassName] at hp
        cases hp
    have hsource : ∃ source, SourceText script source := by
      rcases Classical.em (∃ source, SourceText script source) with h | h
      · exact h
      · obtain ⟨p, -, hproblems⟩ := codeProblems_of_closed policy
          fun source hsource => h ⟨source, hsource⟩
        rw [hcode] at hproblems
        cases hproblems
    obtain ⟨name, hfield⟩ := hfield
    obtain ⟨source, hsource⟩ := hsource
    have hkept : ∀ found, ¬ Breaks script policy source found := by
      intro found hbreaks
      have hp : .violation found ∈ codeProblems script policy :=
        violation_mem_iff.mpr ⟨source, hsource, hbreaks⟩
      rw [hcode] at hp
      cases hp
    have hname : isClassName name = true :=
      Bool.not_eq_false _ |>.mp fun h => hkept (.invalidClassName name) ⟨hfield, h⟩
    refine ⟨name, source, hfield, hname, hsource, fun library hlibrary => ?_,
      fun library hlibrary => ?_, ?_⟩
    · exact Bool.not_eq_true _ |>.mp fun h => hkept (.forbiddenLibrary library) ⟨hlibrary, h⟩
    · exact Bool.not_eq_false _ |>.mp fun h => hkept (.missingLibrary library) ⟨hlibrary, h⟩
    · exact Bool.not_eq_false _ |>.mp fun h =>
        hkept (.classNotFound name policy.baseClass) ⟨hfield, hname, rfl, h⟩

/-! ### The reducer and the key -/

theorem reducerProblems_eq_nil_iff : reducerProblems script = [] ↔
    ∃ reducer : Reducer, script.field? "reducer" = some (.string reducer.render) := by
  constructor
  · exact reducer_of_problems
  · rintro ⟨reducer, hfield⟩
    rw [reducerProblems, hfield]
    cases reducer with
    | count => rfl
    | sum => rfl

theorem subject_of_mem_reducerProblems (h : p ∈ reducerProblems script) : p.subject = .reducer := by
  rw [reducerProblems] at h
  split at h
  · rw [List.mem_singleton.mp h]
    rfl
  · split at h
    · cases h
    · rw [List.mem_singleton.mp h]
      rfl
  · rw [List.mem_singleton.mp h]
    rfl

theorem keyProblems_eq_nil_iff {key : AccessKey} : keyProblems script key = [] ↔
    script.field? "key" = some (.string key.secret) := by
  constructor
  · exact fun h => textMember_eq_ok_iff.mp (key_of_problems h)
  · intro h
    simp only [keyProblems, textMember_eq_ok_iff.mpr h, AccessKey.opens, beq_self_eq_true, if_true]

theorem subject_of_mem_keyProblems {key : AccessKey} (h : p ∈ keyProblems script key) :
    p.subject = .key := by
  rw [keyProblems] at h
  split at h
  · split at h
    · cases h
    · rw [List.mem_singleton.mp h]
      rfl
  · rw [List.mem_singleton.mp h]
    rfl

/-- The problems of the reducer and the key are not mixed up with those of the source text. -/
theorem exists_concerns_others_iff {problems others : List ScriptProblem} {s : Subject}
    (hs : s = .reducer ∨ s = .key) (hothers : ∀ p ∈ others, p.subject = s)
    (h : ∀ p, p ∈ problems ↔
      p ∈ classNameProblems script ∨ p ∈ codeProblems script policy ∨ p ∈ others) :
    (∃ reason ∈ problems.map ScriptProblem.message, Concerns s reason) ↔ others ≠ [] := by
  rw [exists_concerns_iff]
  constructor
  · rintro ⟨p, hp, hsubject⟩ hnil
    rcases (h p).mp hp with hmem | hmem | hmem
    · obtain ⟨fault, rfl⟩ := subject_of_mem_classNameProblems hmem
      rcases hs with rfl | rfl <;> cases hsubject
    · rcases subject_of_mem_codeProblems hmem with ⟨hcode, -⟩ | ⟨found, rfl⟩
      · rcases hs with rfl | rfl <;> cases hcode.symm.trans hsubject
      · rcases hs with rfl | rfl <;> cases found <;> cases hsubject
    · rw [hnil] at hmem
      cases hmem
  · intro hne
    obtain ⟨p, hp⟩ := List.exists_mem_of_ne_nil others hne
    exact ⟨p, (h p).mpr (.inr (.inr hp)), hothers p hp⟩

theorem mem_mainProblems_iff : p ∈ mainProblems script policy ↔
    p ∈ classNameProblems script ∨ p ∈ codeProblems script policy ∨ p ∈ reducerProblems script := by
  rw [mainProblems, List.mem_append, List.mem_append, or_assoc]

theorem mem_privacyProblems_iff {key : AccessKey} : p ∈ privacyProblems script policy key ↔
    p ∈ classNameProblems script ∨ p ∈ codeProblems script policy ∨ p ∈ keyProblems script key := by
  rw [privacyProblems, List.mem_append, List.mem_append, or_assoc]
  exact or_comm.trans or_assoc

theorem mainProblems_eq_nil_iff : mainProblems script policy = [] ↔
    InOrder script policy ∧
      ∃ reducer : Reducer, script.field? "reducer" = some (.string reducer.render) := by
  rw [mainProblems, List.append_eq_nil_iff, List.append_eq_nil_iff, inOrder_iff,
    reducerProblems_eq_nil_iff]

theorem privacyProblems_eq_nil_iff {key : AccessKey} : privacyProblems script policy key = [] ↔
    InOrder script policy ∧ script.field? "key" = some (.string key.secret) := by
  rw [privacyProblems, List.append_eq_nil_iff, List.append_eq_nil_iff, inOrder_iff,
    keyProblems_eq_nil_iff, and_assoc, and_comm]

/-! ### Verdicts -/

theorem reasonsOf_acceptUnless (reasons : List String) :
    reasonsOf (acceptUnless reasons) = reasons := by
  cases reasons with
  | nil => rfl
  | cons reason reasons => rfl

theorem reasonsOf_judgeScript (field : String) (problems : Json.Value → List ScriptProblem)
    (members : List (String × Json.Value)) :
    reasonsOf (judgeScript field problems (.object members)) =
      (problems (.object members)).map ScriptProblem.message :=
  reasonsOf_acceptUnless _

theorem judgeScript_object_eq_ok_iff {field : String} {problems : Json.Value → List ScriptProblem}
    {members : List (String × Json.Value)} :
    judgeScript field problems (.object members) = .ok () ↔ problems (.object members) = [] := by
  rw [judgeScript_eq_ok_iff]
  constructor
  · rintro ⟨_, -, hnone⟩
    exact hnone
  · exact fun hnone => ⟨members, rfl, hnone⟩

/-- **Every problem of a script is reported, with one exception: that a class name is ill formed is
not, if the payload cannot be opened.**  The script is accepted if there is no problem. -/
theorem scripts_reported (policy : Source.Policy) (key : AccessKey)
    (members : List (String × Json.Value)) :
    Reported (.object members) policy (reasonsOf (judgeMain policy (some (.object members)))) ∧
    ((∃ reason ∈ reasonsOf (judgeMain policy (some (.object members))),
        Concerns .reducer reason) ↔
      ¬ ∃ reducer : Reducer,
        (Json.Value.object members).field? "reducer" = some (.string reducer.render)) ∧
    (judgeMain policy (some (.object members)) = .ok () ↔ InOrder (.object members) policy ∧
      ∃ reducer : Reducer,
        (Json.Value.object members).field? "reducer" = some (.string reducer.render)) ∧
    Reported (.object members) policy
      (reasonsOf (judgePrivacy policy key (some (.object members)))) ∧
    ((∃ reason ∈ reasonsOf (judgePrivacy policy key (some (.object members))),
        Concerns .key reason) ↔
      (Json.Value.object members).field? "key" ≠ some (.string key.secret)) ∧
    (judgePrivacy policy key (some (.object members)) = .ok () ↔
      InOrder (.object members) policy ∧
        (Json.Value.object members).field? "key" = some (.string key.secret)) := by
  rw [judgeMain, judgePrivacy, reasonsOf_judgeScript, reasonsOf_judgeScript,
    judgeScript_object_eq_ok_iff, judgeScript_object_eq_ok_iff]
  refine ⟨?_, ?_, mainProblems_eq_nil_iff, ?_, ?_, privacyProblems_eq_nil_iff⟩
  · exact reported_of_problems (fun p hp => .inl (subject_of_mem_reducerProblems hp))
      fun p => mem_mainProblems_iff
  · rw [exists_concerns_others_iff (.inl rfl) (fun p hp => subject_of_mem_reducerProblems hp)
      fun p => mem_mainProblems_iff, ne_eq, reducerProblems_eq_nil_iff]
  · exact reported_of_problems (fun p hp => .inr (subject_of_mem_keyProblems hp))
      fun p => mem_privacyProblems_iff
  · rw [exists_concerns_others_iff (.inr rfl) (fun p hp => subject_of_mem_keyProblems hp)
      fun p => mem_privacyProblems_iff, ne_eq, keyProblems_eq_nil_iff]

/-- Of a script with an ill-formed class name and a payload that cannot be opened only the payload
is reported. -/
theorem judgeMain_illFormedName :
    let script : Json.Value := .object [("className", .string "a-b"), ("code", .string "%%%"),
      ("reducer", .string "SUM")]
    ¬ ((∃ reason ∈ reasonsOf (judgeMain .main (some script)), Concerns .className reason) ↔
      (∀ name, script.field? "className" ≠ some (.string name)) ∨
        ∃ name, script.field? "className" = some (.string name) ∧ isClassName name = false) := by
  intro script h
  have hproblems : ∃ fault, mainProblems script .main = [.payload fault] := ⟨_, rfl⟩
  obtain ⟨fault, hproblems⟩ := hproblems
  have hreported := h.mpr (.inr ⟨"a-b", rfl, by decide⟩)
  rw [judgeMain, reasonsOf_judgeScript, hproblems] at hreported
  obtain ⟨p, hp, hsubject⟩ := exists_concerns_iff.mp hreported
  rw [List.mem_singleton.mp hp] at hsubject
  cases hsubject

end ScriptRegistry.Validation
