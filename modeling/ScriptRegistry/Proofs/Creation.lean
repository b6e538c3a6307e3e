/-
ScriptRegistry/Proofs/Creation.lean

What a body to create an algorithm comes to once the rules have let it pass.

The rules ask of a name that it is a slug and that nothing is stored under it
(`accepts_create_iff`); how long it is they do not ask.  The store makes a
directory of the name, and a directory holds 255 bytes, which are as many
characters of a slug.  So an accepted body becomes the first version of its name
and is read back as such, or its name has more than 255 characters and nothing
is stored.

Main result: `Service.accepted_create_stored`.
-/
import ScriptRegistry.Proofs.Answering
import ScriptRegistry.Proofs.Correspondence

namespace ScriptRegistry.Store

variable {b : Backend} {l : Ledger} {d : Draft}

/-! ### What the store makes of a draft -/

/-- A slug is too long to be a directory if it has too many characters. -/
theorem isTooLong_name (name : AlgorithmName) :
    isTooLong name.text.toList = decide (nameLimit < name.text.length) := by
  rw [isTooLong, byteLength_of_isKeyChar fun c hc => isKeyChar_of_mem_name hc, String.length_toList]

/-- The draft of a free name that can be a directory becomes its first version. -/
theorem Backend.Models.run_create_short (h : b.Models l) (hfree : l.latest? d.name = none)
    (hshort : d.name.text.length ≤ nameLimit) :
    ∃ r b', b.run (Store.create d).run = (.ok r, b') ∧ Shows r .first ⟨d, b.now⟩ ∧
      b'.Models (l.set d.name ((.first, ⟨d, b.now⟩) :: l d.name)) := by
  have hresult : (l.change b.now (.create d)).1 = .ok (.first, ⟨d, b.now⟩) := by
    rw [Ledger.change_create hfree, isTooLong_name, decide_eq_false (Nat.not_lt.mpr hshort)]
    rfl
  obtain ⟨-, -, hledger⟩ := Ledger.change_ok rfl hresult
  obtain ⟨hshows, hmodels, -⟩ := h.create d
  rw [hresult] at hshows
  rw [hledger] at hmodels
  rcases hrun : b.run (Store.create d).run with ⟨result, b'⟩
  rw [hrun] at hshows hmodels
  cases hshows with
  | ok hr => exact ⟨_, b', rfl, hr, hmodels⟩

/-- The draft of a free name that is too long to be a directory is not stored. -/
theorem Backend.Models.run_create_long (h : b.Models l) (hfree : l.latest? d.name = none)
    (hlong : nameLimit < d.name.text.length) :
    ∃ b', b.run (Store.create d).run = (.error (.file .nameTooLong), b') ∧ b'.records = b.records ∧
      b'.files.files.Perm b.files.files := by
  have hresult : (l.change b.now (.create d)).1 = .error (.file .nameTooLong) := by
    rw [Ledger.change_create hfree, isTooLong_name, decide_eq_true hlong]
    rfl
  have hshows := (h.create d).shows
  rw [hresult] at hshows
  rcases hrun : b.run (Store.create d).run with ⟨result, b'⟩
  rw [hrun] at hshows
  cases hshows with
  | error =>
    have hfault : (b.run (Errand.create d).program).1 = .error (.file .nameTooLong) :=
      congrArg Prod.fst hrun
    obtain ⟨hmodels, hrecords⟩ := h.change_error hfault
    have hafter : (b.run (Errand.create d).program).2 = b' := congrArg Prod.snd hrun
    rw [hafter] at hmodels hrecords
    exact ⟨b', rfl, hrecords, h.files_perm hmodels hrecords⟩

end ScriptRegistry.Store

namespace ScriptRegistry.Web

open Store (Backend Entry Ledger Program Shows nameLimit)
open Validation

variable {b : Backend} {l : Ledger}

/-! ### What the rules let pass -/

/-- A body to create or to update is accepted if it has no faults. -/
theorem accepts_carrying_iff (b : Backend) (settings : Settings) {action : Action}
    (haction : action ∈ [Action.create, .update]) (body : Json.Value) :
    (Service.ofSettings settings).Accepts b (.carrying action body)
      ↔ faults settings.standards b.records.latest? action body = [] := by
  obtain ⟨found, hrun, hmap, -⟩ := run_judge b settings.standards haction body
  show (b.run (judge (algorithmRules settings.standards) (.carrying action body))).1 = .ok () ↔ _
  rw [hrun, ← hmap, List.map_eq_nil_iff]
  cases found with
  | nil => exact iff_of_true rfl rfl
  | cons o os => exact iff_of_false (fun heq => by cases heq) (List.cons_ne_nil o os)

/-- A body to create is accepted if its name is a slug that is free, and its other fields are
in order. -/
theorem accepts_create_iff (b : Backend) (settings : Settings) (body : Json.Value) :
    (Service.ofSettings settings).Accepts b (.carrying .create body)
      ↔ (∃ name, givenName? body = some name ∧ b.records.latest? name = none) ∧
        faultyFields settings.standards body = [] := by
  rw [accepts_carrying_iff b settings List.mem_cons_self, faults_eq_nil_iff,
    nameFault?_create_eq_none_iff]

/-- A name under which something is stored may be asked for. -/
theorem finds_addressed {name : AlgorithmName} {v : Version}
    (hlatest : b.records.latest? name = some v) :
    Finds b (.addressing .retrieve name.text) nameRule none := by
  have hcheck : nameRule.checks (Request.addressing .retrieve name.text).action
      = some fun request => (requireAddressed request).run := rfl
  apply finds_of_check hcheck .passes
  show Program.run Backend.answer (requireStored name.text).run b = (.ok (), b)
  rw [requireStored, ofString_eq_ok_iff.mpr rfl, Program.run_bind_ok (run_isStored b name), hlatest]
  rfl

/-- The rules let a stored name be asked for. -/
theorem run_judge_stored (settings : Settings) {name : AlgorithmName} {v : Version}
    (hlatest : b.records.latest? name = some v) :
    Program.run Backend.answer
        ((Service.ofSettings settings).judge (.addressing .retrieve name.text)).run b
      = (.ok (), b) := by
  have hfinds : ∀ row ∈ [(nameRule, (none : Option Severity))],
      Finds b (.addressing .retrieve name.text) row.1 row.2 := by
    intro row hrow
    obtain rfl := List.mem_singleton.mp hrow
    exact finds_addressed hlatest
  obtain ⟨found, hrun, hmap, -⟩ := run_objections hfinds
  obtain rfl : found = [] := List.map_eq_nil_iff.mp hmap
  -- no other rule looks at an address
  have hobjections : Program.run Backend.answer (objections (.addressing .retrieve name.text)
      (covering (Service.ofSettings settings).rules
        (Request.addressing .retrieve name.text).action)) b = ([], b) := hrun
  show Program.run Backend.answer (judge (Service.ofSettings settings).rules
    (.addressing .retrieve name.text) >>= fun r => .done (r.mapError Failure.refused)) b = _
  rw [Program.run_bind, judge, Program.run_bind, hobjections]
  rfl

/-- What is stored under a name is read back as it was stored. -/
theorem attend_retrieve_stored (h : b.Models l) (settings : Settings) (now : Time.Moment)
    {name : AlgorithmName} {v : Version} {e : Entry} (hlatest : l.latest? name = some v)
    (he : l.find? name v = some e) :
    ((Service.ofSettings settings).attend b now (.retrieve name.text none)).1
      = .retrieved (.ok (e.retrieved v)) := by
  have hnow := h.at now
  have hstored : ({ b with now := now } : Backend).records.latest? name = some v := by
    rw [hnow.latest, hlatest]
  have hlocate : Program.run Backend.answer
      ((Service.ofSettings settings).locate .retrieve name.text none).run { b with now := now }
        = (.ok (name, none), { b with now := now }) := by
    rw [Service.locate, Program.run_bind_ok (run_judge_stored settings hstored),
      ofString_eq_ok_iff.mpr rfl]
    rfl
  have hseek : l.seek name none = .ok (v, e) := by
    simp only [Ledger.seek, hlatest, Option.bind_some, he, Option.map_some]
  have hrun : runAt b now ((Service.ofSettings settings).retrieve name.text none)
      = (.ok (e.retrieved v), { b with now := now }) := by
    refine (Program.run_bind_ok hlocate _).trans ?_
    have hread := hnow.run_retrieve name none
    rw [hseek] at hread
    exact run_perform hread
  rw [Service.attend, hrun]
  rfl

/-! ### From the body to the store and back -/

/-- An accepted body gets to the store as a draft that repeats it, under a name that is free. -/
theorem attend_create_accepted (h : b.Models l) (settings : Settings) (now : Time.Moment)
    (body : Json.Document)
    (haccepts : (Service.ofSettings settings).Accepts { b with now := now }
      (.carrying .create body.value)) :
    ∃ d : Draft, d.Repeats settings.standards body.value ∧ l.latest? d.name = none ∧
      ∀ result b', ({ b with now := now } : Backend).run (Store.create d).run = (result, b') →
        (Service.ofSettings settings).attend b now (.create body)
          = (.record (result.mapError .store), b') := by
  have hfaults := (accepts_carrying_iff _ settings List.mem_cons_self body.value).mp haccepts
  obtain ⟨d, hrepeats, hrun⟩ :=
    run_submit_granted _ settings List.mem_cons_self body Store.create hfaults
  refine ⟨d, hrepeats, ?_, fun result b' hcreate => ?_⟩
  · obtain ⟨name, hname, hfree⟩ :=
      nameFault?_create_eq_none_iff.mp (faults_eq_nil_iff.mp hfaults).1
    rw [givenName?_eq_some_iff.mpr hrepeats.name] at hname
    cases hname
    rw [← h.latest]
    exact hfree
  · have hattend : runAt b now ((Service.ofSettings settings).create body.value)
        = (result.mapError .store, b') := hrun.trans (run_perform hcreate)
    rw [Service.attend, hattend]
    rfl

/-- What an accepted body to create comes to: a first version that is read back with the
texts of the body, or an error for a name that is too long to be a directory. -/
structure Created (s : Service) (b : Backend) (now : Time.Moment) (body : Json.Document)
    (d : Draft) : Prop where
  free : b.records.latest? d.name = none
  stored : d.name.text.length ≤ nameLimit → ∃ r b',
    s.attend b now (.create body) = (.record (.ok r), b') ∧ Shows r .first ⟨d, now⟩ ∧
      ∀ later, (s.attend b' later (.retrieve d.name.text none)).1
        = .retrieved (.ok (Entry.retrieved ⟨d, now⟩ .first))
  tooLong : nameLimit < d.name.text.length → ∃ b',
    s.attend b now (.create body) = (.record (.error (.store (.file .nameTooLong))), b') ∧
      b'.records = b.records ∧ b'.files.files.Perm b.files.files

theorem created_of_accepts (h : b.Models l) (settings : Settings) (now : Time.Moment)
    (body : Json.Document)
    (haccepts : (Service.ofSettings settings).Accepts { b with now := now }
      (.carrying .create body.value)) :
    ∃ d : Draft, d.Repeats settings.standards body.value ∧
      Created (Service.ofSettings settings) b now body d := by
  obtain ⟨d, hrepeats, hfree, hattend⟩ := attend_create_accepted h settings now body haccepts
  have hnow := h.at now
  refine ⟨d, hrepeats, ?_, fun hshort => ?_, fun hlong => ?_⟩
  · rw [h.latest, hfree]
  · obtain ⟨r, b', hrun, hshows, hmodels⟩ := hnow.run_create_short hfree hshort
    refine ⟨r, b', hattend _ _ hrun, hshows, fun later => ?_⟩
    -- the new entry is the only one of its name
    have hfind : ∀ v, (l.set d.name ((.first, ⟨d, now⟩) :: l d.name)).find? d.name v
        = if v = .first then some ⟨d, now⟩ else none := by
      intro v
      rw [Ledger.find?_set_cons, Ledger.latest?_eq_none_iff.mp hfree v]
      simp only [true_and]
    have hfirst := hfind .first
    rw [if_pos rfl] at hfirst
    refine attend_retrieve_stored hmodels settings later
      (Ledger.latest?_eq_some_iff.mpr ⟨by rw [hfirst]; rfl, fun w hw => ?_⟩) hfirst
    by_cases hw' : w = .first
    · rw [hw']
      exact Nat.le_refl _
    · rw [hfind, if_neg hw'] at hw
      cases hw
  · obtain ⟨b', hrun, hrecords, hfiles⟩ := hnow.run_create_long hfree hlong
    exact ⟨b', hattend _ _ hrun, hrecords, hfiles⟩

/-- **After every session on a fresh backend an accepted body to create becomes the first
version of its name and is read back with its texts, unless the name has more than 255
characters**, and then nothing is stored.  The rules let names of any length pass. -/
theorem Service.accepted_create_stored (settings : Settings) (tokens : Nat → Artifact.Token)
    (start : Time.Moment) (root : Store.Root) (commands : List (Time.Moment × Command))
    (now : Time.Moment) (body : Json.Document) :
    let s := Service.ofSettings settings
    let b := (s.session (.fresh tokens start root) commands).2
    (s.Accepts { b with now := now } (.carrying .create body.value) ↔
      (∃ name, givenName? body.value = some name ∧ b.records.latest? name = none) ∧
        faultyFields settings.standards body.value = []) ∧
    (s.Accepts { b with now := now } (.carrying .create body.value) →
      ∃ d : Draft, d.Repeats settings.standards body.value ∧ Created s b now body d) := by
  intro s b
  obtain ⟨l, hvouching⟩ := (Vouching.fresh settings tokens start root).session commands
  have h : b.Models l := hvouching.models
  exact ⟨accepts_create_iff _ settings body.value, created_of_accepts h settings now body⟩

/-- What is left when the small script was added and removed. -/
def meanRemoved : Backend :=
  ((Service.ofSettings plainSettings).session (.fresh Artifact.Token.ofNat .epoch)
    [(.epoch, .create meanBody), (.epoch, .delete "mean" none)]).2

/-- The small script is accepted again once it was removed. -/
theorem Service.accepted_create_stored_again :
    (Service.ofSettings plainSettings).Accepts { meanRemoved with now := .epoch }
        (.carrying .create meanBody.value) ∧
      ∃ d : Draft, d.Repeats plainSettings.standards meanBody.value ∧
        Created (Service.ofSettings plainSettings) meanRemoved .epoch meanBody d := by
  have haccepts : (Service.ofSettings plainSettings).Accepts { meanRemoved with now := .epoch }
      (.carrying .create meanBody.value) := by
    decide +kernel
  obtain ⟨-, hcreated⟩ := Service.accepted_create_stored plainSettings Artifact.Token.ofNat .epoch
    .here [(.epoch, .create meanBody), (.epoch, .delete "mean" none)] .epoch meanBody
  exact ⟨haccepts, hcreated haccepts⟩

/-- A body with the small script under another name. -/
def namedBody (name : AlgorithmName) : Json.Document where
  value := .object [(nameField, .string name.text), (descriptionField, .string "A mean."),
    (mainField, .object [
      ("code", .string "Y2xhc3MgTWVhbihPUEFMQWxnb3JpdGhtKToKICAgIHBhc3M="),
      ("className", .string "Mean"), ("reducer", .string "SUM")])]
  proper := by
    refine .object _ (show [nameField, descriptionField, mainField].Nodup by decide) fun m hm => ?_
    simp only [List.mem_cons, List.not_mem_nil, or_false] at hm
    rcases hm with rfl | rfl | rfl
    · exact .string _
    · exact .string _
    · refine .object _ (by decide) fun m hm => ?_
      simp only [List.mem_cons, List.not_mem_nil, or_false] at hm
      rcases hm with rfl | rfl | rfl <;> exact .string _

theorem field?_namedBody (name : AlgorithmName) :
    (namedBody name).value.field? nameField = some (.string name.text) := rfl

theorem faultyFields_namedBody (name : AlgorithmName) :
    faultyFields plainSettings.standards (namedBody name).value = [] := by
  show faultyFields plainSettings.standards (namedBody ⟨"mean", by decide⟩).value = []
  decide +kernel

theorem isSlug_longText : isSlug (String.ofList (List.replicate 256 'a')) = true := by
  rw [isSlug, String.toList_ofList]
  decide +kernel

/-- A slug of 256 characters. -/
def longName : AlgorithmName :=
  ⟨String.ofList (List.replicate 256 'a'), isSlug_longText⟩

theorem length_longName : longName.text.length = 256 := by
  show (String.ofList (List.replicate 256 'a')).length = 256
  rw [String.length_ofList]
  exact List.length_replicate

/-- A name of 256 characters is accepted, but nothing can be stored under it. -/
theorem Service.accepted_create_fails :
    let s := Service.ofSettings plainSettings
    let b := Backend.fresh Artifact.Token.ofNat .epoch
    s.Accepts b (.carrying .create (namedBody longName).value) ∧
      ∃ b', s.attend b .epoch (.create (namedBody longName))
        = (.record (.error (.store (.file .nameTooLong))), b') ∧ b'.records = b.records := by
  intro s b
  have hfree : ∀ name, b.records.latest? name = none := fun _ => rfl
  have hgiven : givenName? (namedBody longName).value = some longName := by
    rw [givenName?_eq_some_iff]
    exact field?_namedBody longName
  have haccepts : s.Accepts b (.carrying .create (namedBody longName).value) := by
    rw [accepts_create_iff]
    exact ⟨⟨longName, hgiven, hfree longName⟩, faultyFields_namedBody longName⟩
  obtain ⟨d, hrepeats, hcreated⟩ := created_of_accepts
    (Store.Backend.models_fresh Artifact.Token.ofNat .epoch .here) plainSettings .epoch
    (namedBody longName) haccepts
  have hname := hrepeats.name
  rw [field?_namedBody, Option.some.injEq, Json.Value.string.injEq] at hname
  have hlong : nameLimit < d.name.text.length := by
    rw [← hname, length_longName]
    exact Nat.lt_succ_self nameLimit
  obtain ⟨b', hattend, hrecords, -⟩ := hcreated.tooLong hlong
  exact ⟨haccepts, b', hattend, hrecords⟩

end ScriptRegistry.Web
