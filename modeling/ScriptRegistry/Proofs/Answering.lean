/-
ScriptRegistry/Proofs/Answering.lean

How requests to add and to update an algorithm are answered.

The status is told from the body and from what is stored (`addStatus` and
`updateStatus`): what is wrong with a field comes before a name that is taken or
missing, and this before what the store has against a name or a number.  A
refusal names the fields that are not in order, and no others.

Any requests may have come before.  Each of them leaves a backend that models a
ledger, and no name in it is too long to be a directory (`Kept`); this is why an
update of a stored name can fail only at the end of the numbers.

Main result: `Service.submissions_decided`.
-/
import ScriptRegistry.Proofs.Reading
import ScriptRegistry.Proofs.Session
import ScriptRegistry.Web.Server

namespace ScriptRegistry.Web

open Store (Backend Ledger Operation Program)
open Validation

/-! ### What decides -/

/-- The status for a body to add. -/
def addStatus (standards : Standards) (latest : AlgorithmName → Option Version)
    (body : Json.Value) : Nat :=
  match givenName? body with
  | none => 400
  | some name =>
    if faultyFields standards body ≠ [] then 400
    else if (latest name).isSome then 409
    else if Store.isTooLong name.text.toList then 500
    else 201

/-- The status for a body to update. -/
def updateStatus (standards : Standards) (latest : AlgorithmName → Option Version)
    (body : Json.Value) : Nat :=
  match givenText? body with
  | none => 400
  | some _ =>
    if faultyFields standards body ≠ [] then 400
    else match (givenName? body).bind latest with
      | none => 404
      | some v => if v.number + 1 < versionBound then 200 else 500

/-- The response tells of these fields, in this order, each with some reason. -/
def Response.TellsOf (r : Response) (fields : List String) : Prop :=
  ∃ (value : Json.Value) (told : List (String × List String)), r.body = .json value ∧
    value.get? "failures" = some (.array (told.flatMap fun (field, reasons) =>
      reasons.map fun reason =>
        .ofMembers [("field", .string field), ("reason", .string reason)])) ∧
    told.map (·.1) = fields ∧ ∀ entry ∈ told, entry.2 ≠ []

/-- The response has the status, and tells of the fields if there are any. -/
structure Response.Meets (r : Response) (status : Nat) (failing : List String) : Prop where
  status : r.status = status
  failing : failing ≠ [] → r.TellsOf failing

/-- The response to bytes that were sent: bytes that are no value make a bad request, and a
value decides on the status and on the fields that fail. -/
structure Decided (status : Json.Value → Nat) (failing : Json.Value → List String)
    (bytes : List UInt8) (r : Response) : Prop where
  unread : ∀ fault, Json.Value.ofBytes bytes = .error fault → r.status = 400
  read : ∀ body, Json.Value.ofBytes bytes = .ok body → r.Meets (status body) (failing body)

/-! ### Responses -/

variable {α : Type} {b : Backend}

/-- The response to a result. -/
def Response.ofResult (success : Nat) (toJson : α → Json.Value) : Except Failure α → Response
  | .ok item => .json success (.ofMembers [("ok", .bool true), ("item", toJson item)])
  | .error e => .json e.status e.toJson

theorem run_respond (b : Backend) (success : Nat) (toJson : α → Json.Value) (job : Job α) :
    b.run (respond success toJson job)
      = (.ofResult success toJson (b.run job.run).1, (b.run job.run).2) := by
  rw [Backend.run, respond, Program.run_bind, Backend.run]
  rcases Program.run Backend.answer job.run b with ⟨e | item, b'⟩
  · rfl
  · rfl

/-- A refusal tells of the fields that it has objections to. -/
theorem tellsOf_refused (success : Nat) (toJson : α → Json.Value) {refusal : Refusal}
    (h : ∀ o ∈ refusal.objections, o.reasons ≠ []) :
    (Response.ofResult success toJson (.error (.refused refusal))).TellsOf
      (refusal.objections.map (·.field)) := by
  refine ⟨_, refusal.objections.map fun o => (o.field, o.reasons), rfl, ?_, ?_, ?_⟩
  · show (Failure.refused refusal).toJson.get? "failures" = _
    rw [Failure.toJson, Json.Value.get?_ofMembers, Failure.entries, List.map_flatMap,
      List.flatMap_map]
    simp only [List.map_map]
    rfl
  · rw [List.map_map]
    rfl
  · intro entry hentry
    obtain ⟨o, ho, rfl⟩ := List.mem_map.mp hentry
    exact h o ho

theorem Decided.withHeaders {status : Json.Value → Nat} {failing : Json.Value → List String}
    {bytes : List UInt8} {r : Response} (h : Decided status failing bytes r)
    (headers : List (String × String)) : Decided status failing bytes (r.withHeaders headers) :=
  ⟨h.unread, fun body hbody => ⟨(h.read body hbody).status, (h.read body hbody).failing⟩⟩

/-! ### Refusals -/

variable {standards : Standards} {latest : AlgorithmName → Option Version} {body : Json.Value}

/-- A body to add that has faults is answered as one. -/
theorem addStatus_of_faults (h : faults standards latest .create body ≠ []) :
    Failure.statusOf (worstFault standards latest .create body)
      = addStatus standards latest body := by
  rw [addStatus, worstFault, nameFault?]
  cases hname : givenName? body with
  | none => simp [Failure.statusOf]
  | some name =>
    by_cases hfields : faultyFields standards body = []
    · cases hlatest : latest name with
      | none =>
        have hfault : nameFault? latest body .create = none :=
          nameFault?_create_eq_none_iff.mpr ⟨name, hname, hlatest⟩
        exact absurd (faults_eq_nil_iff.mpr ⟨hfault, hfields⟩) h
      | some v => simp [hfields, hlatest, Failure.statusOf]
    · simp [hfields, Failure.statusOf]

/-- A body to update that has faults is answered as one. -/
theorem updateStatus_of_faults (h : faults standards latest .update body ≠ []) :
    Failure.statusOf (worstFault standards latest .update body)
      = updateStatus standards latest body := by
  rw [updateStatus, worstFault, nameFault?]
  cases htext : givenText? body with
  | none => simp [Failure.statusOf]
  | some text =>
    by_cases hfields : faultyFields standards body = []
    · cases hlatest : (givenName? body).bind latest with
      | none => simp [hfields, Failure.statusOf]
      | some v =>
        obtain ⟨name, hname, hv⟩ := Option.bind_eq_some_iff.mp hlatest
        have hfault : nameFault? latest body .update = none :=
          nameFault?_update_eq_none_iff.mpr ⟨name, v, hname, hv⟩
        exact absurd (faults_eq_nil_iff.mpr ⟨hfault, hfields⟩) h
    · simp [hfields, Failure.statusOf]

/-! ### What the store comes to -/

/-- The backend models a ledger, in which every name can be a directory. -/
def Kept (b : Backend) : Prop :=
  ∃ l : Ledger, b.Models l ∧ l.Short

theorem Kept.at (h : Kept b) (now : Time.Moment) : Kept { b with now := now } := by
  obtain ⟨l, hmodels, hshort⟩ := h
  exact ⟨l, hmodels.at now, hshort⟩

/-- A submission is answered by its faults, and without any by what the store comes to. -/
theorem meets_submit (b : Backend) (settings : Settings) {action : Action}
    (haction : action ∈ [Action.create, .update]) (body : Json.Document)
    (operation : Draft → Operation Record) {success status : Nat}
    (hrefused : faults settings.standards b.records.latest? action body.value ≠ [] →
      Failure.statusOf (worstFault settings.standards b.records.latest? action body.value)
        = status)
    (hgranted : faults settings.standards b.records.latest? action body.value = [] →
      ∀ d : Draft, givenName? body.value = some d.name →
        (Response.ofResult success Record.toJson
          ((b.run (operation d).run).1.mapError .store)).status = status) :
    (Response.ofResult success Record.toJson
      (b.run ((Service.ofSettings settings).submit action operation body.value).run).1).Meets status
        ((faults settings.standards b.records.latest? action body.value).map (·.1)) := by
  by_cases hfaults : faults settings.standards b.records.latest? action body.value = []
  · obtain ⟨d, hrepeats, hrun⟩ := run_submit_granted b settings haction body operation hfaults
    rw [hrun, run_perform rfl, hfaults]
    refine ⟨hgranted hfaults d (givenName?_eq_some_iff.mpr hrepeats.name), fun hne => ?_⟩
    exact absurd rfl hne
  · obtain ⟨refusal, hrun, hmap, hreasons⟩ :=
      run_submit_refused b settings haction body.value operation hfaults
    rw [hrun]
    constructor
    · rw [← hrefused hfaults, ← severity_eq_worstFault hmap]
      rfl
    · rw [← hmap, List.map_map]
      exact fun _ => tellsOf_refused success Record.toJson hreasons

/-- The status for what the store comes to. -/
def storeStatus (success : Nat) : Except StoreError α → Nat
  | .ok _ => success
  | .error e => (Failure.store e).status

theorem status_of_shows {success : Nat} {result : Except StoreError Record}
    {outcome : Except StoreError (Version × Store.Entry)} (h : Store.ShowsResult result outcome) :
    (Response.ofResult success Record.toJson (result.mapError .store)).status
      = storeStatus success outcome := by
  cases h with
  | ok h => rfl
  | error e => rfl

/-- A body to add is answered as its fields and the stored versions say. -/
theorem Kept.create (h : Kept b) (settings : Settings) (body : Json.Document) :
    (Response.ofResult 201 Record.toJson
      (b.run ((Service.ofSettings settings).create body.value).run).1).Meets
        (addStatus settings.standards b.records.latest? body.value)
        ((faults settings.standards b.records.latest? .create body.value).map (·.1)) := by
  refine meets_submit b settings List.mem_cons_self body Store.create addStatus_of_faults ?_
  intro hfaults d hname
  obtain ⟨hnameFault, hfields⟩ := faults_eq_nil_iff.mp hfaults
  have hlatest : b.records.latest? d.name = none := by
    obtain ⟨name, hname', hlatest⟩ := nameFault?_create_eq_none_iff.mp hnameFault
    rw [hname] at hname'
    cases hname'
    exact hlatest
  obtain ⟨l, hmodels, -⟩ := h
  have hfree : l.latest? d.name = none := (hmodels.latest d.name).symm.trans hlatest
  rw [status_of_shows (hmodels.create d).shows, Ledger.change_create hfree, addStatus, hname]
  simp only [hfields, hlatest]
  cases Store.isTooLong d.name.text.toList with
  | true => rfl
  | false => rfl

/-- A body to update is answered as its fields and the stored versions say. -/
theorem Kept.update (h : Kept b) (settings : Settings) (body : Json.Document) :
    (Response.ofResult 200 Record.toJson
      (b.run ((Service.ofSettings settings).update body.value).run).1).Meets
        (updateStatus settings.standards b.records.latest? body.value)
        ((faults settings.standards b.records.latest? .update body.value).map (·.1)) := by
  refine meets_submit b settings (by simp) body (Store.update · Store.defaultAttempts)
    updateStatus_of_faults ?_
  intro hfaults d hname
  obtain ⟨hnameFault, hfields⟩ := faults_eq_nil_iff.mp hfaults
  obtain ⟨v, hlatest⟩ : ∃ v, b.records.latest? d.name = some v := by
    obtain ⟨name, v, hname', hlatest⟩ := nameFault?_update_eq_none_iff.mp hnameFault
    rw [hname] at hname'
    cases hname'
    exact ⟨v, hlatest⟩
  obtain ⟨text, htext, -⟩ := Option.bind_eq_some_iff.mp hname
  obtain ⟨l, hmodels, hshort⟩ := h
  have hused : l.latest? d.name = some v := (hmodels.latest d.name).symm.trans hlatest
  rw [status_of_shows (hmodels.update d _).shows, hshort.change_update hused, updateStatus, htext,
    hname]
  simp only [hfields, hlatest, Option.bind_some, Version.next]
  by_cases hnext : v.number + 1 < versionBound
  · rw [dif_pos hnext, if_pos hnext]
    rfl
  · rw [dif_neg hnext, if_neg hnext]
    rfl

/-! ### What requests leave behind -/

theorem kept_fresh (tokens : Nat → Artifact.Token) (start : Time.Moment) (root : Store.Root) :
    Kept (.fresh tokens start root) :=
  ⟨_, Store.Backend.models_fresh tokens start root, Ledger.short_empty⟩

/-- **Every command leaves a backend that models a ledger.** -/
theorem Kept.attend (h : Kept b) (settings : Settings) (now : Time.Moment) (command : Command) :
    Kept ((Service.ofSettings settings).attend b now command).2 := by
  obtain ⟨l, hmodels, hshort⟩ := h
  have hcarried := carried_attend hmodels settings now command
  generalize (Service.ofSettings settings).attend b now command = after at hcarried
  cases hcarried with
  | idle answer => exact ⟨l, hmodels.at now, hshort⟩
  | errand errand hdraft =>
    exact ⟨_, ((hmodels.at now).change errand).models, hshort.change _ errand⟩

/-- A program that leaves behind what the service keeps. -/
def Keeps (p : Program α) : Prop :=
  ∀ b, Kept b → Kept (b.run p).2

theorem keeps_done (a : α) : Keeps (.done a) :=
  fun _ h => h

theorem Keeps.bind {β : Type} {p : Program α} (hp : Keeps p) {f : α → Program β}
    (hf : ∀ a, Keeps (f a)) : Keeps (p >>= f) := by
  intro b h
  rw [Backend.run, Program.run_bind]
  exact hf _ _ (hp b h)

theorem runAt_now (b : Backend) (job : Job α) : runAt b b.now job = b.run job.run := rfl

/-- A job that a command carries out leaves behind what the command does. -/
theorem keeps_of_command {job : Job α} {toAnswer : Except Failure α → Answer} (settings : Settings)
    (command : Command) (h : ∀ b, (Service.ofSettings settings).attend b b.now command
      = (runAt b b.now job).map toAnswer id) : Keeps job.run := by
  intro b hb
  have hkept := hb.attend settings b.now command
  rw [h b, runAt_now] at hkept
  exact hkept

/-- What the jobs of the service leave behind is kept. -/
theorem keeps_jobs (settings : Settings) :
    (∀ body : Json.Document, Keeps ((Service.ofSettings settings).create body.value).run) ∧
      (∀ body : Json.Document, Keeps ((Service.ofSettings settings).update body.value).run) ∧
      Keeps (Service.ofSettings settings).list.run ∧
      (∀ name version, Keeps ((Service.ofSettings settings).retrieve name version).run) ∧
      ∀ name version, Keeps ((Service.ofSettings settings).delete name version).run := by
  refine ⟨fun body => ?_, fun body => ?_, ?_, fun name version => ?_, fun name version => ?_⟩
  · exact keeps_of_command settings (.create body) fun b => by rw [Service.attend]
  · exact keeps_of_command settings (.update body) fun b => by rw [Service.attend]
  · exact keeps_of_command settings .list fun b => by rw [Service.attend]
  · exact keeps_of_command settings (.retrieve name version) fun b => by rw [Service.attend]
  · exact keeps_of_command settings (.delete name version) fun b => by rw [Service.attend]

theorem Keeps.respond {job : Job α} (h : Keeps job.run) (success : Nat)
    (toJson : α → Json.Value) : Keeps (respond success toJson job) := by
  intro b hb
  rw [run_respond]
  exact h b hb

/-- A body that is read leads on, and any other is the end. -/
theorem keeps_readBody {bytes : List UInt8} {f : Json.Value → Job α}
    (h : ∀ body : Json.Document, Keeps (f body.value).run) : Keeps (readBody bytes >>= f).run := by
  rw [readBody]
  rcases hread : Json.Value.ofBytes bytes with fault | body
  · exact keeps_done _
  · exact h ⟨body, Json.Value.proper_ofBytes hread⟩

/-- A number that is read leads on, and any other text is the end. -/
theorem keeps_readVersion {text : String} {f : Nat → Job α} (h : ∀ n, Keeps (f n).run) :
    Keeps (readVersion text >>= f).run := by
  rw [readVersion]
  cases number? text with
  | none => exact keeps_done _
  | some n => exact h n

theorem keeps_respondAddressed {toJson : α → Json.Value} {job : String → Option Nat → Job α}
    (h : ∀ name version, Keeps (job name version).run) (name : List Char)
    (version : Option (List Char)) : Keeps (respondAddressed toJson job name version) := by
  rw [respondAddressed]
  split
  · exact keeps_done _
  · exact keeps_done _
  · exact (h _ _).respond _ _
  · exact (keeps_readVersion fun n => h _ _).respond _ _

theorem keeps_route (settings : Settings) (bytes : List UInt8) (route : Route) :
    Keeps (route.respond (Service.ofSettings settings) bytes) := by
  obtain ⟨hcreate, hupdate, hlist, hretrieve, hdelete⟩ := keeps_jobs settings
  cases route with
  | add => exact (keeps_readBody hcreate).respond _ _
  | update => exact (keeps_readBody hupdate).respond _ _
  | list => exact hlist.respond _ _
  | health => exact keeps_done _
  | retrieve name version => exact keeps_respondAddressed hretrieve _ _
  | remove name version => exact keeps_respondAddressed hdelete _ _

theorem keeps_answer (settings : Settings) (request : WebRequest) :
    Keeps (answer (Service.ofSettings settings) request) := by
  rw [answer]
  split
  · exact keeps_done _
  · next route hroute =>
    split
    · split
      · exact (keeps_route settings request.body route).bind fun r => keeps_done _
      · exact keeps_route settings request.body route
    · exact keeps_done _

/-- **Every request leaves a backend that models a ledger.** -/
theorem keeps_serve (settings : Settings) (cors : Bool) (request : WebRequest) :
    Keeps (serve (Service.ofSettings settings) cors request) := by
  rw [serve]
  split
  · exact keeps_answer settings request
  · split
    · exact keeps_done _
    · exact (keeps_answer settings request).bind fun r => keeps_done _

/-! ### Requests one after the other -/

namespace Service

/-- Answers a request at a time. -/
def serveAt (s : Service) (cors : Bool) (b : Backend) (now : Time.Moment) (request : WebRequest) :
    Response × Backend :=
  ({ b with now := now } : Backend).run (serve s cors request)

/-- What requests leave behind that come one after the other, each at its time. -/
def afterwards (s : Service) (cors : Bool) : Backend → List (Time.Moment × WebRequest) → Backend
  | b, [] => b
  | b, (now, request) :: rest => s.afterwards cors (s.serveAt cors b now request).2 rest

end Service

theorem Kept.afterwards (h : Kept b) (settings : Settings) (cors : Bool)
    (requests : List (Time.Moment × WebRequest)) :
    Kept ((Service.ofSettings settings).afterwards cors b requests) := by
  induction requests generalizing b with
  | nil => exact h
  | cons timed requests ih =>
    obtain ⟨now, request⟩ := timed
    exact ih (keeps_serve settings cors request _ (h.at now))

/-- A request by the method of its route is answered by the route. -/
theorem answer_of_route (s : Service) {target : String} {route : Route}
    (hroute : route? (pathOf target.toList) = some route) (bytes : List UInt8) :
    answer s ⟨route.method, target, bytes⟩ = route.respond s bytes := by
  have hanswers : route.answers route.method = true := by
    rw [Route.answers]
    simp
  have hhead : route.method ≠ "HEAD" := by
    cases route <;> simp [Route.method]
  simp only [answer, hroute]
  rw [if_pos hanswers, if_neg hhead]

/-- Answers are open to pages from elsewhere, or not, but else those of the route. -/
theorem decided_serve {s : Service} {cors : Bool} {target : String} {route : Route}
    (hroute : route? (pathOf target.toList) = some route) {status : Json.Value → Nat}
    {failing : Json.Value → List String} {bytes : List UInt8}
    (h : Decided status failing bytes (b.run (route.respond s bytes)).1) :
    Decided status failing bytes (b.run (serve s cors ⟨route.method, target, bytes⟩)).1 := by
  have hoptions : route.method ≠ "OPTIONS" := by
    cases route <;> simp [Route.method]
  rw [serve, answer_of_route s hroute, if_neg hoptions]
  split
  · exact h
  · rw [Backend.run, Program.run_bind]
    exact h.withHeaders openHeaders

/-- A job on the body of a request is decided by what it comes to for each value. -/
theorem decided_respond {status : Json.Value → Nat} {failing : Json.Value → List String}
    {bytes : List UInt8} {success : Nat} {toJson : α → Json.Value} {f : Json.Value → Job α}
    (h : ∀ body : Json.Document, (Response.ofResult success toJson
      (b.run (f body.value).run).1).Meets (status body.value) (failing body.value)) :
    Decided status failing bytes (b.run (respond success toJson (readBody bytes >>= f))).1 := by
  rw [run_respond, readBody]
  constructor
  · intro fault hread
    rw [hread]
    rfl
  · intro body hread
    rw [hread]
    exact h ⟨body, Json.Value.proper_ofBytes hread⟩

theorem Kept.decided_add (h : Kept b) (settings : Settings) (bytes : List UInt8) :
    Decided (addStatus settings.standards b.records.latest?)
      (fun body => (faults settings.standards b.records.latest? .create body).map (·.1)) bytes
      (b.run (Route.add.respond (Service.ofSettings settings) bytes)).1 :=
  decided_respond fun body => h.create settings body

theorem Kept.decided_update (h : Kept b) (settings : Settings) (bytes : List UInt8) :
    Decided (updateStatus settings.standards b.records.latest?)
      (fun body => (faults settings.standards b.records.latest? .update body).map (·.1)) bytes
      (b.run (Route.update.respond (Service.ofSettings settings) bytes)).1 :=
  decided_respond fun body => h.update settings body

/-- **Whatever requests came before, a request to add or to update is answered as its body
and the stored versions say**, and a refusal tells of just the fields that fail. -/
theorem Service.submissions_decided (settings : Settings) (cors : Bool)
    (tokens : Nat → Artifact.Token) (start : Time.Moment) (root : Store.Root)
    (requests : List (Time.Moment × WebRequest)) (now : Time.Moment) (target : String)
    (bytes : List UInt8) :
    let s := Service.ofSettings settings
    let b := s.afterwards cors (.fresh tokens start root) requests
    (route? (pathOf target.toList) = some .add →
      Decided (addStatus settings.standards b.records.latest?)
        (fun body => (faults settings.standards b.records.latest? .create body).map (·.1)) bytes
        (s.serveAt cors b now ⟨"POST", target, bytes⟩).1) ∧
    (route? (pathOf target.toList) = some .update →
      Decided (updateStatus settings.standards b.records.latest?)
        (fun body => (faults settings.standards b.records.latest? .update body).map (·.1)) bytes
        (s.serveAt cors b now ⟨"PUT", target, bytes⟩).1) := by
  intro s b
  have hkept : Kept { b with now := now } :=
    ((kept_fresh tokens start root).afterwards settings cors requests).at now
  refine ⟨fun hroute => ?_, fun hroute => ?_⟩
  · exact decided_serve hroute (hkept.decided_add settings bytes)
  · exact decided_serve hroute (hkept.decided_update settings bytes)

/-- The bytes of a body with a small script. -/
def meanBytes : List UInt8 :=
  Text.encode ("\x7b\"algoName\": \"mean\", \"description\": \"A mean.\", \"algorithm\": \x7b" ++
    "\"code\": \"Y2xhc3MgTWVhbihPUEFMQWxnb3JpdGhtKToKICAgIHBhc3M=\", " ++
    "\"className\": \"Mean\", \"reducer\": \"SUM\"\x7d\x7d").toList

/-- A service that asks for no libraries. -/
def plainSettings : Settings :=
  ⟨"", "", ⟨"key"⟩, false, some [], some []⟩

/-- What such a service keeps after the small script was added. -/
def meanAdded : Backend :=
  (Service.ofSettings plainSettings).afterwards false (.fresh Artifact.Token.ofNat .epoch)
    [(.epoch, ⟨"POST", "/add", meanBytes⟩)]

/-- The small script cannot be added again, but it can be updated. -/
theorem Service.submissions_decided_mean :
    let s := Service.ofSettings plainSettings
    route? (pathOf "/add".toList) = some .add ∧
      route? (pathOf "/update?now".toList) = some .update ∧
      (s.serveAt false meanAdded .epoch ⟨"POST", "/add", meanBytes⟩).1.Meets 409 ["algoName"] ∧
      (s.serveAt false meanAdded .epoch ⟨"PUT", "/update?now", meanBytes⟩).1.Meets 200 [] := by
  have hadd : route? (pathOf "/add".toList) = some .add := by decide
  have hupdate : route? (pathOf "/update?now".toList) = some .update := by decide
  have hvalues : (Json.Value.ofBytes meanBytes).toOption.map (fun body =>
      (addStatus plainSettings.standards meanAdded.records.latest? body,
        (faults plainSettings.standards meanAdded.records.latest? .create body).map (·.1),
        updateStatus plainSettings.standards meanAdded.records.latest? body,
        (faults plainSettings.standards meanAdded.records.latest? .update body).map (·.1)))
      = some (409, ["algoName"], 200, []) := by
    decide +kernel
  rcases hread : Json.Value.ofBytes meanBytes with fault | body
  · rw [hread] at hvalues
    cases hvalues
  · rw [hread] at hvalues
    obtain ⟨h₁, h₂, h₃, h₄⟩ := by simpa only [Except.toOption, Option.map_some, Option.some.injEq,
      Prod.mk.injEq] using hvalues
    have hadded := ((Service.submissions_decided plainSettings false Artifact.Token.ofNat .epoch
      .here [(.epoch, ⟨"POST", "/add", meanBytes⟩)] .epoch "/add" meanBytes).1 hadd).read body hread
    have hupdated := ((Service.submissions_decided plainSettings false Artifact.Token.ofNat .epoch
      .here [(.epoch, ⟨"POST", "/add", meanBytes⟩)] .epoch "/update?now" meanBytes).2 hupdate).read
        body hread
    rw [← h₁, ← h₂, ← h₃, ← h₄]
    exact ⟨hadd, hupdate, hadded, hupdated⟩

end ScriptRegistry.Web
