/-
ScriptRegistry/Proofs/Assignment.lean

In which order the numbers of versions are assigned.

A new version takes the number one above the latest version that is stored at
that time, and a deletion takes a version out of what is stored.  The versions
that one name has been assigned so far are therefore not remembered by anything
but the records: as long as the last one assigned is still there, the next is
above all before it; once it was deleted, the next is not, and a number may be
assigned twice (`assigned_again`).

The induction over a run is from its end, because what was assigned so far is
compared with what the last request is assigned.

Main result: `Backend.assigned_ascending_iff`.
-/
import Mathlib.Data.List.Induction
import ScriptRegistry.Proofs.Interleaving
import ScriptRegistry.Proofs.Refinement

namespace ScriptRegistry.Store

/-- The version of a name that a request has stored, given its reply. -/
def Request.assigned? (name : AlgorithmName) : Request → Reply → Option Version
  | .change errand, .change (.ok r) =>
    if errand.draft?.isSome ∧ r.name = name then some r.version else none
  | _, _ => none

namespace Backend

/-- The versions of a name that requests store, one after the other. -/
def assigned (name : AlgorithmName) : Backend → List (Time.Moment × Request) → List Version
  | _, [] => []
  | b, (now, request) :: rest =>
    (request.assigned? name (b.serve now request).1).toList
      ++ (b.serve now request).2.assigned name rest

variable {b : Backend} {l : Ledger} {name : AlgorithmName}

/-! ### One request -/

/-- What comes of an assignment: the version that a request stores under a name is the next
one, and no other comes to what is stored. -/
def Assigns (b : Backend) (name : AlgorithmName) (assigned : Option Version) (b' : Backend) :
    Prop :=
  (∀ v, assigned = some v → Version.following (b.records.latest? name) = .ok v) ∧
    ∀ v r, b'.records.find? name (some v) = some r →
      (∃ r, b.records.find? name (some v) = some r) ∨ assigned = some v

/-- A request that adds no record assigns no version. -/
theorem assigns_none {b' : Backend}
    (h : ∀ v r, b'.records.find? name (some v) = some r →
      b.records.find? name (some v) = some r) : b.Assigns name none b' :=
  ⟨fun _ hv => (by cases hv), fun v r hr => Or.inl ⟨r, h v r hr⟩⟩

/-- A request that adds a record assigns its version. -/
theorem assigns_add (hb : b.records.Sound) {r₀ : Record} (hnext : b.records.IsNext r₀)
    {b' : Backend} (hrecords : b'.records = b.records.add r₀) :
    b.Assigns name (if r₀.name = name then some r₀.version else none) b' := by
  refine ⟨fun v hv => ?_, fun v r hr => ?_⟩
  · split at hv
    · next hname =>
      cases hv
      rw [← hname]
      exact hnext
    · cases hv
  · rw [hrecords, Catalog.find?_add hb hnext] at hr
    split at hr
    · next hnew =>
      rw [if_pos hnew.1.symm, hnew.2]
      exact Or.inr rfl
    · exact Or.inl ⟨r, hr⟩

theorem Models.assigns_errand (h : b.Models l) (errand : Errand) (name : AlgorithmName) :
    b.Assigns name ((Request.change errand).assigned? name (.change (b.run errand.program).1))
      (b.run errand.program).2 := by
  have hsettles := h.change errand
  rcases hrun : b.run errand.program with ⟨fault | r₀, b'⟩
  · -- an errand that fails stores nothing
    rw [hrun] at hsettles
    have hrecords : b'.records = b.records := hsettles.records
    exact assigns_none fun v r hr => by rwa [hrecords] at hr
  · rw [hrun] at hsettles
    rcases hdraft : errand.draft? with - | draft
    · -- one that deletes takes out a record and leaves the others
      have hrecords : b'.records = b.records.drop r₀.name r₀.version := by
        cases errand with
        | delete name version => exact hsettles.records
        | _ => cases hdraft
      simp only [Request.assigned?, hdraft, Option.isSome_none, Bool.false_eq_true, false_and,
        if_false]
      refine assigns_none fun v r hr => ?_
      rw [hrecords, Catalog.find?_drop] at hr
      split at hr
      · cases hr
      · exact hr
    · have hrecords : b'.records = b.records.add r₀ := by
        cases errand with
        | delete name version => cases hdraft
        | _ => exact hsettles.records
      simp only [Request.assigned?, hdraft, Option.isSome_some, true_and]
      exact assigns_add h.records (hsettles.isNext h hdraft).2 hrecords

/-- What a request stores is the next version of its name, and nothing else comes. -/
theorem Models.assigns (h : b.Models l) (now : Time.Moment) (request : Request)
    (name : AlgorithmName) :
    b.Assigns name (request.assigned? name (b.serve now request).1) (b.serve now request).2 := by
  cases request with
  | list => exact assigns_none fun _ _ hr => hr
  | retrieve asked version =>
    rw [Backend.serve, run, (h.at now).run_retrieve asked version]
    exact assigns_none fun _ _ hr => hr
  | change errand => exact (h.at now).assigns_errand errand name

/-! ### Runs -/

theorem serveAll_append (b : Backend) (before after : List (Time.Moment × Request)) :
    (b.serveAll (before ++ after)).2 = ((b.serveAll before).2.serveAll after).2 := by
  induction before generalizing b with
  | nil => rfl
  | cons timed before ih => exact ih _

theorem assigned_append (name : AlgorithmName) (b : Backend)
    (before after : List (Time.Moment × Request)) :
    b.assigned name (before ++ after)
      = b.assigned name before ++ (b.serveAll before).2.assigned name after := by
  induction before generalizing b with
  | nil => rfl
  | cons timed before ih =>
    rw [List.cons_append, assigned, assigned, ih, List.append_assoc]
    rfl

/-- Whatever is stored under a name was assigned. -/
theorem mem_assigned_of_find? (tokens : Nat → Artifact.Token) (start : Time.Moment)
    (root : Root) (requests : List (Time.Moment × Request)) {v : Version} {r : Record}
    (hr : ((fresh tokens start root).serveAll requests).2.records.find? name (some v) = some r) :
    v ∈ (fresh tokens start root).assigned name requests := by
  induction requests using List.reverseRecOn generalizing r with
  | nil => cases hr
  | append_singleton requests timed ih =>
    obtain ⟨now, request⟩ := timed
    have hmodels := ((models_fresh tokens start root).serveAll requests).2
    rw [serveAll_append] at hr
    rw [assigned_append]
    rcases (hmodels.assigns now request name).2 v r hr with ⟨r', hr'⟩ | hnew
    · exact List.mem_append_left _ (ih hr')
    · refine List.mem_append_right _ ?_
      simp [assigned, hnew]

/-- What is above the last of an ascending list is above all of it. -/
theorem forall_lt_iff_last {earlier : List Version} {last v : Version}
    (hearlier : earlier.Pairwise (· < ·)) (hlast : earlier.getLast? = some last) :
    (∀ w ∈ earlier, w < v) ↔ last < v := by
  obtain ⟨rest, rfl⟩ := List.getLast?_eq_some_iff.mp hlast
  have hmem : last ∈ rest ++ [last] := List.mem_append_right _ (List.mem_singleton.mpr rfl)
  refine ⟨fun hall => hall last hmem, fun hlt w hw => ?_⟩
  rcases List.mem_append.mp hw with hw | hw
  · have hbelow : w < last :=
      (List.pairwise_append.mp hearlier).2.2 w hw last (List.mem_singleton.mpr rfl)
    exact Nat.lt_trans hbelow hlt
  · rw [List.mem_singleton.mp hw]
    exact hlt

/-- Of an ascending list, no element is above the last. -/
theorem le_last {earlier : List Version} {last w : Version} (hearlier : earlier.Pairwise (· < ·))
    (hlast : earlier.getLast? = some last) (hw : w ∈ earlier) : w = last ∨ w < last := by
  obtain ⟨rest, rfl⟩ := List.getLast?_eq_some_iff.mp hlast
  rcases List.mem_append.mp hw with hw | hw
  · exact Or.inr ((List.pairwise_append.mp hearlier).2.2 w hw last (List.mem_singleton.mpr rfl))
  · exact Or.inl (List.mem_singleton.mp hw)

/-- Where nothing above a version is stored, the next version is above it exactly if it is
stored itself. -/
theorem Models.lt_following_iff (h : b.Models l) {last v : Version}
    (habove : ∀ w r, b.records.find? name (some w) = some r → w = last ∨ w < last)
    (hv : Version.following (b.records.latest? name) = .ok v) :
    last < v ↔ (b.records.find? name (some last)).isSome = true := by
  have hnumber := number_of_following hv
  show last.number < v.number ↔ _
  rcases hlatest : b.records.latest? name with - | w
  · rw [hlatest] at hnumber
    have hpositive := last.positive
    rw [Catalog.find?_of_latest_none hlatest]
    refine iff_of_false ?_ (by simp)
    simp only [Option.map_none, Option.getD_none] at hnumber
    omega
  · rw [hlatest] at hnumber
    simp only [Option.map_some, Option.getD_some] at hnumber
    obtain ⟨r, hr⟩ := h.records.find?_latest hlatest
    constructor
    · intro hlt
      rcases habove w r hr with rfl | hw
      · rw [hr]
        rfl
      · have hw : w.number < last.number := hw
        omega
    · intro hsome
      obtain ⟨r', hr'⟩ := Option.isSome_iff_exists.mp hsome
      rcases h.records.le_latest hlatest hr' with rfl | hlt
      · omega
      · have hlt : last.number < w.number := hlt
        omega

/-! ### When versions ascend -/

/-- Whenever a name is assigned a version, the last one before it is still stored. -/
def KeepsLast (b : Backend) (name : AlgorithmName) (requests : List (Time.Moment × Request)) :
    Prop :=
  ∀ before now request after, requests = before ++ (now, request) :: after →
    ∀ v last,
      request.assigned? name ((b.serveAll before).2.serve now request).1 = some v →
      (b.assigned name before).getLast? = some last →
      ((b.serveAll before).2.records.find? name (some last)).isSome = true

/-- What a run keeps is what it kept before its last request and what that one keeps. -/
theorem keepsLast_append_singleton {b : Backend} {requests : List (Time.Moment × Request)}
    {now : Time.Moment} {request : Request} :
    b.KeepsLast name (requests ++ [(now, request)]) ↔ b.KeepsLast name requests ∧
      ∀ v last,
        request.assigned? name ((b.serveAll requests).2.serve now request).1 = some v →
        (b.assigned name requests).getLast? = some last →
        ((b.serveAll requests).2.records.find? name (some last)).isSome = true := by
  constructor
  · intro h
    refine ⟨fun before now' request' after heq => ?_, h requests now request [] rfl⟩
    refine h before now' request' (after ++ [(now, request)]) ?_
    rw [heq, List.append_assoc, List.cons_append]
  · rintro ⟨hbefore, hend⟩ before now' request' after heq
    rcases List.eq_nil_or_concat' after with rfl | ⟨after, timed, rfl⟩
    · obtain ⟨rfl, hlast⟩ := List.append_inj' heq rfl
      cases hlast
      exact hend
    · rw [← List.cons_append, ← List.append_assoc] at heq
      obtain ⟨rfl, -⟩ := List.append_inj' heq rfl
      exact hbefore before now' request' after rfl

/-- The next version is above all that were assigned exactly if the last of them is still
stored. -/
theorem forall_lt_assigned_iff (tokens : Nat → Artifact.Token) (start : Time.Moment)
    (root : Root) {requests : List (Time.Moment × Request)} {v : Version}
    (hearlier : ((fresh tokens start root).assigned name requests).Pairwise (· < ·))
    (hv : Version.following
      (((fresh tokens start root).serveAll requests).2.records.latest? name) = .ok v) :
    (∀ w ∈ (fresh tokens start root).assigned name requests, w < v) ↔
      ∀ last, ((fresh tokens start root).assigned name requests).getLast? = some last →
        (((fresh tokens start root).serveAll requests).2.records.find? name
          (some last)).isSome = true := by
  rcases hlast : ((fresh tokens start root).assigned name requests).getLast? with - | last
  · rw [List.getLast?_eq_none_iff.mp hlast]
    simp
  · have hmodels := ((models_fresh tokens start root).serveAll requests).2
    have hiff := hmodels.lt_following_iff
      (fun w r hr =>
        le_last hearlier hlast (mem_assigned_of_find? tokens start root requests hr)) hv
    rw [forall_lt_iff_last hearlier hlast, hiff]
    simp

/-- **The versions of a name ascend exactly as long as none is assigned after the last
one was deleted.**  Each of them is the one above the latest version stored then, or
the first. -/
theorem assigned_ascending_iff (tokens : Nat → Artifact.Token) (start : Time.Moment)
    (root : Root) (requests : List (Time.Moment × Request)) (name : AlgorithmName) :
    (∀ before now request after, requests = before ++ (now, request) :: after →
      ∀ v, request.assigned? name
          (((fresh tokens start root).serveAll before).2.serve now request).1 = some v →
        v.number = ((((fresh tokens start root).serveAll before).2.records.latest? name).map
          Version.number).getD 0 + 1) ∧
    (((fresh tokens start root).assigned name requests).Pairwise (· < ·) ↔
      (fresh tokens start root).KeepsLast name requests) := by
  refine ⟨fun before now request after _ v hv => ?_, ?_⟩
  · have hmodels := ((models_fresh tokens start root).serveAll before).2
    exact number_of_following ((hmodels.assigns now request name).1 v hv)
  · induction requests using List.reverseRecOn with
    | nil =>
      refine iff_of_true List.Pairwise.nil fun before now request after heq => ?_
      exact absurd heq (by simp)
    | append_singleton requests timed ih =>
      obtain ⟨now, request⟩ := timed
      have hmodels := ((models_fresh tokens start root).serveAll requests).2
      have hnext := (hmodels.assigns now request name).1
      rw [keepsLast_append_singleton, ← ih, assigned_append, List.pairwise_append]
      refine and_congr_right fun hearlier => ?_
      have hone : ((fresh tokens start root).serveAll requests).2.assigned name [(now, request)]
          = (request.assigned? name
            (((fresh tokens start root).serveAll requests).2.serve now request).1).toList :=
        List.append_nil _
      rw [hone]
      rcases hv : request.assigned? name
        (((fresh tokens start root).serveAll requests).2.serve now request).1 with - | v
      · simp
      · -- the one new version is compared with all earlier ones
        simp only [Option.toList_some, List.pairwise_singleton, List.mem_singleton, forall_eq,
          true_and, Option.some.injEq]
        exact (forall_lt_assigned_iff tokens start root hearlier (hnext v hv)).trans
          ⟨fun h _ last _ => h last, fun h last => h v last rfl⟩

theorem isSlug_mean : isSlug "mean" = true := by
  decide

/-- The name of the run that follows. -/
def mean : AlgorithmName :=
  ⟨"mean", isSlug_mean⟩

/-- The latest of two versions is deleted before another one is stored. -/
def replaced : List (Time.Moment × Request) :=
  let draft : String → Draft := fun description =>
    ⟨mean, description, ⟨"pass", "Mean", .sum⟩, none⟩
  [(.epoch, .change (.create (draft "A mean."))),
    (.epoch, .change (.update (draft "A better mean.") defaultAttempts)),
    (.epoch, .change (.delete mean none)),
    (.epoch, .change (.update (draft "Another mean.") defaultAttempts))]

/-- The number two is assigned a second time, and to another record. -/
theorem assigned_again :
    let b := fresh Artifact.Token.ofNat .epoch
    let shown := fun b : Backend =>
      (b.records.find? mean (some ⟨2, by decide, by decide⟩)).map (·.description)
    (b.assigned mean replaced).map (·.number) = [1, 2, 2] ∧
      ¬ (b.assigned mean replaced).Pairwise (· < ·) ∧
      shown (b.serveAll (replaced.take 2)).2 = some "A better mean." ∧
      shown (b.serveAll replaced).2 = some "Another mean." := by
  decide +kernel

end Backend

end ScriptRegistry.Store
