import Mathlib.Data.List.Nodup
import FullstackSvc.Execution.Queries

/-!
# The progress of a job that is delivered once

An entry may be delivered again, and then two courses are mixed in one history.  When a job
has been delivered at most once, its history is `QUEUED` and one course, and its times do
not go back, since a delivery begins after the commit of the upload.

* `progress_of_single`: the history of such a job.
* `single_delivery_reported`: **both endpoints report where it stands**, in whichever order
  the database gives the entries, as long as no two of them have the same millisecond.
-/

namespace FullstackSvc.Execution

open Text Async Store

variable {C : Config} {pid : Nat} {s s' : World} {views : Nat → View}

/-- At most one process delivers, or has delivered, the job. -/
def DeliveredOnce (σ : (services C).Sys) (jobId : JsString) : Prop :=
  ∀ p p' : Nat, (σ.procs[p]?).map Service.Proc.call = some (.processJob jobId) →
    (σ.procs[p']?).map Service.Proc.call = some (.processJob jobId) → p = p'

theorem deliveredOnce_of_nodup {σ : (services C).Sys}
    (h : (σ.procs.map Service.Proc.call).Nodup) (jobId : JsString) : DeliveredOnce σ jobId := by
  intro p p' hp hp'
  rw [← List.getElem?_map] at hp hp'
  exact (List.getElem?_inj (List.getElem?_eq_some_iff.mp hp).1 h).mp (hp.trans hp'.symm)

/-- `QUEUED` and one course, in the order of their times. -/
structure Progress (logs : List ExecutionJobStatusLog) : Prop where
  course : ∃ w ∈ courses, logs.map ExecutionJobStatusLog.status = .QUEUED :: w
  inOrder : logs.Pairwise fun a b => a.createdAt ≤ b.createdAt

/-- **The history of a job that is delivered at most once.** -/
theorem progress_of_single {σ : (services C).Sys} (hreg : Regular σ)
    (h : Fitting C σ.shared views) {jobId : JsString}
    (hjob : jobId ∈ σ.shared.jobs.map ExecutionJob.id) (hone : DeliveredOnce σ jobId) :
    Progress (σ.shared.logsOf jobId) := by
  obtain ⟨first, rest, hlogs, hqueued, hothers⟩ := h.history hreg.2.1 hjob
  have hmem : ∀ log ∈ first :: rest, log ∈ σ.shared.logs ∧ log.jobId = jobId := by
    intro log hlog
    rw [← hlogs] at hlog
    exact ⟨(List.mem_filter.mp hlog).1, of_decide_eq_true (List.mem_filter.mp hlog).2⟩
  cases hrest : rest with
  | nil =>
    rw [hlogs, hrest]
    exact ⟨⟨[], List.mem_cons_self .., by rw [List.map_cons, hqueued]; rfl⟩,
      List.pairwise_singleton _ _⟩
  | cons second _ =>
    -- there is a delivery, and all later entries are its own
    have hsecond : second ∈ rest := hrest ▸ List.mem_cons_self ..
    obtain ⟨hin, hid⟩ := hmem second (List.mem_cons_of_mem _ hsecond)
    obtain ⟨p, hcall, -⟩ := h.delivery_of_rest hin (hothers second hsecond)
    rw [hid] at hcall
    have hall : ∀ log ∈ rest, σ.shared.Owns C p log.id := by
      intro log hlog
      obtain ⟨hin', hid'⟩ := hmem log (List.mem_cons_of_mem _ hlog)
      obtain ⟨p', hcall', hown'⟩ := h.delivery_of_rest hin' (hothers log hlog)
      rw [hid', calls_getElem? hreg.1] at hcall'
      obtain rfl := hone p p' ((calls_getElem? hreg.1 p).symm.trans hcall) hcall'
      exact hown'
    obtain ⟨hinFirst, hidFirst⟩ := hmem first (List.mem_cons_self ..)
    have hfirst : ¬ σ.shared.Owns C p first.id := by
      intro hown
      obtain ⟨p', userId, file, hown', -, -, hcall'⟩ := h.queued hinFirst hqueued
      obtain rfl := owner_unique hown hown'
      rw [hcall] at hcall'
      cases hcall'
    have hwritten := h.filter_logsOf hcall
    rw [hlogs, List.filter_cons_of_neg (by simpa using hfirst),
      List.filter_eq_self.mpr fun log hlog => decide_eq_true (hall log hlog)] at hwritten
    rw [hlogs, hwritten]
    have hr := h.accounted p
    have hrequest := hr.request.trans hcall
    have hfits := hr.fits
    simp only [View.Fits, hrequest] at hfits
    refine ⟨⟨_, hfits.2.1, by rw [List.map_cons, hqueued]; rfl⟩, ?_⟩
    rw [List.pairwise_cons]
    exact ⟨(hr.behind jobId hrequest first hinFirst hidFirst hqueued).2, hr.sorted⟩

/-! ### What the endpoints report -/

/-- No two entries have the same time. -/
def Spaced (logs : List ExecutionJobStatusLog) : Prop :=
  (logs.map ExecutionJobStatusLog.createdAt).Nodup

variable {l logs : List ExecutionJobStatusLog}

theorem Spaced.eq_of_le (h : Spaced logs) (hperm : l.Perm logs) {a b : ExecutionJobStatusLog}
    (ha : a ∈ l) (hb : b ∈ logs) (hle : a.createdAt ≤ b.createdAt)
    (hge : b.createdAt ≤ a.createdAt) : a = b :=
  List.inj_on_of_nodup_map h (hperm.mem_iff.mp ha) hb (Nat.le_antisymm hle hge)

/-- So they had before. -/
theorem Spaced.of_isPrefix (h : Spaced logs) (hp : l <+: logs) : Spaced l :=
  h.sublist (hp.sublist.map _)

/-- **Entries at different times have one order.** -/
theorem ascending_of_perm (h : Spaced logs) (hperm : l.Perm logs)
    (hsorted : logs.Pairwise fun a b => a.createdAt ≤ b.createdAt) :
    (l.mergeSort fun a b => a.createdAt ≤ b.createdAt) = logs := by
  have hsort := (List.mergeSort_perm l fun a b => a.createdAt ≤ b.createdAt).trans hperm
  have hpair : (l.mergeSort fun a b => a.createdAt ≤ b.createdAt).Pairwise
      fun a b => a.createdAt ≤ b.createdAt :=
    (pairwise_mergeSort totalPreorder_ascending l).imp fun h => of_decide_eq_true h
  exact hsort.eq_of_pairwise (fun a b ha hb => h.eq_of_le hsort ha hb) hpair hsorted

theorem descending_of_perm (h : Spaced logs) (hperm : l.Perm logs)
    (hsorted : logs.Pairwise fun a b => a.createdAt ≤ b.createdAt) :
    (l.mergeSort fun a b => b.createdAt ≤ a.createdAt) = logs.reverse := by
  have hsort := (List.mergeSort_perm l fun a b => b.createdAt ≤ a.createdAt).trans hperm
  have hpair : (l.mergeSort fun a b => b.createdAt ≤ a.createdAt).Pairwise
      fun a b => b.createdAt ≤ a.createdAt :=
    (pairwise_mergeSort totalPreorder_descending l).imp fun h => of_decide_eq_true h
  refine (hsort.trans (List.reverse_perm logs).symm).eq_of_pairwise (fun a b ha hb hge hle => ?_)
    hpair (List.pairwise_reverse.mpr hsorted)
  exact h.eq_of_le hsort ha (List.mem_reverse.mp hb) hle hge

/-- **The detail reports the entry that was written last.** -/
theorem reportedStatus_of_single {σ : (services C).Sys}
    (h : Service.Reaches Service.anyEvent (start C) σ) {row : ExecutionJob}
    (hrow : row ∈ σ.shared.jobs) (hone : DeliveredOnce σ row.id)
    (hspaced : Spaced (σ.shared.logsOf row.id)) (D : Database C.ulid) :
    reportedStatus (withStatuses D σ.shared row).2 =
      (σ.shared.logsOf row.id).getLast?.map ExecutionJobStatusLog.status := by
  obtain ⟨views, hab⟩ := abides_of_run h
  have hreg := (regular_of_reaches h).1
  have hprogress := progress_of_single hreg hab.shared (List.mem_map_of_mem hrow) hone
  rw [reportedStatus, latestStatus,
    ascending_of_perm hspaced (statuses_perm (D := D) hreg.2.1 hrow) hprogress.inOrder]

/-- A job that has been delivered at most once had been so before. -/
theorem DeliveredOnce.before {σ σ' : (services C).Sys} (hl : Linked σ) (hl' : Linked σ')
    (h : Service.Reaches Service.anyEvent σ σ') {jobId : JsString} (hone : DeliveredOnce σ' jobId) :
    DeliveredOnce σ jobId := by
  obtain ⟨l, hcalls⟩ := calls_of_reaches h
  have hkept : ∀ p : Nat, (σ.procs[p]?).map Service.Proc.call = some (.processJob jobId) →
      (σ'.procs[p]?).map Service.Proc.call = some (.processJob jobId) := by
    intro p hp
    rw [← calls_getElem? hl] at hp
    rw [← calls_getElem? hl', hcalls, List.getElem?_append_left (List.getElem?_eq_some_iff.mp hp).1]
    exact hp
  intro p p' hp hp'
  exact hone p p' (hkept p hp) (hkept p' hp')

/-- The history of a job grows. -/
theorem logsOf_of_reaches {σ σ' : (services C).Sys} (h : Service.Reaches Service.anyEvent σ σ')
    (jobId : JsString) : σ.shared.logsOf jobId <+: σ'.shared.logsOf jobId := by
  obtain ⟨l, hl⟩ := logs_of_reaches h
  rw [World.logsOf, World.logsOf, hl, List.filter_append]
  exact List.prefix_append _ _

/-- **The endpoints report where a job stands.**  In every state of a run a job that has been
delivered at most once has the history `QUEUED` and one course, with times that do not go back.  And
if no two of its entries have the same time, then whatever order the database gives them in, the
detail shows that history, and the list and the detail report the entry that was written last. -/
theorem single_delivery_reported {σ : (services C).Sys}
    (h : Service.Reaches Service.anyEvent (start C) σ) {row : ExecutionJob}
    (hrow : row ∈ σ.shared.jobs) (hone : DeliveredOnce σ row.id) :
    Progress (σ.shared.logsOf row.id) ∧
    (Spaced (σ.shared.logsOf row.id) → ∀ D : Database C.ulid,
      (getExecutionJob row (withStatuses D σ.shared row).2).statusHistory =
        (σ.shared.logsOf row.id).map (fun log => (log.status, log.createdAt)) ∧
      (getExecutionJob row (withStatuses D σ.shared row).2).status =
        (σ.shared.logsOf row.id).getLast?.map ExecutionJobStatusLog.status ∧
      listedStatus (withStatuses D σ.shared row).2 =
        (σ.shared.logsOf row.id).getLast?.map ExecutionJobStatusLog.status) := by
  obtain ⟨views, hab⟩ := abides_of_run h
  have hreg := (regular_of_reaches h).1
  have hprogress := progress_of_single hreg hab.shared (List.mem_map_of_mem hrow) hone
  refine ⟨hprogress, fun hspaced D => ?_⟩
  have hperm := statuses_perm (D := D) hreg.2.1 hrow
  have hup := ascending_of_perm hspaced hperm hprogress.inOrder
  have hdown := descending_of_perm hspaced hperm hprogress.inOrder
  refine ⟨?_, ?_, ?_⟩
  · exact congrArg (List.map fun log : ExecutionJobStatusLog => (log.status, log.createdAt)) hup
  · exact reportedStatus_of_single h hrow hone hspaced D
  · rw [listedStatus, hdown, List.head?_reverse]

/-- The upload is taken a millisecond later, and the worker saves two entries. -/
def startedExecution : List (services Config.plain).Event :=
  firstUpload ++ [.env (.tick 1), .call (.processJob (js "1")), .resume 1 .done, .resume 1 .done,
    .env (.tick 1), .resume 1 .done, .resume 1 .done]

theorem single_delivery_reported_started :
    ∃ (σ : (services Config.plain).Sys) (row : ExecutionJob),
      Service.run (start Config.plain) startedExecution = some σ ∧ row ∈ σ.shared.jobs ∧
        (getExecutionJob row
          (withStatuses (Database.plain Config.plain.ulid) σ.shared row).2).status = some .RUNNING := by
  have hrun : (Service.run (start Config.plain) startedExecution).map (fun σ =>
      (σ.procs.map Service.Proc.call, σ.shared.jobs.map ExecutionJob.id,
        (σ.shared.logsOf (js "1")).map fun log => (log.status, log.createdAt))) =
      some ([.createExecutionJob (js "ann") ⟨js "main.dart", [118]⟩, .processJob (js "1")],
        [js "1"], [(.QUEUED, 0), (.READY, 1), (.RUNNING, 2)]) := by
    decide +kernel
  obtain ⟨σ, hσ, hall⟩ := Option.map_eq_some_iff.mp hrun
  obtain ⟨hcalls, hboth⟩ := Prod.mk.inj hall
  obtain ⟨hids, hlogs⟩ := Prod.mk.inj hboth
  obtain ⟨row, hrow, hid⟩ := List.mem_map.mp (hids ▸ List.mem_singleton_self (js "1"))
  have hone : DeliveredOnce σ row.id := deliveredOnce_of_nodup (by rw [hcalls]; decide) row.id
  have hreported := (single_delivery_reported (Service.reaches_of_run hσ fun _ _ _ => trivial) hrow
    hone).2 ?_ (Database.plain _)
  · refine ⟨σ, row, hσ, hrow, hreported.2.1.trans ?_⟩
    have hstatuses := congrArg (List.map Prod.fst) hlogs
    rw [List.map_map] at hstatuses
    rw [← List.getLast?_map, hid]
    exact congrArg List.getLast? hstatuses
  · rw [Spaced, hid]
    have htimes := congrArg (List.map Prod.snd) hlogs
    rw [List.map_map] at htimes
    rw [show (σ.shared.logsOf (js "1")).map ExecutionJobStatusLog.createdAt = [0, 1, 2] from htimes]
    decide

end FullstackSvc.Execution
