import FullstackSvc.Cli.RunCode
import FullstackSvc.Execution.Progress

/-!
# Running code, from the menu to the worker

The menu item polls the API server while the services go on.  Of a job that is delivered once,
every answer shows the end of a history that only grows, so the lines that are printed are
the course of the job.

* `follows_polls`: the answers of a run follow the history of the job.
* `run_code_follows_job`: **what the menu item prints of a job, and how it ends**.
-/

namespace FullstackSvc.Cli

open Text Async
open Execution (ExecutionJobStatus ExecutionJobStatusLog statusText services start DeliveredOnce
  Spaced courses Config Database)

variable {N : Type} {C : Execution.Config}

/-! ### Polls -/

/-- A request for the job: the state in which it is answered, and the order of the database. -/
structure Poll (C : Execution.Config) where
  state : (services C).Sys
  database : Database C.ulid

/-- What `dio.get` returns or throws. -/
def respond (D : DartRuntime N) (requester jobId : JsString) (poll : Poll C) :
    Except JsString Bytes :=
  match Execution.showJob poll.database poll.state.shared requester jobId with
  | .ok answer => .ok (Execution.responseBody D.text (answer.fields D.text))
  | .error e => .error (D.badResponse e)

/-- The polls are answered one after another while the services go on. -/
inductive Polled : (services C).Sys → List (Poll C) → (services C).Sys → Prop
  | nil {σ σ' : (services C).Sys} (goes : Service.Reaches Service.anyEvent σ σ') : Polled σ [] σ'
  | cons {σ σ' : (services C).Sys} {poll : Poll C} {polls : List (Poll C)}
    (goes : Service.Reaches Service.anyEvent σ poll.state) (rest : Polled poll.state polls σ') :
    Polled σ (poll :: polls) σ'

theorem Polled.reaches {σ σ' : (services C).Sys} {polls : List (Poll C)} (h : Polled σ polls σ') :
    Service.Reaches Service.anyEvent σ σ' := by
  induction h with
  | nil goes => exact goes
  | cons goes _ ih => exact goes.trans ih

/-- The columns `DATETIME(3)` and `INT` of a row. -/
structure RowFits (row : Execution.ExecutionJob) : Prop where
  createdAt : row.createdAt ≤ maxMilliseconds
  completedAt : ∀ t ∈ row.completedAt, t ≤ maxMilliseconds
  exitCode : ∀ code ∈ row.exitCode, code.natAbs < 2147483648

/-- The client has what is in the row. -/
structure ShowsRow (row : Execution.ExecutionJob) (job : ExecutionJob) : Prop where
  id : job.id = row.id
  filePath : job.filePath = row.filePath
  createdAt : job.createdAt = (row.createdAt : Int) * 1000
  output : job.output = row.output
  error : job.error = row.error
  exitCode : job.exitCode = row.exitCode
  completedAt : job.completedAt = row.completedAt.map fun t : Nat => (t : Int) * 1000

variable {D : DartRuntime N} {σ σ' : (services C).Sys} {row : Execution.ExecutionJob}

/-- **The owner of a job is answered with its row**, and with the status that the server reports. -/
theorem getJobStatus_own (hD : D.Exact) (h : Service.Reaches Service.anyEvent (start C) σ)
    (hrow : row ∈ σ.shared.jobs) (hfits : RowFits row) {database : Database C.ulid}
    {requester : JsString} (huser : database.same row.userId requester = true) :
    ∃ job, getJobStatus D (respond D requester row.id ⟨σ, database⟩) = .ok job ∧
      ShowsRow row job ∧ job.status = statusText
        (Execution.reportedStatus (Execution.withStatuses database σ.shared row).2) := by
  have hshow := Execution.showJob_own (Execution.regular_of_reaches h).1.2.1 hrow huser
  refine ⟨clientJob (Execution.getExecutionJob row (Execution.withStatuses database σ.shared row).2),
    ?_, ⟨rfl, rfl, rfl, rfl, rfl, rfl, rfl⟩, rfl⟩
  rw [respond, hshow]
  exact getJobStatus_body hD ⟨hfits.createdAt, hfits.completedAt, hfits.exitCode⟩

/-- A job that is there has entries, and the server reports one of them. -/
theorem reportedStatus_of_row (h : Service.Reaches Service.anyEvent (start C) σ)
    (hrow : row ∈ σ.shared.jobs) (database : Database C.ulid) :
    ∃ log ∈ σ.shared.logsOf row.id,
      Execution.reportedStatus (Execution.withStatuses database σ.shared row).2 =
        some log.status := by
  obtain ⟨views, hab⟩ := Execution.abides_of_run h
  have hsound := (Execution.regular_of_reaches h).1.2.1
  have hperm := Execution.statuses_perm (D := database) hsound hrow
  obtain ⟨first, rest, hlogs, -⟩ := hab.shared.history hsound (List.mem_map_of_mem hrow)
  cases hst : Execution.reportedStatus (Execution.withStatuses database σ.shared row).2 with
  | none =>
    have hnil := (List.mergeSort_perm _ _).symm.trans
      (.of_eq (List.getLast?_eq_none_iff.mp (Option.map_eq_none_iff.mp hst)))
    rw [hlogs] at hperm
    exact absurd (hperm.symm.trans hnil).length_eq (Nat.succ_ne_zero _)
  | some status =>
    obtain ⟨log, hlog, rfl⟩ := Execution.mem_of_reportedStatus hst
    exact ⟨log, hperm.mem_iff.mp hlog, rfl⟩

/-- What a poll is answered: the row, and the status that was written last. -/
theorem getJobStatus_poll (hD : D.Exact) (h : Service.Reaches Service.anyEvent (start C) σ)
    (hrow : row ∈ σ.shared.jobs) (hone : DeliveredOnce σ row.id)
    (hspaced : Spaced (σ.shared.logsOf row.id)) (hfits : RowFits row)
    (database : Database C.ulid) :
    ∃ job, getJobStatus D (respond D row.userId row.id ⟨σ, database⟩) = .ok job ∧
      ShowsRow row job ∧ ∃ status,
        ((σ.shared.logsOf row.id).map ExecutionJobStatusLog.status).getLast? = some status ∧
          job.status = status.text := by
  obtain ⟨job, hjob, hshows, hstatus⟩ :=
    getJobStatus_own hD h hrow hfits (database.same_refl row.userId)
  obtain ⟨log, -, hreported⟩ := reportedStatus_of_row h hrow database
  have hlast := Execution.reportedStatus_of_single h hrow hone hspaced database
  rw [← List.getLast?_map, hreported] at hlast
  rw [hreported] at hstatus
  exact ⟨job, hjob, hshows, log.status, hlast.symm, hstatus⟩

/-! ### A job that was submitted -/

/-- **Whoever submits a file can follow its job.**  A file that passes the checks of the menu passes
the filter of the server.  When the call has returned, the client reads the id of the job in its
answer; and in every later state, whatever has happened, the database gives, and whoever else has
submitted what, the submitter reads under that id the row of the job with a status that was written
for it, and anybody else is told that there is no such job. -/
theorem submitted_job_is_followed (hD : D.Exact) {filePath : JsString} {bytes : Bytes}
    (hpath : pathError filePath true = none) {userId : JsString} {pid : Nat}
    {job : Execution.ExecutionJob} {alive : Bool}
    (h : Service.Reaches Service.anyEvent (start C) σ)
    (hp : σ.procs[pid]? = some
      ⟨.createExecutionJob userId ⟨uploadName filePath, bytes⟩, .ret job, alive⟩)
    (hdate : job.createdAt ≤ maxMilliseconds) (h' : Service.Reaches Service.anyEvent σ σ')
    (hfits : ∀ row ∈ σ'.shared.jobs, row.key = job.key → RowFits row) :
    Execution.fileFilter (uploadName filePath) = true ∧
    submitCode D (.ok (Execution.responseBody D.text (Execution.createdAnswer job).fields)) =
      .ok ⟨job.id, js "QUEUED", (job.createdAt : Int) * 1000⟩ ∧
    ∀ (database : Database C.ulid) (requester : JsString),
      (database.same userId requester = true →
        ∃ row ∈ σ'.shared.jobs, row.key = job.key ∧ row.createdAt = job.createdAt ∧
          ∃ log ∈ σ'.shared.logsOf job.id, ∃ read : ExecutionJob,
            getJobStatus D (respond D requester job.id ⟨σ', database⟩) = .ok read ∧
              ShowsRow row read ∧ read.status = log.status.text) ∧
      (database.same userId requester = false →
        getJobStatus D (respond D requester job.id ⟨σ', database⟩) =
          .error (D.badResponse (.notFound (js "Execution job not found")))) := by
  obtain ⟨views, hab⟩ := Execution.abides_of_run h
  obtain ⟨hheader, rfl⟩ := Execution.row_of_created (Execution.regular_of_reaches h).1 hab hp
  have hreach := h.trans h'
  obtain ⟨l, hl⟩ := Execution.headers_of_reaches h'
  have hlater : job.header ∈ σ'.shared.headers := by
    rw [hl]
    exact List.mem_append_left _ hheader
  obtain ⟨row, hrow, hrowHeader⟩ := List.mem_map.mp hlater
  have hkey : row.key = job.key := congrArg Prod.fst hrowHeader
  have hid : row.id = job.id := congrArg Execution.JobKey.id hkey
  have huserId : row.userId = job.userId := congrArg Execution.JobKey.userId hkey
  refine ⟨fileFilter_uploadName hpath, submitCode_body hdate, fun database requester =>
    ⟨fun huser => ?_, fun huser => ?_⟩⟩
  · rw [← huserId] at huser
    obtain ⟨read, hread, hshows, hstatus⟩ :=
      getJobStatus_own hD hreach hrow (hfits row hrow hkey) huser
    obtain ⟨log, hlog, hreported⟩ := reportedStatus_of_row hreach hrow database
    rw [hreported] at hstatus
    rw [hid] at hlog hread
    exact ⟨row, hrow, hkey, congrArg Prod.snd hrowHeader, log, hlog, read, hread, hshows, hstatus⟩
  · rw [← huserId] at huser
    rw [respond, ← hid, Execution.showJob_other (Execution.regular_of_reaches hreach).1.2.1 hrow huser]
    rfl

/-- The row of the first upload, with what has been saved of its result. -/
def firstRow (output : Option JsString) (exitCode : Option Int) (completedAt : Option Nat) :
    Execution.ExecutionJob :=
  ⟨js "1", js "ann", js "0.dart", 0, output, none, exitCode, completedAt⟩

theorem rowFits_firstRow (output : Option JsString) {exitCode : Option Int}
    {completedAt : Option Nat} (hcode : ∀ code ∈ exitCode, code.natAbs < 2147483648)
    (hdate : ∀ t ∈ completedAt, t ≤ maxMilliseconds) :
    RowFits (firstRow output exitCode completedAt) :=
  ⟨Nat.zero_le _, hdate, hcode⟩

theorem submitted_job_is_followed_first_upload :
    ∃ (σ : (services Config.plain).Sys) (job : Execution.ExecutionJob),
      Service.run (start Config.plain) Execution.firstUpload = some σ ∧
      submitCode intRuntime (.ok (Execution.responseBody intRuntime.text
        (Execution.createdAnswer job).fields)) = .ok ⟨js "1", js "QUEUED", 0⟩ ∧
      (∃ read : ExecutionJob, getJobStatus intRuntime
        (respond intRuntime (js "ann") (js "1") ⟨σ, Database.plain _⟩) = .ok read ∧
          ShowsRow (firstRow none none none) read) ∧
      getJobStatus intRuntime (respond intRuntime (js "bob") (js "1") ⟨σ, Database.plain _⟩) =
        .error (js "DioException [bad response]: status code of 404") := by
  have huploaded : (Service.run (start Config.plain) Execution.firstUpload).map
      (fun σ => (σ.shared.jobs, (σ.procs[0]?).map fun p => (p.call, decide p.prog.Returned))) =
      some ([firstRow none none none],
        some (.createExecutionJob (js "ann") ⟨js "main.dart", [118]⟩, true)) := by
    decide +kernel
  obtain ⟨σ, hσ, hall⟩ := Option.map_eq_some_iff.mp huploaded
  obtain ⟨hjobs, hp⟩ := Prod.mk.inj hall
  obtain ⟨⟨call, prog, alive⟩, hget, hboth⟩ := Option.map_eq_some_iff.mp hp
  obtain ⟨rfl, hdone⟩ := Prod.mk.inj hboth
  have hreach : Service.Reaches Service.anyEvent (start Config.plain) σ :=
    Service.reaches_of_run hσ fun _ _ _ => trivial
  cases prog with
  | ret job =>
    obtain ⟨views, hab⟩ := Execution.abides_of_run hreach
    obtain ⟨hheader, -⟩ := Execution.row_of_created (Execution.regular_of_reaches hreach).1 hab hget
    have hfirst : job.header = (firstRow none none none).header := by
      rw [Execution.World.headers, hjobs] at hheader
      exact List.mem_singleton.mp hheader
    have hdate : job.createdAt = 0 := congrArg Prod.snd hfirst
    have hid : job.id = js "1" := congrArg (fun header => header.1.id) hfirst
    have hrows : ∀ row ∈ σ.shared.jobs, row.key = job.key → RowFits row := by
      intro row hrow _
      rw [hjobs] at hrow
      obtain rfl := List.mem_singleton.mp hrow
      exact rowFits_firstRow none (by simp) (by simp)
    have hpath : pathError (js "bin/main.dart") true = none := by decide
    obtain ⟨-, hcreated, hread⟩ := submitted_job_is_followed (D := intRuntime) exact_intRuntime hpath
      hreach hget (by rw [hdate]; exact Nat.zero_le _) .refl hrows
    rw [hid, hdate] at hcreated
    rw [hid] at hread
    obtain ⟨row, hrow, -, -, -, -, read, hok, hshows, -⟩ :=
      (hread (Database.plain _) (js "ann")).1 rfl
    rw [hjobs] at hrow
    obtain rfl := List.mem_singleton.mp hrow
    exact ⟨σ, job, hσ, hcreated, ⟨read, hok, hshows⟩,
      (hread (Database.plain _) (js "bob")).2 (by decide)⟩
  | fail e => exact absurd (of_decide_eq_true hdone) id
  | await c k => exact absurd (of_decide_eq_true hdone) id
  | sync o k => exact absurd (of_decide_eq_true hdone) id

/-! ### A run of polls -/

theorem Follows.from_nil {l p : List ExecutionJobStatus} {jobs : List ExecutionJob}
    (h : Follows l p jobs) : Follows l [] jobs := by
  cases h with
  | nil => exact .nil
  | cons grows upTo last shows rest => exact .cons (List.nil_prefix) upTo last shows rest

/-- The row of a key in a later state. -/
theorem mem_keys_of_reaches (h : Service.Reaches Service.anyEvent σ σ')
    {k : Execution.JobKey} (hk : k ∈ σ.shared.keys) : k ∈ σ'.shared.keys := by
  obtain ⟨l, hl⟩ := Execution.headers_of_reaches h
  rw [Execution.keys_eq] at hk ⊢
  rw [hl, List.map_append]
  exact List.mem_append_left _ hk

/-- Whoever polls for a job that is delivered once. -/
structure Polling.Fits (σ' : (services C).Sys) (polls : List (Poll C)) (k : Execution.JobKey) :
    Prop where
  once : DeliveredOnce σ' k.id
  spaced : Spaced (σ'.shared.logsOf k.id)
  rows : ∀ poll ∈ polls, ∀ row ∈ poll.state.shared.jobs, row.key = k → RowFits row

/-- **The answers of a run follow the history of the job.** -/
theorem follows_polls (hD : D.Exact) {polls : List (Poll C)} (hpolls : Polled σ polls σ')
    (h : Service.Reaches Service.anyEvent (start C) σ) {k : Execution.JobKey}
    (hk : k ∈ σ.shared.keys) (hfits : Polling.Fits σ' polls k) :
    ∃ jobs : List ExecutionJob,
      polls.map (fun poll => getJobStatus D (respond D k.userId k.id poll)) = jobs.map .ok ∧
      List.Forall₂ (fun (poll : Poll C) job => ∃ row ∈ poll.state.shared.jobs, row.key = k ∧
        ShowsRow row job) polls jobs ∧
      Follows ((σ'.shared.logsOf k.id).map ExecutionJobStatusLog.status)
        ((σ.shared.logsOf k.id).map ExecutionJobStatusLog.status) jobs := by
  induction hpolls with
  | nil goes => exact ⟨[], rfl, .nil, .nil⟩
  | @cons σ σ' poll polls goes rest ih =>
    have hpoll := h.trans goes
    obtain ⟨row, hrow, hkey⟩ := List.mem_map.mp (mem_keys_of_reaches goes hk)
    have hgrown := Execution.logsOf_of_reaches rest.reaches k.id
    have hlinked := (Execution.regular_of_reaches hpoll).1.1
    have hlinked' := (Execution.regular_of_reaches (hpoll.trans rest.reaches)).1.1
    have hone := hfits.once.before hlinked hlinked' rest.reaches
    obtain ⟨job, hjob, hshows, status, hlast, hstatus⟩ : ∃ job,
        getJobStatus D (respond D k.userId k.id poll) = .ok job ∧ ShowsRow row job ∧ ∃ status,
          ((poll.state.shared.logsOf k.id).map ExecutionJobStatusLog.status).getLast? =
            some status ∧ job.status = status.text := by
      subst hkey
      exact getJobStatus_poll hD hpoll hrow hone (hfits.spaced.of_isPrefix hgrown)
        (hfits.rows poll (List.mem_cons_self ..) row hrow rfl) poll.database
    obtain ⟨jobs, hjobs, hall, hfollows⟩ := ih hpoll (mem_keys_of_reaches goes hk)
      ⟨hfits.once, hfits.spaced, fun poll' hmem => hfits.rows poll' (List.mem_cons_of_mem _ hmem)⟩
    refine ⟨job :: jobs, ?_, .cons ⟨row, hrow, hkey, hshows⟩ hall, ?_⟩
    · rw [List.map_cons, List.map_cons, hjob, hjobs]
    · exact .cons ((Execution.logsOf_of_reaches goes k.id).map _) (hgrown.map _) hlast hstatus
        hfollows

/-- **What the menu item prints of a job.**  While a job is delivered at most once, and no two of its
entries have the same time, whoever polls for it, at any times of a run of the services and whatever
order the database gives the entries in, is printed a part of the history `QUEUED` and one course,
in its order and nothing twice; each answer has what was in the row when it was given, and polling
ends with the first terminal status that is seen, or after sixty answers without one. -/
theorem run_code_follows_job (hD : D.Exact)
    (h : Service.Reaches Service.anyEvent (start C) σ) (hrow : row ∈ σ.shared.jobs)
    {polls : List (Poll C)} (hpolls : Polled σ polls σ') (hfits : Polling.Fits σ' polls row.key) :
    ∃ w ∈ courses, (σ'.shared.logsOf row.id).map ExecutionJobStatusLog.status = .QUEUED :: w ∧
    ∃ (jobs : List ExecutionJob) (shown : List ExecutionJobStatus)
      (result : Option (Except JsString ExecutionJob)),
      List.Forall₂ (fun (poll : Poll C) job => ∃ row' ∈ poll.state.shared.jobs,
        row'.key = row.key ∧ ShowsRow row' job) polls jobs ∧
      shown.Sublist (.QUEUED :: w) ∧ EndsWith 60 jobs shown result ∧
      ∀ (filePath : JsString) (created : ExecutionJobCreated), pathError filePath true = none →
        runCode true filePath true (.ok created)
          (polls.map fun poll => getJobStatus D (respond D row.userId row.id poll)) =
          printHeader (js "코드 실행") ++ printInfo (js "파일 업로드 중...") ::
            (submittedLines created ++ shown.map (fun status => statusLine status.text) ++
              endingLines result) := by
  have hreach := h.trans hpolls.reaches
  obtain ⟨views, hab⟩ := Execution.abides_of_run hreach
  have hkey : row.key ∈ σ.shared.keys := List.mem_map_of_mem hrow
  have hlater := mem_keys_of_reaches hpolls.reaches hkey
  have hid : row.id ∈ σ'.shared.jobs.map Execution.ExecutionJob.id := by
    rw [Execution.map_id_keys]
    exact List.mem_map_of_mem hlater
  have hprogress := Execution.progress_of_single (Execution.regular_of_reaches hreach).1 hab.shared
    hid hfits.once
  obtain ⟨w, hw, hcourse⟩ := hprogress.course
  obtain ⟨jobs, hjobs, hall, hfollows⟩ := follows_polls hD hpolls h hkey hfits
  have hfirst : PrintedLast [] ([] : JsString) := rfl
  obtain ⟨shown, hsub, hchanges, hends⟩ := follows_poll hfollows.from_nil hfirst 60
  have hcourse' : (σ'.shared.logsOf row.key.id).map ExecutionJobStatusLog.status = .QUEUED :: w :=
    hcourse
  rw [hcourse'] at hsub
  refine ⟨w, hw, hcourse, jobs, shown, _, hall, hsub, hends, fun filePath created hpath => ?_⟩
  rw [runCode_submitted hpath, show polls.map (fun poll =>
    getJobStatus D (respond D row.userId row.id poll)) = jobs.map .ok from hjobs, hchanges,
    List.map_map]
  rfl

/-- The rest of the delivery; the program ends at once. -/
def finishedExecution : List (services Config.plain).Event :=
  [.resume 1 .done, .resume 1 .done, .env (.exits 0 0), .resume 1 .done, .resume 1 .done,
    .resume 1 .done, .env (.tick 1), .resume 1 .done, .resume 1 .done]

theorem run_code_follows_job_three_polls :
    ∃ (σ σ' : (services Config.plain).Sys) (polls : List (Poll Config.plain)),
      Service.run (start Config.plain) Execution.firstUpload = some σ ∧
      polls.length = 3 ∧ Polled σ polls σ' ∧
      ∃ (jobs : List ExecutionJob) (shown : List ExecutionJobStatus)
        (result : Option (Except JsString ExecutionJob)),
        shown.Sublist [.QUEUED, .READY, .RUNNING, .FINISHED_WITH_SUCCESS] ∧
        EndsWith 60 jobs shown result ∧
        runCode true (js "bin/main.dart") true (.ok ⟨js "1", js "QUEUED", 0⟩)
          (polls.map fun poll => getJobStatus intRuntime
            (respond intRuntime (js "ann") (js "1") poll)) =
          printHeader (js "코드 실행") ++ printInfo (js "파일 업로드 중...") ::
            (submittedLines ⟨js "1", js "QUEUED", 0⟩ ++
              shown.map (fun status => statusLine status.text) ++ endingLines result) := by
  have huploaded : (Service.run (start Config.plain) Execution.firstUpload).map
      (fun σ => σ.shared.jobs) = some [firstRow none none none] := by
    decide +kernel
  have hstarted : (Service.run (start Config.plain) Execution.startedExecution).map
      (fun σ => σ.shared.jobs) = some [firstRow none none none] := by
    decide +kernel
  have hfinished : (Service.run (start Config.plain)
      (Execution.startedExecution ++ finishedExecution)).map (fun σ =>
        (σ.procs.map Service.Proc.call, σ.shared.jobs,
          (σ.shared.logsOf (js "1")).map fun log => (log.status, log.createdAt))) =
      some ([.createExecutionJob (js "ann") ⟨js "main.dart", [118]⟩, .processJob (js "1")],
        [firstRow (some []) (some 0) (some 2)],
        [(.QUEUED, 0), (.READY, 1), (.RUNNING, 2), (.FINISHED_WITH_SUCCESS, 3)]) := by
    decide +kernel
  obtain ⟨σ₂, hrun₂, hall⟩ := Option.map_eq_some_iff.mp hfinished
  obtain ⟨hcalls, hall⟩ := Prod.mk.inj hall
  obtain ⟨hjobs₂, hlogs⟩ := Prod.mk.inj hall
  rw [Service.run_append] at hrun₂
  obtain ⟨σ₁, hrun₁, hfinish⟩ := Option.bind_eq_some_iff.mp hrun₂
  rw [hrun₁] at hstarted
  have hjobs₁ : σ₁.shared.jobs = [firstRow none none none] := Option.some.inj hstarted
  rw [Execution.startedExecution, Service.run_append] at hrun₁
  obtain ⟨σ, hσ, hstart⟩ := Option.bind_eq_some_iff.mp hrun₁
  rw [hσ] at huploaded
  have hjobs : σ.shared.jobs = [firstRow none none none] := Option.some.inj huploaded
  have hpolls : Polled σ [⟨σ, Database.plain _⟩, ⟨σ₁, Database.plain _⟩, ⟨σ₂, Database.plain _⟩]
      σ₂ :=
    .cons .refl (.cons (Service.reaches_of_run hstart fun _ _ _ => trivial)
      (.cons (Service.reaches_of_run hfinish fun _ _ _ => trivial) (.nil .refl)))
  have hspaced : Spaced (σ₂.shared.logsOf (js "1")) := by
    have htimes := congrArg (List.map Prod.snd) hlogs
    rw [List.map_map] at htimes
    rw [Spaced, show (σ₂.shared.logsOf (js "1")).map ExecutionJobStatusLog.createdAt =
      [0, 1, 2, 3] from htimes]
    decide
  have hopen : RowFits (firstRow none none none) := rowFits_firstRow none (by simp) (by simp)
  have hdone : RowFits (firstRow (some []) (some 0) (some 2)) :=
    rowFits_firstRow (some []) (by decide) (by decide)
  have hrows : ∀ poll ∈ [(⟨σ, Database.plain _⟩ : Poll Config.plain), ⟨σ₁, Database.plain _⟩,
      ⟨σ₂, Database.plain _⟩], ∀ row ∈ poll.state.shared.jobs, RowFits row := by
    simp only [List.forall_mem_cons, hjobs, hjobs₁, hjobs₂]
    simp [hopen, hdone]
  have hrow : firstRow none none none ∈ σ.shared.jobs := by
    rw [hjobs]
    exact List.mem_singleton_self _
  obtain ⟨w, -, hcourse, jobs, shown, result, -, hshown, hends, hprinted⟩ :=
    run_code_follows_job exact_intRuntime (Service.reaches_of_run hσ fun _ _ _ => trivial) hrow
      hpolls ⟨Execution.deliveredOnce_of_nodup (by rw [hcalls]; decide) _, hspaced,
        fun poll hpoll row hmem _ => hrows poll hpoll row hmem⟩
  have hstatuses := congrArg (List.map Prod.fst) hlogs
  rw [List.map_map] at hstatuses
  rw [← hcourse, show (σ₂.shared.logsOf (firstRow none none none).id).map
    ExecutionJobStatusLog.status = _ from hstatuses] at hshown
  exact ⟨σ, σ₂, _, hσ, rfl, hpolls, jobs, shown, result, hshown, hends,
    hprinted (js "bin/main.dart") ⟨js "1", js "QUEUED", 0⟩ (by decide)⟩

end FullstackSvc.Cli
