import FullstackSvc.Async.Typestate
import FullstackSvc.Execution.Reachable
import FullstackSvc.Text.DrawnIds

/-!
# Who writes which entry of a job

An entry of a status log carries an id, and an id has one owner, so every entry has one
writer.  `World.entriesOf` are the entries that one process has written, over all jobs.

A `View` is what a process knows of itself: its request, the id that it has drawn last, the
time that it has read last, its open transaction and what it has written.  `jobTypestate`
says what it may do next; in particular a delivery may only go on with one of the nine
`courses`.

* `does_processJob`, `does_createExecutionJob`: the two programs obey.
-/

namespace FullstackSvc.Execution

open Text Async

variable {C : Config} {pid : Nat} {s s' : World}

/-! ### Writers -/

instance (C : Config) (s : World) (pid : Nat) (id : JsString) : Decidable (s.Owns C pid id) :=
  inferInstanceAs (Decidable (C.ulid.Drew s.drawnBy pid id))

/-- The entries that a process has written, in their order. -/
def World.entriesOf (C : Config) (s : World) (pid : Nat) : List ExecutionJobStatusLog :=
  C.ulid.rowsOf s.drawnBy ExecutionJobStatusLog.id pid s.logs

/-- The statuses that one delivery of a job writes, in their order. -/
def courses : List (List ExecutionJobStatus) :=
  [[], [.READY], [.READY, .RUNNING],
    [.READY, .RUNNING, .FINISHED_WITH_SUCCESS],
    [.READY, .RUNNING, .FINISHED_WITH_ERROR],
    [.READY, .RUNNING, .FINISHED_WITH_ERROR, .FAILED],
    [.FAILED], [.READY, .FAILED], [.READY, .RUNNING, .FAILED]]

/-- The courses of a delivery that has returned. -/
def returnedCourses : List (List ExecutionJobStatus) :=
  [[.READY, .RUNNING, .FINISHED_WITH_SUCCESS], [.READY, .RUNNING, .FINISHED_WITH_ERROR]]

/-- The courses that end where the handler takes over. -/
def caughtCourses : List (List ExecutionJobStatus) :=
  [[], [.READY], [.READY, .RUNNING], [.READY, .RUNNING, .FINISHED_WITH_ERROR]]

/-- The courses of a delivery that has thrown. -/
def thrownCourses : List (List ExecutionJobStatus) :=
  caughtCourses ++ caughtCourses.map (· ++ [.FAILED])

theorem courses_of_caught : ∀ w ∈ caughtCourses, w ++ [ExecutionJobStatus.FAILED] ∈ courses := by
  decide

theorem thrown_of_caught {w : List ExecutionJobStatus} (h : w ∈ caughtCourses) :
    w ∈ thrownCourses ∧ w ++ [.FAILED] ∈ thrownCourses :=
  ⟨List.mem_append_left _ h, List.mem_append_right _ (List.mem_map_of_mem h)⟩

/-! ### Views -/

/-- What a process knows of itself. -/
structure View where
  request : Option Request
  /-- The id that it has drawn last, and not used. -/
  fresh : Option JsString
  /-- The time that it has read last. -/
  clock : Nat
  pending : Transaction
  written : List ExecutionJobStatusLog
  committed : List ExecutionJob

/-- The view of a number that no process has yet. -/
def View.initial : View := ⟨none, none, 0, ⟨[], []⟩, [], []⟩

def View.statuses (v : View) : List ExecutionJobStatus := v.written.map ExecutionJobStatusLog.status

/-- What a process may do next. -/
def View.allows (v : View) : Cmd → Prop
  | .startTransaction => v.written = []
  | .insertJob row => (∃ file, v.request = some (.createExecutionJob row.userId file)) ∧
      v.fresh = some row.id ∧ v.pending = ⟨[], []⟩ ∧ v.written = []
  | .insertStatusLog row => (∃ job, v.pending = ⟨[job], []⟩ ∧ row.jobId = job.id) ∧
      row.status = .QUEUED ∧ v.fresh = some row.id ∧ row.createdAt = v.clock ∧ v.written = []
  | .commitTransaction => (∃ job log, v.pending = ⟨[job], [log]⟩) ∧ v.written = []
  | .saveStatusLog row => v.request = some (.processJob row.jobId) ∧ v.fresh = some row.id ∧
      row.createdAt = v.clock ∧ v.statuses ++ [row.status] ∈ courses
  | _ => True

/-- What becomes of the view when a command has succeeded. -/
def View.succeeded (v : View) : Cmd → View
  | .startTransaction => { v with pending := ⟨[], []⟩ }
  | .rollbackTransaction => { v with pending := ⟨[], []⟩ }
  | .insertJob row =>
    { v with fresh := none, pending := ⟨v.pending.jobs ++ [row], v.pending.logs⟩ }
  | .insertStatusLog row =>
    { v with fresh := none, pending := ⟨v.pending.jobs, v.pending.logs ++ [row]⟩ }
  | .commitTransaction =>
    { v with
      pending := ⟨[], []⟩
      written := v.written ++ v.pending.logs
      committed := v.committed ++ v.pending.jobs }
  | .saveStatusLog row => { v with fresh := none, written := v.written ++ [row] }
  | _ => v

/-- A command that fails has done nothing. -/
def jobTypestate : Typestate sig JsError View where
  allows := View.allows
  answered v c
    | .ok _ => v.succeeded c
    | .error _ => v
  computed v
    | .ulid, id => { v with fresh := some id }
    | .now, t => { v with clock := t }

/-! ### The worker obeys -/

/-- A delivery of the job that has written these statuses. -/
def At (jobId : JsString) (w : List ExecutionJobStatus) (v : View) : Prop :=
  v.request = some (.processJob jobId) ∧ v.statuses = w

/-- A delivery of the job that is on one of the courses. -/
def On (jobId : JsString) (ws : List (List ExecutionJobStatus)) (v : View) : Prop :=
  ∃ w ∈ ws, At jobId w v

theorem At.on {jobId : JsString} {w : List ExecutionJobStatus} {ws : List (List ExecutionJobStatus)}
    {v : View} (h : At jobId w v) (hw : w ∈ ws) : On jobId ws v := ⟨w, hw, h⟩

/-- A command that the view does not speak of. -/
def Cmd.Plain (c : Cmd) : Prop := ∀ v : View, v.allows c ∧ v.succeeded c = v

/-- A call of the worker that is not a save. -/
theorem does_await {K : View → Prop} {c : Cmd} (hc : c.Plain) :
    jobTypestate.Does K (await c) (fun _ => K) fun _ => K :=
  .call (fun v _ => (hc v).1) (fun v a hv => by
    show K (v.succeeded c)
    rwa [(hc v).2]) fun v e hv => hv

theorem does_createStatusLog {jobId : JsString} {w : List ExecutionJobStatus}
    {status : ExecutionJobStatus} (hw : w ++ [status] ∈ courses) :
    jobTypestate.Does (At jobId w) (createStatusLog jobId status)
      (fun _ => At jobId (w ++ [status])) fun _ => At jobId w := by
  refine .bind (fun id v => At jobId w v ∧ v.fresh = some id) (.op fun v id hv => ⟨hv, rfl⟩)
    fun id => ?_
  refine .bind (fun t v => At jobId w v ∧ v.fresh = some id ∧ v.clock = t)
    (.op fun v t hv => ⟨hv.1, hv.2, rfl⟩) fun t => ?_
  refine .call ?_ ?_ fun v e hv => hv.1
  · rintro v ⟨⟨hrequest, hstatuses⟩, hfresh, hclock⟩
    refine ⟨hrequest, hfresh, hclock.symm, ?_⟩
    rw [hstatuses]
    exact hw
  · rintro v a ⟨⟨hrequest, hstatuses⟩, -, -⟩
    refine ⟨hrequest, ?_⟩
    show (v.written ++ [_]).map ExecutionJobStatusLog.status = _
    rw [List.map_append]
    exact congrArg (· ++ [status]) hstatuses

theorem does_updateResult {K : View → Prop} (hK : ∀ v t, K v → K { v with clock := t })
    {jobId : JsString} {output error : Option JsString} {exitCode : Int} :
    jobTypestate.Does K (updateResult jobId output error exitCode) (fun _ => K) fun _ => K :=
  .bind (fun _ => K) (.op fun v t hv => hK v t hv) fun _ => does_await fun _ => ⟨trivial, rfl⟩

/-- The race, and its handler: it throws after its entry, or before. -/
theorem does_raceWithTimeout {jobId : JsString} {n : Nat} :
    jobTypestate.Does (At jobId [.READY, .RUNNING]) (raceWithTimeout jobId n)
      (fun _ => At jobId [.READY, .RUNNING]) fun _ => On jobId caughtCourses := by
  have hcaught : ∀ v, At jobId [.READY, .RUNNING] v → On jobId caughtCourses v :=
    fun v hv => hv.on (by decide)
  refine .handle _ (does_await fun _ => ⟨trivial, rfl⟩) fun e => ?_
  refine .bind _ (.handle _ (does_await fun _ => ⟨trivial, rfl⟩) fun _ => .ret fun _ hv => hv)
    fun _ => ?_
  refine .bind _ (.handle _ (does_await fun _ => ⟨trivial, rfl⟩) fun _ => .ret fun _ hv => hv)
    fun _ => ?_
  refine .bind _ ((does_updateResult fun v t hv => hv).mono (fun _ hv => hv) (fun _ _ hv => hv)
    fun _ => hcaught) fun _ => ?_
  refine .bind _ ((does_createStatusLog (by decide)).mono (fun _ hv => hv) (fun _ _ hv => hv)
    fun _ => hcaught) fun _ => ?_
  exact .fail fun v hv => hv.on (by decide)

theorem does_saveResult {jobId output : JsString} {exitCode : Int} :
    jobTypestate.Does (At jobId [.READY, .RUNNING]) (saveResult jobId output exitCode)
      (fun _ => On jobId returnedCourses) fun _ => At jobId [.READY, .RUNNING] := by
  rw [saveResult]
  split
  · refine .bind _ (does_updateResult fun v t hv => hv) fun _ => ?_
    exact (does_createStatusLog (by decide)).mono (fun _ hv => hv)
      (fun _ v hv => hv.on (by decide)) fun _ _ hv => hv
  · refine .bind _ (does_updateResult fun v t hv => hv) fun _ => ?_
    exact (does_createStatusLog (by decide)).mono (fun _ hv => hv)
      (fun _ v hv => hv.on (by decide)) fun _ _ hv => hv

theorem does_runContainer {jobId : JsString} {row : ExecutionJob} :
    jobTypestate.Does (At jobId [.READY, .RUNNING]) (runContainer jobId row)
      (fun _ => On jobId returnedCourses) fun _ => On jobId caughtCourses := by
  have hcaught : ∀ v, At jobId [.READY, .RUNNING] v → On jobId caughtCourses v :=
    fun v hv => hv.on (by decide)
  have hplain : ∀ {c : Cmd}, c.Plain → jobTypestate.Does (At jobId [.READY, .RUNNING]) (await c)
      (fun _ => At jobId [.READY, .RUNNING]) fun _ => On jobId caughtCourses := fun hc =>
    (does_await hc).mono (fun _ hv => hv) (fun _ _ hv => hv) fun _ => hcaught
  refine .bind _ (hplain fun _ => ⟨trivial, rfl⟩) fun n => ?_
  refine .bind _ (hplain fun _ => ⟨trivial, rfl⟩) fun _ => .bind _ does_raceWithTimeout fun code => ?_
  refine .bind _ (hplain fun _ => ⟨trivial, rfl⟩) fun logs => ?_
  refine .bind _ (hplain fun _ => ⟨trivial, rfl⟩) fun _ => ?_
  exact does_saveResult.mono (fun _ hv => hv) (fun _ _ hv => hv) fun _ => hcaught

theorem does_executeJob {jobId : JsString} :
    jobTypestate.Does (At jobId []) (executeJob C jobId) (fun _ => On jobId returnedCourses)
      fun _ => On jobId caughtCourses := by
  refine .bind (fun _ => At jobId []) ((does_await (c := .findJob jobId)
    fun _ => ⟨trivial, rfl⟩).mono (fun _ hv => hv) (fun _ _ hv => hv)
    fun _ v hv => hv.on (by decide)) fun found => ?_
  cases found with
  | none => exact .fail fun v hv => hv.on (by decide)
  | some row =>
    refine .bind (fun _ => At jobId [.READY]) ((does_createStatusLog (by decide)).mono
      (fun _ hv => hv) (fun _ _ hv => hv) fun _ v hv => hv.on (by decide)) fun _ => ?_
    refine .bind _ ((does_await (c := .access (join C.basePath row.filePath))
      fun _ => ⟨trivial, rfl⟩).mono (fun _ hv => hv) (fun _ _ hv => hv)
      fun _ v hv => hv.on (by decide)) fun _ => ?_
    refine .bind _ ((does_createStatusLog (by decide)).mono
      (fun _ hv => hv) (fun _ _ hv => hv) fun _ v hv => hv.on (by decide)) fun _ => ?_
    exact does_runContainer

/-- **The worker stays on one of the courses.** -/
theorem does_processJob {jobId : JsString} :
    jobTypestate.Does (At jobId []) (processJob C jobId) (fun _ => On jobId returnedCourses)
      fun _ => On jobId thrownCourses := by
  refine .handle _ does_executeJob fun e => ?_
  refine .bind (fun _ => On jobId caughtCourses) ((does_updateResult fun v t hv => hv).mono
    (fun _ hv => hv) (fun _ _ hv => hv) ?_) fun _ => ?_
  · rintro e v ⟨w, hw, hv⟩
    exact hv.on (thrown_of_caught hw).1
  · refine .bind (fun _ => On jobId thrownCourses) ?_ fun _ => .fail fun v hv => hv
    rintro v ⟨w, hw, hv⟩
    exact ((does_createStatusLog (courses_of_caught w hw)).mono (fun _ hv => hv)
      (fun _ v hv => hv.on (thrown_of_caught hw).2)
      fun _ v hv => hv.on (thrown_of_caught hw).1) v hv

/-! ### The upload obeys -/

/-- An upload that has not committed, with this transaction open. -/
def Opened (userId : JsString) (file : UploadedFile) (pending : Transaction) (v : View) : Prop :=
  v.request = some (.createExecutionJob userId file) ∧ v.pending = pending ∧ v.written = []

/-- An upload that has not committed. -/
def Uncommitted (userId : JsString) (file : UploadedFile) (v : View) : Prop :=
  v.request = some (.createExecutionJob userId file) ∧ v.written = []

/-- An upload that has committed the `QUEUED` entry of the job. -/
def Queued (jobId : JsString) (v : View) : Prop :=
  ∃ log, v.written = [log] ∧ log.jobId = jobId ∧ log.status = .QUEUED

/-- An upload that has committed the row of the job, too. -/
def Submitted (job : ExecutionJob) (v : View) : Prop := Queued job.id v ∧ job ∈ v.committed

variable {userId : JsString} {file : UploadedFile}

theorem does_insertNewJob {relativeFilePath : JsString} :
    jobTypestate.Does (Opened userId file ⟨[], []⟩) (insertNewJob userId relativeFilePath)
      (fun job v => ∃ log, log.jobId = job.id ∧ log.status = .QUEUED ∧
        Opened userId file ⟨[job], [log]⟩ v)
      fun _ => Uncommitted userId file := by
  have huncommitted : ∀ {pending v}, Opened userId file pending v → Uncommitted userId file v :=
    fun hv => ⟨hv.1, hv.2.2⟩
  refine .bind (fun id v => Opened userId file ⟨[], []⟩ v ∧ v.fresh = some id)
    (.op fun v id hv => ⟨hv, rfl⟩) fun jobId => ?_
  refine .bind (fun t v => Opened userId file ⟨[], []⟩ v ∧ v.fresh = some jobId ∧ v.clock = t)
    (.op fun v t hv => ⟨hv.1, hv.2, rfl⟩) fun now => ?_
  refine .bind (fun _ v => Opened userId file
    ⟨[⟨jobId, userId, relativeFilePath, now, none, none, none, none⟩], []⟩ v ∧ v.clock = now)
    (.call ?_ ?_ fun v e hv => huncommitted hv.1) fun _ => ?_
  · rintro v ⟨⟨hrequest, hpending, hwritten⟩, hfresh, -⟩
    exact ⟨⟨file, hrequest⟩, hfresh, hpending, hwritten⟩
  · rintro v a ⟨⟨hrequest, hpending, hwritten⟩, -, hclock⟩
    refine ⟨⟨hrequest, ?_, hwritten⟩, hclock⟩
    show (⟨v.pending.jobs ++ [_], v.pending.logs⟩ : Transaction) = _
    rw [hpending]
    rfl
  · refine .bind (fun logId v => Opened userId file
      ⟨[⟨jobId, userId, relativeFilePath, now, none, none, none, none⟩], []⟩ v ∧
        v.fresh = some logId ∧ v.clock = now) (.op fun v id hv => ⟨hv.1, rfl, hv.2⟩) fun logId => ?_
    refine .bind (fun _ => Opened userId file
      ⟨[⟨jobId, userId, relativeFilePath, now, none, none, none, none⟩],
        [⟨logId, jobId, .QUEUED, now⟩]⟩) (.call ?_ ?_ fun v e hv => huncommitted hv.1) fun _ =>
          .ret fun v hv => ⟨_, rfl, rfl, hv⟩
    · rintro v ⟨⟨hrequest, hpending, hwritten⟩, hfresh, hclock⟩
      exact ⟨⟨_, hpending, rfl⟩, rfl, hfresh, hclock.symm, hwritten⟩
    · rintro v a ⟨⟨hrequest, hpending, hwritten⟩, -, -⟩
      refine ⟨hrequest, ?_, hwritten⟩
      show (⟨v.pending.jobs, v.pending.logs ++ [_]⟩ : Transaction) = _
      rw [hpending]
      rfl

theorem does_transaction {relativeFilePath : JsString} :
    jobTypestate.Does (Uncommitted userId file) (transaction (insertNewJob userId relativeFilePath))
      Submitted fun _ => Uncommitted userId file := by
  refine .handle (fun _ => Uncommitted userId file) ?_ fun e => ?_
  · refine .bind (fun _ => Opened userId file ⟨[], []⟩)
      (.call (fun v hv => hv.2) (fun v a hv => ⟨hv.1, rfl, hv.2⟩) fun v e hv => hv) fun _ => ?_
    refine .bind _ does_insertNewJob fun job => ?_
    refine .bind (fun _ => Submitted job) (.call ?_ ?_ ?_) fun _ => .ret fun v hv => hv
    · rintro v ⟨log, -, -, -, hpending, hwritten⟩
      exact ⟨⟨job, log, hpending⟩, hwritten⟩
    · rintro v a ⟨log, hid, hstatus, -, hpending, hwritten⟩
      refine ⟨⟨log, ?_, hid, hstatus⟩, ?_⟩
      · show v.written ++ v.pending.logs = _
        rw [hwritten, hpending]
        rfl
      · show job ∈ v.committed ++ v.pending.jobs
        rw [hpending]
        exact List.mem_append_right _ (List.mem_singleton_self _)
    · rintro v e ⟨log, -, -, hrequest, -, hwritten⟩
      exact ⟨hrequest, hwritten⟩
  · refine .bind (fun _ => Uncommitted userId file) (.handle (fun _ => Uncommitted userId file) ?_
      fun _ => .ret fun v hv => hv) fun _ => .fail fun v hv => hv
    exact .call (fun _ _ => trivial) (fun v a hv => hv) fun v e hv => hv

/-- **An upload** that returns has written the one entry `QUEUED` of its job; one that throws
has written no other. -/
theorem does_createExecutionJob :
    jobTypestate.Does (Uncommitted userId file) (createExecutionJob C userId file)
      Submitted fun _ v => v.written = [] ∨ ∃ jobId, Queued jobId v := by
  have hplain : ∀ {c : Cmd}, c.Plain → jobTypestate.Does (Uncommitted userId file) (await c)
      (fun _ => Uncommitted userId file) fun _ v => v.written = [] ∨ ∃ jobId, Queued jobId v :=
    fun hc => (does_await hc).mono (fun _ hv => hv) (fun _ _ hv => hv) fun _ _ hv => Or.inl hv.2
  refine .bind (fun _ => Uncommitted userId file) (.op fun v id hv => hv) fun id => ?_
  refine .bind _ (hplain fun _ => ⟨trivial, rfl⟩) fun _ => ?_
  refine .bind (fun _ => Uncommitted userId file) (.bind _ (hplain fun _ => ⟨trivial, rfl⟩) fun _ =>
    hplain fun _ => ⟨trivial, rfl⟩) fun _ => ?_
  refine .bind _ (does_transaction.mono (fun _ hv => hv) (fun _ _ hv => hv)
    fun _ _ hv => Or.inl hv.2) fun job => ?_
  refine .bind (fun _ => Submitted job) ((does_await (c := .addToQueue job.id)
    fun _ => ⟨trivial, rfl⟩).mono (fun _ hv => hv) (fun _ _ hv => hv)
    fun _ v hv => Or.inr ⟨_, hv.1⟩) fun _ => .ret fun v hv => hv

end FullstackSvc.Execution
