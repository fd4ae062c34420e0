import FullstackSvc.Execution.Visible
import FullstackSvc.Store.StableSort

/-!
# The two reports of a status

Both endpoints sort the entries of a job by their time.  `getExecutionJobs` takes
the head of the descending order, `getExecutionJob` the end of the ascending one.
The sort is stable, so of entries with the same time the one takes the first and
the other the last.

* `listedStatus_eq`, `reportedStatus_eq`: **what each of them picks**.
* `reports_agree_iff`: the reports agree exactly when the two have one status.
-/

namespace FullstackSvc.Execution

open Text Store

variable {statuses : List ExecutionJobStatusLog}

/-! ### The list of jobs -/

/-- An item of the answer of `getExecutionJobs`; the status `none` stands for `UNKNOWN`. -/
structure JobSummary where
  id : JsString
  status : Option ExecutionJobStatus
  filePath : JsString
  createdAt : Nat

/-- The status of an item: the head of the descending order. -/
def listedStatus (statuses : List ExecutionJobStatusLog) : Option ExecutionJobStatus :=
  ((statuses.mergeSort fun a b => b.createdAt ≤ a.createdAt).head?).map
    ExecutionJobStatusLog.status

/-- The rows, with their entries in the order of the database. -/
def getExecutionJobs (jobs : List (ExecutionJob × List ExecutionJobStatusLog)) : List JobSummary :=
  jobs.map fun job =>
    { id := job.1.id
      status := listedStatus job.2
      filePath := job.1.filePath
      createdAt := job.1.createdAt }

/-! ### What they pick -/

/-- The entries with the latest time, in the order of the database. -/
def latestEntries (statuses : List ExecutionJobStatusLog) : List ExecutionJobStatusLog :=
  statuses.filter fun a => statuses.all fun b => b.createdAt ≤ a.createdAt

theorem totalPreorder_ascending :
    TotalPreorder fun a b : ExecutionJobStatusLog => decide (a.createdAt ≤ b.createdAt) where
  trans a b c h h' := by
    rw [decide_eq_true_eq] at *
    omega
  total a b := by
    rw [Bool.or_eq_true, decide_eq_true_eq, decide_eq_true_eq]
    omega

theorem totalPreorder_descending :
    TotalPreorder fun a b : ExecutionJobStatusLog => decide (b.createdAt ≤ a.createdAt) where
  trans a b c h h' := by
    rw [decide_eq_true_eq] at *
    omega
  total a b := by
    rw [Bool.or_eq_true, decide_eq_true_eq, decide_eq_true_eq]
    omega

/-- **The list** reports the first of the latest entries. -/
theorem listedStatus_eq (statuses : List ExecutionJobStatusLog) :
    listedStatus statuses = ((latestEntries statuses).head?).map ExecutionJobStatusLog.status := by
  rw [listedStatus, head?_mergeSort totalPreorder_descending]
  rfl

/-- **The detail** reports the last of the latest entries. -/
theorem reportedStatus_eq (statuses : List ExecutionJobStatusLog) :
    reportedStatus statuses =
      ((latestEntries statuses).getLast?).map ExecutionJobStatusLog.status := by
  rw [reportedStatus, latestStatus, getLast?_mergeSort totalPreorder_ascending]
  rfl

/-- The history ends with the status of the detail. -/
theorem statusHistory_getLast? (job : ExecutionJob) (statuses : List ExecutionJobStatusLog) :
    ((getExecutionJob job statuses).statusHistory.getLast?).map Prod.fst =
      (getExecutionJob job statuses).status := by
  show (((statuses.mergeSort _).map _).getLast?).map Prod.fst = reportedStatus statuses
  rw [List.getLast?_map, Option.map_map]
  rfl

/-! ### Agreement -/

/-- **The two reports agree exactly when the latest entries do.**  A job has entries, in some
order of the database.  The status in the list, the status in the detail and the end of the history
are one if and only if the first and the last of the entries with the latest time have the same
status. -/
theorem reports_agree_iff {jobs : List (ExecutionJob × List ExecutionJobStatusLog)} {i : Nat}
    {job : ExecutionJob} {statuses : List ExecutionJobStatusLog}
    (hjob : jobs[i]? = some (job, statuses)) (hne : statuses ≠ []) :
    (∃ item status, (getExecutionJobs jobs)[i]? = some item ∧ item.id = job.id ∧
        item.status = some status ∧ (getExecutionJob job statuses).status = some status ∧
        ((getExecutionJob job statuses).statusHistory.getLast?).map Prod.fst = some status) ↔
      ((latestEntries statuses).head?).map ExecutionJobStatusLog.status =
        ((latestEntries statuses).getLast?).map ExecutionJobStatusLog.status := by
  have hitem : (getExecutionJobs jobs)[i]? =
      some ⟨job.id, listedStatus statuses, job.filePath, job.createdAt⟩ := by
    rw [getExecutionJobs, List.getElem?_map, hjob]
    rfl
  have hdetail : (getExecutionJob job statuses).status = reportedStatus statuses := rfl
  rw [← listedStatus_eq, ← reportedStatus_eq]
  simp only [statusHistory_getLast?, hdetail]
  constructor
  · rintro ⟨item, status, hi, -, hs, hd, -⟩
    obtain rfl := Option.some.inj (hitem.symm.trans hi)
    exact hs.trans hd.symm
  · intro h
    have hsome : reportedStatus statuses ≠ none := by
      intro hnone
      rw [reportedStatus, Option.map_eq_none_iff, latestStatus, List.getLast?_eq_none_iff] at hnone
      have hlen := congrArg List.length hnone
      rw [List.length_mergeSort, List.length_nil] at hlen
      exact hne (List.length_eq_zero_iff.mp hlen)
    obtain ⟨status, hstatus⟩ := Option.ne_none_iff_exists'.mp hsome
    exact ⟨_, status, hitem, rfl, h.trans hstatus, hstatus, hstatus⟩

/-- A job of ann's without a result. -/
def newJob : ExecutionJob := ⟨js "1", js "ann", js "0.dart", 0, none, none, none, none⟩

def queuedEntry : ExecutionJobStatusLog := ⟨js "2", js "1", .QUEUED, 0⟩

def readyEntry : ExecutionJobStatusLog := ⟨js "3", js "1", .READY, 5⟩

theorem reports_agree_in_order :
    ∃ item status, (getExecutionJobs [(newJob, [queuedEntry, readyEntry])])[0]? = some item ∧
      item.id = newJob.id ∧ item.status = some status ∧
      (getExecutionJob newJob [queuedEntry, readyEntry]).status = some status ∧
      ((getExecutionJob newJob [queuedEntry, readyEntry]).statusHistory.getLast?).map Prod.fst =
        some status := by
  refine (reports_agree_iff ?_ ?_).mpr ?_
  · rfl
  · exact List.cons_ne_nil _ _
  · decide

/-- The worker saves two entries within a millisecond. -/
theorem reports_differ_on_tie :
    (getExecutionJobs [(newJob, [queuedEntry, readyEntry, ⟨js "4", js "1", .RUNNING, 5⟩])]).map
        JobSummary.status = [some .READY] ∧
      (getExecutionJob newJob
        [queuedEntry, readyEntry, ⟨js "4", js "1", .RUNNING, 5⟩]).status = some .RUNNING := by
  constructor
  · show [listedStatus _] = _
    rw [listedStatus_eq]
    decide
  · show reportedStatus _ = _
    rw [reportedStatus_eq]
    decide

end FullstackSvc.Execution
