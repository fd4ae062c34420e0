import FullstackSvc.Execution.Board
import FullstackSvc.Execution.Reports

/-!
# The jobs of a user

`findExecutionJobsByUserId` and `findExecutionJobById` of `execution.service.ts`, and the
three endpoints of `execution.controller.ts`.  A query compares texts by the collation of
its columns and gives its rows in any order that it is not asked for; `Database` is that
choice.  Ids from `ulid()` are digits and upper case letters, so the collation tells them
apart.

* `headers_of_reaches`: rows stay, in their order, with what they were inserted with.
* `created_job_is_listed`: **a job that was created is its owner's from then on**: listed
  once, found by its id, and hidden from everybody else.
-/

namespace FullstackSvc.Execution

open Text Async

/-! ### The queries -/

/-- What the database decides about a query. -/
structure Database (U : UlidSource) where
  /-- The collation of the columns. -/
  same : JsString → JsString → Bool
  equivalence : Equivalence fun a b => same a b = true
  distinct : ∀ n m, same (U.text n) (U.text m) = true → n = m
  jobs : List ExecutionJob → List ExecutionJob
  jobs_perm : ∀ l, (jobs l).Perm l
  statuses : List ExecutionJobStatusLog → List ExecutionJobStatusLog
  statuses_perm : ∀ l, (statuses l).Perm l

/-- A binary collation, and rows in the order in which they were inserted. -/
def Database.plain (U : UlidSource) : Database U where
  same a b := a = b
  equivalence :=
    ⟨fun _ => decide_eq_true rfl, fun h => decide_eq_true (of_decide_eq_true h).symm,
      fun h h' => decide_eq_true ((of_decide_eq_true h).trans (of_decide_eq_true h'))⟩
  distinct _ _ h := U.injective (of_decide_eq_true h)
  jobs := id
  jobs_perm _ := .refl _
  statuses := id
  statuses_perm _ := .refl _

section Service

variable {U : UlidSource} (D : Database U) (s : World)

/-- `relations: { statuses: true }`. -/
def withStatuses (row : ExecutionJob) : ExecutionJob × List ExecutionJobStatusLog :=
  (row, D.statuses (s.logs.filter fun log => D.same log.jobId row.id))

def findExecutionJobsByUserId (userId : JsString) :
    List (ExecutionJob × List ExecutionJobStatusLog) :=
  ((D.jobs (s.jobs.filter fun row => D.same row.userId userId)).mergeSort
    fun a b => b.createdAt ≤ a.createdAt).map (withStatuses D s)

def findExecutionJobById (jobId userId : JsString) :
    Option (ExecutionJob × List ExecutionJobStatusLog) :=
  (D.jobs (s.jobs.filter fun row => D.same row.id jobId && D.same row.userId userId)).head?.map
    (withStatuses D s)

end Service

/-! ### `execution.controller.ts` -/

inductive HttpException
  | badRequest (message : JsString)
  | notFound (message : JsString)
  deriving DecidableEq

/-- The answer of `createExecutionJob`. -/
structure CreatedAnswer where
  id : JsString
  status : JsString
  createdAt : Nat

/-- `createExecutionJob` of the controller, around the call of the service. -/
def createdAnswer (job : ExecutionJob) : CreatedAnswer :=
  { id := job.id, status := js "QUEUED", createdAt := job.createdAt }

section Controller

variable {U : UlidSource} (D : Database U) (s : World)

/-- `GET /execution-jobs`. -/
def listJobs (requester : JsString) : List JobSummary :=
  getExecutionJobs (findExecutionJobsByUserId D s requester)

/-- `GET /execution-jobs/:jobId`. -/
def showJob (requester jobId : JsString) : Except HttpException JobAnswer :=
  match findExecutionJobById D s jobId requester with
  | none => .error (.notFound (js "Execution job not found"))
  | some (job, statuses) => .ok (getExecutionJob job statuses)

end Controller

/-! ### Rows stay -/

variable {C : Config} {pid : Nat} {s s' : World}

/-- A call adds rows and entries, or none. -/
theorem tables_perform {c : Cmd} {r : Reply} {x : Except JsError (sig.Res c)}
    (h : perform pid c r s = some (x, s')) :
    (∃ l, s'.headers = s.headers ++ l) ∧ ∃ l, s'.logs = s.logs ++ l := by
  have hsame : s'.headers = s.headers → s'.logs = s.logs →
      (∃ l, s'.headers = s.headers ++ l) ∧ ∃ l, s'.logs = s.logs ++ l := fun hh hl =>
    ⟨⟨[], by rw [hh, List.append_nil]⟩, [], by rw [hl, List.append_nil]⟩
  by_cases hc : c.IsSilent
  · exact hsame (silent_perform hc h).headers (silent_perform hc h).logs
  · cases c with
    | startTransaction =>
      rcases perform_startTransaction h with ⟨-, rfl⟩ | ⟨e, -, -, rfl⟩
      · exact hsame rfl rfl
      · exact hsame rfl rfl
    | rollbackTransaction =>
      rcases perform_rollbackTransaction h with ⟨-, rfl⟩ | ⟨e, -, -, rfl⟩
      · exact hsame rfl rfl
      · exact hsame rfl rfl
    | insertJob row =>
      rcases perform_insertJob h with ⟨-, -, rfl⟩ | ⟨e, -, -, rfl⟩
      · exact hsame rfl rfl
      · exact hsame rfl rfl
    | insertStatusLog row =>
      rcases perform_insertStatusLog h with ⟨-, -, rfl⟩ | ⟨e, -, -, rfl⟩
      · exact hsame rfl rfl
      · exact hsame rfl rfl
    | commitTransaction =>
      rcases perform_commitTransaction h with ⟨-, rfl⟩ | ⟨e, -, -, rfl⟩
      · exact ⟨⟨_, List.map_append⟩, _, rfl⟩
      · exact hsame rfl rfl
    | saveStatusLog row =>
      rcases perform_saveStatusLog h with ⟨-, -, rfl⟩ | ⟨e, -, -, rfl⟩
      · exact ⟨⟨[], (List.append_nil _).symm⟩, _, rfl⟩
      · exact hsame rfl rfl
    | _ => exact absurd trivial hc

/-- **Rows stay**, in their order, with what they were inserted with. -/
theorem headers_of_reaches {σ σ' : (services C).Sys}
    (h : Service.Reaches Service.anyEvent σ σ') :
    ∃ l, σ'.shared.headers = σ.shared.headers ++ l := by
  refine Service.inv_of_reaches (J := fun s => ∃ l, s.headers = σ.shared.headers ++ l)
    ?_ ?_ ?_ ?_ ⟨[], (List.append_nil _).symm⟩ h
  · rintro σ₁ pid r c x s - - ⟨l, hl⟩ hp
    obtain ⟨m, hm⟩ := (tables_perform hp).1
    exact ⟨l ++ m, by rw [hm, hl, List.append_assoc]⟩
  · rintro pid o s ⟨l, hl⟩
    cases o with
    | ulid => exact ⟨l, hl⟩
    | now => exact ⟨l, hl⟩
  · rintro pid c s s' ⟨l, hl⟩ ha
    refine ⟨l, ?_⟩
    rw [World.headers, (arrives ha).jobs]
    exact hl
  · rintro σ₁ e s - ⟨l, hl⟩ he
    exact ⟨l, (silent_env he).headers.trans hl⟩

/-- **Entries stay**, in their order. -/
theorem logs_of_reaches {σ σ' : (services C).Sys} (h : Service.Reaches Service.anyEvent σ σ') :
    ∃ l, σ'.shared.logs = σ.shared.logs ++ l := by
  refine Service.inv_of_reaches (J := fun s => ∃ l, s.logs = σ.shared.logs ++ l)
    ?_ ?_ ?_ ?_ ⟨[], (List.append_nil _).symm⟩ h
  · rintro σ₁ pid r c x s - - ⟨l, hl⟩ hp
    obtain ⟨m, hm⟩ := (tables_perform hp).2
    exact ⟨l ++ m, by rw [hm, hl, List.append_assoc]⟩
  · rintro pid o s ⟨l, hl⟩
    cases o with
    | ulid => exact ⟨l, hl⟩
    | now => exact ⟨l, hl⟩
  · rintro pid c s s' ⟨l, hl⟩ ha
    exact ⟨l, (arrives ha).logs.trans hl⟩
  · rintro σ₁ e s - ⟨l, hl⟩ he
    exact ⟨l, (silent_env he).logs.trans hl⟩

/-- **Requests stay**, in their order. -/
theorem calls_of_reaches {σ σ' : (services C).Sys} (h : Service.Reaches Service.anyEvent σ σ') :
    ∃ l, σ'.shared.calls = σ.shared.calls ++ l := by
  refine Service.inv_of_reaches (J := fun s => ∃ l, s.calls = σ.shared.calls ++ l)
    ?_ ?_ ?_ ?_ ⟨[], (List.append_nil _).symm⟩ h
  · rintro σ₁ pid r c x s - - ⟨l, hl⟩ hp
    exact ⟨l, (calls_perform hp).trans hl⟩
  · rintro pid o s ⟨l, hl⟩
    exact ⟨l, (calls_compute pid o s).trans hl⟩
  · rintro pid c s s' ⟨l, hl⟩ ha
    exact ⟨l ++ [c], by rw [(arrives ha).calls, hl, List.append_assoc]⟩
  · rintro σ₁ e s - ⟨l, hl⟩ he
    exact ⟨l, (silent_env he).calls.trans hl⟩

/-! ### What the queries find -/

variable {D : Database C.ulid} {row : ExecutionJob} {requester : JsString}

theorem Database.same_refl (D : Database C.ulid) (a : JsString) : D.same a a = true :=
  D.equivalence.refl a

/-- The collation tells drawn ids apart. -/
theorem Database.eq_of_owns (D : Database C.ulid) {p p' : Nat} {id id' : JsString}
    (h : s.Owns C p id) (h' : s.Owns C p' id') (hs : D.same id id' = true) : id = id' := by
  obtain ⟨n, -, rfl⟩ := h
  obtain ⟨m, -, rfl⟩ := h'
  rw [D.distinct n m hs]

/-- The id of every row was drawn. -/
theorem Sound.owns_row (h : Sound C s) (hrow : row ∈ s.jobs) : ∃ p, s.Owns C p row.id := by
  obtain ⟨p, file, -, hown, -⟩ := h.origin row.key (List.mem_map_of_mem hrow)
  exact ⟨p, hown⟩

/-- A query for the entries of a row finds the entries of its job. -/
theorem statuses_perm (h : Sound C s) (hrow : row ∈ s.jobs) :
    (withStatuses D s row).2.Perm (s.logsOf row.id) := by
  refine (D.statuses_perm _).trans (.of_eq ?_)
  rw [World.logsOf]
  refine List.filter_congr fun log hlog => ?_
  obtain ⟨k, hk, hid⟩ := h.logged log hlog
  obtain ⟨row', hrow', rfl⟩ := List.mem_map.mp hk
  obtain ⟨p, hp⟩ := h.owns_row hrow
  obtain ⟨p', hp'⟩ := h.owns_row hrow'
  have hid : row'.id = log.jobId := hid
  by_cases he : log.jobId = row.id
  · rw [he, D.same_refl, decide_eq_true rfl]
  · rw [decide_eq_false he]
    exact Bool.eq_false_iff.mpr fun hs => he (hid ▸ D.eq_of_owns hp' hp (hid.symm ▸ hs))

/-- Of rows with different ids there is one with an id. -/
theorem filter_id_eq {l : List ExecutionJob} (hnodup : (l.map ExecutionJob.id).Nodup)
    (hrow : row ∈ l) : l.filter (fun r => r.id = row.id) = [row] := by
  induction l with
  | nil => cases hrow
  | cons r l ih =>
    rw [List.map_cons, List.nodup_cons] at hnodup
    rcases List.mem_cons.mp hrow with rfl | hrow
    · rw [List.filter_cons_of_pos (by simp), List.cons.injEq]
      refine ⟨rfl, List.filter_eq_nil_iff.mpr fun r hr he => hnodup.1 ?_⟩
      exact of_decide_eq_true he ▸ List.mem_map_of_mem hr
    · have hne : r.id ≠ row.id := fun he => hnodup.1 (he ▸ List.mem_map_of_mem hrow)
      rw [List.filter_cons_of_neg (by simpa using hne)]
      exact ih hnodup.2 hrow

theorem nodup_ids (h : Sound C s) : (s.jobs.map ExecutionJob.id).Nodup := by
  rw [map_id_keys]
  exact h.nodup

/-- The rows of a user, as the query gives them. -/
theorem userRows_perm (requester : JsString) :
    ((D.jobs (s.jobs.filter fun row => D.same row.userId requester)).mergeSort
      fun a b => b.createdAt ≤ a.createdAt).Perm
        (s.jobs.filter fun row => D.same row.userId requester) :=
  (List.mergeSort_perm _ _).trans (D.jobs_perm _)

/-- **The list of a user** has one item for each of their jobs. -/
theorem listJobs_filter (h : Sound C s) (hrow : row ∈ s.jobs)
    (huser : D.same row.userId requester = true) :
    (listJobs D s requester).filter (fun item => item.id = row.id) =
      [⟨row.id, listedStatus (withStatuses D s row).2, row.filePath, row.createdAt⟩] := by
  rw [listJobs, getExecutionJobs, findExecutionJobsByUserId, List.map_map, List.filter_map]
  have hperm := userRows_perm (D := D) (s := s) requester
  have hnodup : (((D.jobs (s.jobs.filter fun row => D.same row.userId requester)).mergeSort
      fun a b => b.createdAt ≤ a.createdAt).map ExecutionJob.id).Nodup :=
    (hperm.map _).nodup_iff.mpr ((nodup_ids h).sublist (List.filter_sublist.map _))
  have hmem := hperm.mem_iff.mpr (List.mem_filter.mpr ⟨hrow, huser⟩)
  exact congrArg _ (filter_id_eq hnodup hmem)

/-- Whoever is listed a job owns it. -/
theorem mem_listJobs {item : JobSummary} (h : item ∈ listJobs D s requester) :
    ∃ row ∈ s.jobs, row.id = item.id ∧ D.same row.userId requester = true := by
  rw [listJobs, getExecutionJobs, findExecutionJobsByUserId, List.map_map] at h
  obtain ⟨row, hrow, rfl⟩ := List.mem_map.mp h
  obtain ⟨hmem, huser⟩ := List.mem_filter.mp ((userRows_perm requester).mem_iff.mp hrow)
  exact ⟨row, hmem, rfl, huser⟩

/-- **The detail of a job** is shown to its owner. -/
theorem showJob_own (h : Sound C s) (hrow : row ∈ s.jobs)
    (huser : D.same row.userId requester = true) :
    showJob D s requester row.id = .ok (getExecutionJob row (withStatuses D s row).2) := by
  have hone : (s.jobs.filter fun r => D.same r.id row.id && D.same r.userId requester) = [row] := by
    rw [← filter_id_eq (nodup_ids h) hrow]
    refine List.filter_congr fun r hr => ?_
    obtain ⟨p, hp⟩ := h.owns_row hr
    obtain ⟨p', hp'⟩ := h.owns_row hrow
    by_cases he : r.id = row.id
    · obtain rfl : r = row := by
        have hmem : r ∈ s.jobs.filter fun r => r.id = row.id :=
          List.mem_filter.mpr ⟨hr, decide_eq_true he⟩
        rw [filter_id_eq (nodup_ids h) hrow] at hmem
        exact List.mem_singleton.mp hmem
      rw [D.same_refl, huser, decide_eq_true rfl]
      rfl
    · rw [decide_eq_false he, Bool.and_eq_false_imp]
      exact fun hs => absurd (D.eq_of_owns hp hp' hs) he
  have hfound : D.jobs [row] = [row] := List.perm_singleton.mp (D.jobs_perm [row])
  rw [showJob, findExecutionJobById, hone, hfound]
  rfl

/-- Nobody is shown the job of another. -/
theorem showJob_other (h : Sound C s) (hrow : row ∈ s.jobs)
    (huser : D.same row.userId requester = false) :
    showJob D s requester row.id = .error (.notFound (js "Execution job not found")) := by
  have hnil : (s.jobs.filter fun r => D.same r.id row.id && D.same r.userId requester) = [] := by
    refine List.filter_eq_nil_iff.mpr fun r hr hs => ?_
    rw [Bool.and_eq_true] at hs
    obtain ⟨p, hp⟩ := h.owns_row hr
    obtain ⟨p', hp'⟩ := h.owns_row hrow
    have hmem : r ∈ s.jobs.filter fun r => r.id = row.id :=
      List.mem_filter.mpr ⟨hr, decide_eq_true (D.eq_of_owns hp hp' hs.1)⟩
    rw [filter_id_eq (nodup_ids h) hrow] at hmem
    obtain rfl := List.mem_singleton.mp hmem
    rw [huser] at hs
    exact Bool.false_ne_true hs.2
  have hfound : D.jobs [] = [] := List.perm_nil.mp (D.jobs_perm [])
  rw [showJob, findExecutionJobById, hnil, hfound]
  rfl

/-! ### A created job is its owner's -/

/-- The row of a job that a call has created. -/
theorem row_of_created {σ : (services C).Sys} {views : Nat → View} (hreg : Regular σ)
    (h : jobTypestate.Abides (Fitting C) Ends σ views) {userId : JsString} {file : UploadedFile}
    {job : ExecutionJob} {alive : Bool}
    (hp : σ.procs[pid]? = some ⟨.createExecutionJob userId file, .ret job, alive⟩) :
    job.header ∈ σ.shared.headers ∧ job.userId = userId := by
  have hr := h.shared.accounted pid
  have hcall : σ.shared.calls[pid]? = some (.createExecutionJob userId file) := by
    rw [calls_getElem? hreg.1, hp]
    rfl
  obtain ⟨⟨log, hwritten, hid, -⟩, hcommitted⟩ := h.returned hp
  have hheader := hr.committed job hcommitted
  refine ⟨hheader, ?_⟩
  -- the row has its user from the request that drew its id
  obtain ⟨row, hrow, hrowHeader⟩ := List.mem_map.mp hheader
  have hkey : row.key = job.key := congrArg Prod.fst hrowHeader
  obtain ⟨p, file', hcall', hown, -⟩ := hreg.2.1.origin row.key (List.mem_map_of_mem hrow)
  have hlogOwn := hr.created userId file (hr.request.trans hcall) log
    (by rw [hwritten]; exact List.mem_singleton_self _)
  rw [hkey] at hown hcall'
  obtain rfl := owner_unique hown (hid ▸ hlogOwn)
  rw [hcall] at hcall'
  exact (Request.createExecutionJob.inj (Option.some.inj hcall')).1.symm

/-- A job is in a list once, and its owner is shown the detail with one `QUEUED`. -/
structure ShownTo (D : Database C.ulid) (s : World) (requester : JsString) (job : ExecutionJob) :
    Prop where
  listed : ∃ status, (listJobs D s requester).filter (fun item => item.id = job.id) =
    [⟨job.id, some status, job.filePath, job.createdAt⟩]
  detail : ∃ answer, showJob D s requester job.id = .ok answer ∧ answer.id = job.id ∧
    answer.filePath = job.filePath ∧ answer.createdAt = job.createdAt ∧
    (answer.statusHistory.map Prod.fst).count .QUEUED = 1

/-- A job is in no list of somebody else, who is told that it is not there. -/
structure HiddenFrom (D : Database C.ulid) (s : World) (requester : JsString) (job : ExecutionJob) :
    Prop where
  unlisted : ∀ item ∈ listJobs D s requester, item.id ≠ job.id
  notFound : showJob D s requester job.id = .error (.notFound (js "Execution job not found"))

theorem listedStatus_ne_none {statuses : List ExecutionJobStatusLog} (h : statuses ≠ []) :
    ∃ status, listedStatus statuses = some status := by
  rw [listedStatus]
  cases hs : statuses.mergeSort fun a b => b.createdAt ≤ a.createdAt with
  | nil =>
    have hlen := congrArg List.length hs
    rw [List.length_mergeSort, List.length_nil] at hlen
    exact absurd (List.length_eq_zero_iff.mp hlen) h
  | cons log rest => exact ⟨log.status, rfl⟩

theorem shownTo_of_row (hs : Sound C s) {views : Nat → View} (hf : Fitting C s views)
    {job : ExecutionJob} (hjob : job.header ∈ s.headers)
    (huser : D.same job.userId requester = true) : ShownTo D s requester job := by
  obtain ⟨row, hrow, hheader⟩ := List.mem_map.mp hjob
  have hkey : row.key = job.key := congrArg Prod.fst hheader
  have hid : row.id = job.id := congrArg JobKey.id hkey
  have hpath : row.filePath = job.filePath := congrArg JobKey.filePath hkey
  have hcreated : row.createdAt = job.createdAt := congrArg Prod.snd hheader
  have huser' : D.same row.userId requester = true := by
    rw [show row.userId = job.userId from congrArg JobKey.userId hkey]
    exact huser
  obtain ⟨first, rest, hlogs, hqueued, hothers⟩ := hf.history hs (List.mem_map_of_mem hrow)
  have hperm := statuses_perm (D := D) hs hrow
  constructor
  · have hne : (withStatuses D s row).2 ≠ [] := by
      intro hnil
      rw [hnil, hlogs] at hperm
      exact List.cons_ne_nil _ _ (List.nil_perm.mp hperm)
    obtain ⟨status, hstatus⟩ := listedStatus_ne_none hne
    refine ⟨status, ?_⟩
    rw [← hid, listJobs_filter hs hrow huser', hstatus, hpath, hcreated]
  · refine ⟨_, hid ▸ showJob_own hs hrow huser', hid, hpath, hcreated, ?_⟩
    show (((((withStatuses D s row).2.mergeSort _).map fun status =>
      (status.status, status.createdAt)).map Prod.fst).count _) = 1
    rw [List.map_map, (((List.mergeSort_perm _ _).trans hperm).map _).count_eq, hlogs,
      List.map_cons, Function.comp_apply, hqueued, List.count_cons_self, List.count_eq_zero.mpr]
    intro hm
    obtain ⟨log, hlog, hstatus⟩ := List.mem_map.mp hm
    exact hothers log hlog hstatus

theorem hiddenFrom_of_row (hs : Sound C s) {job : ExecutionJob} (hjob : job.header ∈ s.headers)
    (huser : D.same job.userId requester = false) : HiddenFrom D s requester job := by
  obtain ⟨row, hrow, hheader⟩ := List.mem_map.mp hjob
  have hkey : row.key = job.key := congrArg Prod.fst hheader
  have hid : row.id = job.id := congrArg JobKey.id hkey
  have huser' : D.same row.userId requester = false := by
    rw [show row.userId = job.userId from congrArg JobKey.userId hkey]
    exact huser
  constructor
  · intro item hitem he
    obtain ⟨row', hrow', hid', hsame⟩ := mem_listJobs hitem
    have hmem : row' ∈ s.jobs.filter fun r => r.id = row.id :=
      List.mem_filter.mpr ⟨hrow', decide_eq_true (hid'.trans (he.trans hid.symm))⟩
    rw [filter_id_eq (nodup_ids hs) hrow] at hmem
    obtain rfl := List.mem_singleton.mp hmem
    rw [huser'] at hsame
    exact Bool.false_ne_true hsame
  · exact hid ▸ showJob_other hs hrow huser'

/-- **A job that was created is its owner's.**  When a call of `createExecutionJob` has returned a
job, then in every later state of the run, whatever else has happened, a user that the database
takes for the one of the call is listed the job once, with what the call returned, and is shown its
detail with one `QUEUED`; anybody else is neither listed it nor shown it. -/
theorem created_job_is_listed {σ σ' : (services C).Sys}
    (h : Service.Reaches Service.anyEvent (start C) σ)
    (h' : Service.Reaches Service.anyEvent σ σ') {userId : JsString} {file : UploadedFile}
    {job : ExecutionJob} {alive : Bool}
    (hp : σ.procs[pid]? = some ⟨.createExecutionJob userId file, .ret job, alive⟩)
    (D : Database C.ulid) (requester : JsString) :
    (D.same userId requester = true → ShownTo D σ'.shared requester job) ∧
    (D.same userId requester = false → HiddenFrom D σ'.shared requester job) := by
  obtain ⟨views, hab⟩ := abides_of_run h
  obtain ⟨hheader, rfl⟩ := row_of_created (regular_of_reaches h).1 hab hp
  have hreach' := h.trans h'
  obtain ⟨views', hab'⟩ := abides_of_run hreach'
  have hsound := (regular_of_reaches hreach').1.2.1
  obtain ⟨l, hl⟩ := headers_of_reaches h'
  have hlater : job.header ∈ σ'.shared.headers := by
    rw [hl]
    exact List.mem_append_left _ hheader
  exact ⟨fun huser => shownTo_of_row hsound hab'.shared hlater huser,
    fun huser => hiddenFrom_of_row hsound hlater huser⟩

theorem created_job_is_listed_to_ann :
    ∃ (σ : (services Config.plain).Sys) (job : ExecutionJob),
      Service.run (start Config.plain) firstUpload = some σ ∧
        ShownTo (C := Config.plain) (Database.plain _) σ.shared (js "ann") job ∧
        HiddenFrom (C := Config.plain) (Database.plain _) σ.shared (js "bob") job := by
  have hreturned : (Service.run (start Config.plain) firstUpload).map (fun σ =>
      (σ.procs[0]?).map fun p => (p.call, decide p.prog.Returned)) =
        some (some (.createExecutionJob (js "ann") ⟨js "main.dart", [118]⟩, true)) := by
    decide +kernel
  obtain ⟨σ, hσ, hp⟩ := Option.map_eq_some_iff.mp hreturned
  obtain ⟨⟨call, prog, alive⟩, hget, hboth⟩ := Option.map_eq_some_iff.mp hp
  obtain ⟨rfl, hdone⟩ := Prod.mk.inj hboth
  cases prog with
  | ret job =>
    have hshown := created_job_is_listed (Service.reaches_of_run hσ fun _ _ _ => trivial) .refl hget
      (Database.plain _)
    exact ⟨σ, job, hσ, (hshown (js "ann")).1 rfl, (hshown (js "bob")).2 (by decide)⟩
  | fail e => exact absurd (of_decide_eq_true hdone) id
  | await c k => exact absurd (of_decide_eq_true hdone) id
  | sync o k => exact absurd (of_decide_eq_true hdone) id

end FullstackSvc.Execution
