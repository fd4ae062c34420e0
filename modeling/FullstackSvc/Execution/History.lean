import FullstackSvc.Execution.Lifecycle
import FullstackSvc.Execution.Terminal

/-!
# The history of a job

`Accounted` says that the state of the services fits the view of one process, and `Booked`
that every entry has a writer.  Each call of a process keeps both of its own view, and what
it does is `Apart` for everybody else.

* `kept_jobTypestate`: so all views fit in every state that a run reaches.
* `job_history`: **whose entries the history of a job is made of**, and in which order.
-/

namespace FullstackSvc.Execution

open Text Async

variable {C : Config} {pid : Nat} {s s' s'' : World} {v : View}

/-! ### The state and the views -/

/-- The shape of a view, by its request. -/
def View.Fits (v : View) : Prop :=
  match v.request with
  | none => v.pending = ⟨[], []⟩ ∧ v.written = []
  | some (.createExecutionJob userId _) =>
    (∀ job ∈ v.pending.jobs, job.userId = userId) ∧
      (∀ log ∈ v.pending.logs, log.status = .QUEUED ∧ ∃ job ∈ v.pending.jobs, log.jobId = job.id) ∧
      (v.written = [] ∨ v.pending = ⟨[], []⟩ ∧ ∃ log, v.written = [log] ∧ log.status = .QUEUED)
  | some (.processJob jobId) =>
    v.pending = ⟨[], []⟩ ∧ v.statuses ∈ courses ∧ ∀ log ∈ v.written, log.jobId = jobId

/-- What never changes in a row, with the time of its upload. -/
def ExecutionJob.header (row : ExecutionJob) : JobKey × Nat := (row.key, row.createdAt)

def World.headers (s : World) : List (JobKey × Nat) := s.jobs.map ExecutionJob.header

theorem keys_eq (s : World) : s.keys = s.headers.map Prod.fst := by
  rw [World.keys, World.headers, List.map_map]
  rfl

theorem map_id_keys (s : World) : s.jobs.map ExecutionJob.id = s.keys.map JobKey.id := by
  rw [World.keys, List.map_map]
  rfl

/-- The state fits the view of a process. -/
structure Accounted (C : Config) (s : World) (pid : Nat) (v : View) : Prop where
  request : v.request = s.calls[pid]?
  fits : v.Fits
  pending : s.transactions pid = v.pending
  entries : s.entriesOf C pid = v.written
  fresh : ∀ id, v.fresh = some id → s.Owns C pid id ∧
    (∀ log ∈ s.logs, log.id ≠ id) ∧ ∀ log ∈ v.pending.logs, log.id ≠ id
  drawn : ∀ log ∈ v.pending.logs, s.Owns C pid log.id ∧ ∀ log' ∈ s.logs, log'.id ≠ log.id
  jobs : ∀ job ∈ v.pending.jobs, s.Owns C pid job.id
  created : ∀ userId file, v.request = some (.createExecutionJob userId file) →
    ∀ log ∈ v.written, s.Owns C pid log.jobId
  clock : v.clock ≤ s.now
  past : ∀ log ∈ v.written ++ v.pending.logs, log.createdAt ≤ v.clock
  sorted : v.written.Pairwise fun a b => a.createdAt ≤ b.createdAt
  known : ∀ jobId, v.request = some (.processJob jobId) → jobId ∈ s.jobs.map ExecutionJob.id
  committed : ∀ job ∈ v.committed, job.header ∈ s.headers
  behind : ∀ jobId, v.request = some (.processJob jobId) → ∀ log ∈ s.logs, log.jobId = jobId →
    log.status = .QUEUED →
    log.createdAt ≤ v.clock ∧ ∀ entry ∈ v.written, log.createdAt ≤ entry.createdAt

/-- Every entry has a writer, and its id is its own. -/
abbrev Booked (C : Config) (s : World) : Prop :=
  C.ulid.Booked s.drawnBy ExecutionJobStatusLog.id s.logs

/-- What a step of the others is to a process: they draw for themselves, and the entries
they add are theirs, and no first entry of a job that the process delivers. -/
structure Apart (C : Config) (pid : Nat) (s s' : World) : Prop where
  drawn : ∃ l, s'.drawnBy = s.drawnBy ++ l ∧ pid ∉ l
  calls : s'.calls[pid]? = s.calls[pid]?
  transactions : s'.transactions pid = s.transactions pid
  logs : ∃ l, s'.logs = s.logs ++ l ∧ ∀ log ∈ l, ¬ s'.Owns C pid log.id ∧
    (s.calls[pid]? = some (.processJob log.jobId) → log.status ≠ .QUEUED)
  headers : ∃ l, s'.headers = s.headers ++ l
  now : s.now ≤ s'.now

theorem Apart.mem_headers (h : Apart C pid s s') {k : JobKey × Nat} (hk : k ∈ s.headers) :
    k ∈ s'.headers := by
  obtain ⟨l, hl⟩ := h.headers
  rw [hl]
  exact List.mem_append_left _ hk

theorem Apart.mem_ids (h : Apart C pid s s') {id : JsString}
    (hid : id ∈ s.jobs.map ExecutionJob.id) : id ∈ s'.jobs.map ExecutionJob.id := by
  obtain ⟨l, hl⟩ := h.headers
  rw [map_id_keys, keys_eq] at hid ⊢
  rw [hl, List.map_append, List.map_append]
  exact List.mem_append_left _ hid

theorem Apart.owns (h : Apart C pid s s') {id : JsString} (ho : s.Owns C pid id) :
    s'.Owns C pid id := by
  obtain ⟨l, hl, -⟩ := h.drawn
  exact owns_mono hl ho

/-- The others write nothing under the name of a process. -/
theorem Apart.entries (h : Apart C pid s s') : s'.entriesOf C pid = s.entriesOf C pid := by
  obtain ⟨l, hl, hpid⟩ := h.drawn
  obtain ⟨new, hlogs, hnew⟩ := h.logs
  rw [World.entriesOf, hlogs, UlidSource.rowsOf_append,
    UlidSource.rowsOf_others fun log hlog => (hnew log hlog).1, List.append_nil, hl,
    UlidSource.rowsOf_of_not_mem hpid]
  rfl

/-- The id of an entry that somebody else wrote. -/
theorem Apart.ne_id (h : Apart C pid s s') {id : JsString} (ho : s.Owns C pid id)
    (hs : ∀ log ∈ s.logs, log.id ≠ id) : ∀ log ∈ s'.logs, log.id ≠ id := by
  obtain ⟨l, hl, hnew⟩ := h.logs
  intro log hlog he
  rw [hl] at hlog
  rcases List.mem_append.mp hlog with hlog | hlog
  · exact hs log hlog he
  · exact (hnew log hlog).1 (he ▸ h.owns ho)

/-- **The others leave the view of a process fitting.** -/
theorem accounted_apart (h : Accounted C s pid v) (ha : Apart C pid s s') : Accounted C s' pid v where
  request := h.request.trans ha.calls.symm
  fits := h.fits
  pending := ha.transactions.trans h.pending
  entries := ha.entries.trans h.entries
  fresh id hid := by
    obtain ⟨hown, hlogs, hpending⟩ := h.fresh id hid
    exact ⟨ha.owns hown, ha.ne_id hown hlogs, hpending⟩
  drawn log hlog := by
    obtain ⟨hown, hlogs⟩ := h.drawn log hlog
    exact ⟨ha.owns hown, ha.ne_id hown hlogs⟩
  jobs job hjob := ha.owns (h.jobs job hjob)
  created userId file hr log hlog := ha.owns (h.created userId file hr log hlog)
  clock := Nat.le_trans h.clock ha.now
  past := h.past
  sorted := h.sorted
  known jobId hr := ha.mem_ids (h.known jobId hr)
  committed job hjob := ha.mem_headers (h.committed job hjob)
  behind jobId hr log hlog hid hstatus := by
    obtain ⟨l, hl, hnew⟩ := ha.logs
    rw [hl] at hlog
    rcases List.mem_append.mp hlog with hlog | hlog
    · exact h.behind jobId hr log hlog hid hstatus
    · subst hid
      exact absurd hstatus ((hnew log hlog).2 (h.request.symm.trans hr))

/-- The parts that the views speak of are as they were, and time may have passed. -/
structure Silent (s s' : World) : Prop where
  drawnBy : s'.drawnBy = s.drawnBy
  calls : s'.calls = s.calls
  transactions : s'.transactions = s.transactions
  logs : s'.logs = s.logs
  headers : s'.headers = s.headers
  now : s.now ≤ s'.now

theorem Silent.keys (h : Silent s s') : s'.keys = s.keys := by rw [keys_eq, h.headers, ← keys_eq]

theorem Silent.apart (h : Silent s s') (pid : Nat) : Apart C pid s s' where
  drawn := ⟨[], by rw [h.drawnBy, List.append_nil], List.not_mem_nil⟩
  calls := by rw [h.calls]
  transactions := by rw [h.transactions]
  logs := ⟨[], by rw [h.logs, List.append_nil], List.forall_mem_nil _⟩
  headers := ⟨[], by rw [h.headers, List.append_nil]⟩
  now := h.now

theorem Silent.booked (h : Silent s s') (hb : Booked C s) : Booked C s' := by
  rw [Booked, h.drawnBy, h.logs]
  exact hb

/-! ### What a process does to its own view -/

/-- A state in which all views fit. -/
structure Fitting (C : Config) (s : World) (views : Nat → View) : Prop where
  booked : Booked C s
  accounted : ∀ pid, Accounted C s pid (views pid)

variable {views : Nat → View}

/-- The view of one process changes, and for the others the step is apart. -/
theorem Fitting.update (h : Fitting C s views) (hb : Booked C s') (hv : Accounted C s' pid v)
    (ha : ∀ p, p ≠ pid → Apart C p s s') : Fitting C s' (Function.update views pid v) := by
  refine ⟨hb, fun p => ?_⟩
  by_cases hp : p = pid
  · subst hp
    rwa [Function.update_self]
  · rw [Function.update_of_ne hp]
    exact accounted_apart (h.accounted p) (ha p hp)

theorem Fitting.silent (h : Fitting C s views) (hs : Silent s s') : Fitting C s' views :=
  ⟨hs.booked h.booked, fun p => accounted_apart (h.accounted p) (hs.apart p)⟩

/-- Every entry is on the view of its writer. -/
theorem Fitting.writer (h : Fitting C s views) {log : ExecutionJobStatusLog} (hlog : log ∈ s.logs) :
    ∃ p, s.Owns C p log.id ∧ log ∈ (views p).written := by
  obtain ⟨p, hp, hmem⟩ := h.booked.mem_rowsOf hlog
  exact ⟨p, hp, (h.accounted p).entries ▸ hmem⟩

/-- What is written was written before now. -/
theorem Fitting.createdAt_le_now (h : Fitting C s views) {log : ExecutionJobStatusLog}
    (hlog : log ∈ s.logs) : log.createdAt ≤ s.now := by
  obtain ⟨p, -, hp⟩ := h.writer hlog
  exact Nat.le_trans ((h.accounted p).past log (List.mem_append_left _ hp)) (h.accounted p).clock

/-- Only an upload writes `QUEUED`, and it has drawn the id of its job. -/
theorem Fitting.queued (h : Fitting C s views) {log : ExecutionJobStatusLog} (hlog : log ∈ s.logs)
    (hstatus : log.status = .QUEUED) : ∃ p userId file, s.Owns C p log.id ∧ s.Owns C p log.jobId ∧
      (views p).written = [log] ∧ s.calls[p]? = some (.createExecutionJob userId file) := by
  obtain ⟨p, hown, hp⟩ := h.writer hlog
  have hr := h.accounted p
  have hfits := hr.fits
  cases hrequest : (views p).request with
  | none =>
    simp only [View.Fits, hrequest] at hfits
    rw [hfits.2] at hp
    cases hp
  | some c =>
    cases c with
    | createExecutionJob userId file =>
      simp only [View.Fits, hrequest] at hfits
      refine ⟨p, userId, file, hown, hr.created userId file hrequest log hp, ?_,
        hr.request.symm.trans hrequest⟩
      rcases hfits.2.2 with hnil | ⟨-, log', hone, -⟩
      · rw [hnil] at hp
        cases hp
      · rw [hone] at hp ⊢
        rw [List.mem_singleton.mp hp]
    | processJob jobId =>
      -- no course has `QUEUED`
      simp only [View.Fits, hrequest] at hfits
      have hmem : ExecutionJobStatus.QUEUED ∈ (views p).statuses :=
        hstatus ▸ List.mem_map_of_mem hp
      have hno : ∀ w ∈ courses, ExecutionJobStatus.QUEUED ∉ w := by decide
      exact absurd hmem (hno _ hfits.2.1)

/-- An entry that a delivery has written is for its job, and not `QUEUED`. -/
theorem Fitting.delivered (h : Fitting C s views) {p : Nat} {jobId : JsString}
    (hcall : s.calls[p]? = some (.processJob jobId)) {log : ExecutionJobStatusLog}
    (hlog : log ∈ (views p).written) : log.jobId = jobId ∧ log.status ≠ .QUEUED := by
  have hfits := (h.accounted p).fits
  simp only [View.Fits, (h.accounted p).request.trans hcall] at hfits
  refine ⟨hfits.2.2 log hlog, fun hstatus => ?_⟩
  have hmem : ExecutionJobStatus.QUEUED ∈ (views p).statuses := hstatus ▸ List.mem_map_of_mem hlog
  have hno : ∀ w ∈ courses, ExecutionJobStatus.QUEUED ∉ w := by decide
  exact hno _ hfits.2.1 hmem

/-! ### The calls -/

theorem silent_refl : Silent s s := ⟨rfl, rfl, rfl, rfl, rfl, Nat.le_refl _⟩

theorem headers_withUpdate (s : World) (jobId : JsString) (changes : JobUpdate) :
    (s.withUpdate jobId changes).headers = s.headers := by
  rw [World.headers, World.headers, World.withUpdate, List.map_map]
  refine List.map_congr_left fun row _ => ?_
  rw [Function.comp_apply]
  split <;> rfl

/-- The calls that no view speaks of. -/
def Cmd.IsSilent : Cmd → Prop
  | .startTransaction => False
  | .rollbackTransaction => False
  | .insertJob _ => False
  | .insertStatusLog _ => False
  | .commitTransaction => False
  | .saveStatusLog _ => False
  | _ => True

theorem succeeded_of_isSilent {c : Cmd} (hc : c.IsSilent) : v.succeeded c = v := by
  cases c with
  | startTransaction | rollbackTransaction | insertJob _ | insertStatusLog _ | commitTransaction
  | saveStatusLog _ => exact hc.elim
  | _ => rfl

theorem answered_of_isSilent {c : Cmd} (hc : c.IsSilent) (x : Except JsError (sig.Res c)) :
    jobTypestate.answered v c x = v := by
  cases x with
  | ok a => exact succeeded_of_isSilent hc
  | error e => rfl

theorem silent_perform {c : Cmd} (hc : c.IsSilent) {r : Reply} {x : Except JsError (sig.Res c)}
    (h : perform pid c r s = some (x, s')) : Silent s s' := by
  rcases perform_cases h with ⟨-, h⟩ | ⟨-, e, -, -, rfl⟩ | ⟨path, bytes, n, e, -, -, -, -, rfl⟩
  · cases c with
    | startTransaction | rollbackTransaction | insertJob _ | insertStatusLog _ | commitTransaction
    | saveStatusLog _ => exact hc.elim
    | updateJob jobId changes =>
      rw [performDone] at h
      split at h
      · obtain ⟨-, rfl⟩ := Prod.mk.inj (Option.some.inj h)
        exact ⟨rfl, rfl, rfl, rfl, headers_withUpdate s jobId changes, Nat.le_refl _⟩
      · obtain ⟨-, rfl⟩ := Prod.mk.inj (Option.some.inj h)
        exact silent_refl
    | access _ | containerLogs _ =>
      rw [performDone] at h
      split at h
      · obtain ⟨-, rfl⟩ := Prod.mk.inj (Option.some.inj h)
        exact silent_refl
      · obtain ⟨-, rfl⟩ := Prod.mk.inj (Option.some.inj h)
        exact silent_refl
    | waitOrTimeout _ =>
      rw [performDone] at h
      split at h
      · obtain ⟨-, rfl⟩ := Prod.mk.inj (Option.some.inj h)
        exact silent_refl
      · obtain ⟨code, -, he⟩ := Option.map_eq_some_iff.mp h
        obtain ⟨-, rfl⟩ := Prod.mk.inj he
        exact silent_refl
    | _ =>
      obtain ⟨-, rfl⟩ := Prod.mk.inj (Option.some.inj h)
      exact ⟨rfl, rfl, rfl, rfl, rfl, Nat.le_refl _⟩
  · exact silent_refl
  · exact ⟨rfl, rfl, rfl, rfl, rfl, Nat.le_refl _⟩

/-- For the others a change of a transaction is nothing. -/
theorem apart_transactions {t : Transaction} {p : Nat} (hp : p ≠ pid) :
    Apart C p s { s with transactions := Function.update s.transactions pid t } where
  drawn := ⟨[], (List.append_nil _).symm, List.not_mem_nil⟩
  calls := rfl
  transactions := Function.update_of_ne hp ..
  logs := ⟨[], (List.append_nil _).symm, List.forall_mem_nil _⟩
  headers := ⟨[], (List.append_nil _).symm⟩
  now := Nat.le_refl _

/-- A transaction begins, or is given up. -/
theorem fitting_cleared (h : Fitting C s views) (pid : Nat) :
    Fitting C { s with transactions := Function.update s.transactions pid ⟨[], []⟩ }
      (Function.update views pid { views pid with pending := ⟨[], []⟩ }) := by
  have hr := h.accounted pid
  refine h.update ⟨h.booked.owned, h.booked.nodup⟩ ?_ fun p hp => apart_transactions hp
  refine { hr with fits := ?_, pending := Function.update_self .., drawn := List.forall_mem_nil _
                   jobs := List.forall_mem_nil _, fresh := ?_, past := ?_ }
  · have hfits := hr.fits
    cases hrequest : (views pid).request with
    | none =>
      simp only [View.Fits, hrequest] at hfits ⊢
      exact ⟨trivial, hfits.2⟩
    | some c =>
      cases c with
      | createExecutionJob userId file =>
        simp only [View.Fits, hrequest] at hfits ⊢
        exact ⟨List.forall_mem_nil _, List.forall_mem_nil _,
          hfits.2.2.imp_right fun hone => ⟨trivial, hone.2⟩⟩
      | processJob jobId =>
        simp only [View.Fits, hrequest] at hfits ⊢
        exact ⟨trivial, hfits.2⟩
  · intro id hid
    obtain ⟨hown, hlogs, -⟩ := hr.fresh id hid
    exact ⟨hown, hlogs, List.forall_mem_nil _⟩
  · intro log hlog
    exact hr.past log (List.mem_append_left _ (by simpa using hlog))

theorem fitting_insertJob (h : Fitting C s views) {row : ExecutionJob}
    (hallows : (views pid).allows (.insertJob row)) :
    Fitting C (s.insertPending pid [row] [])
      (Function.update views pid ((views pid).succeeded (.insertJob row))) := by
  obtain ⟨⟨file, hrequest⟩, hfresh, hpending, hwritten⟩ := hallows
  have hr := h.accounted pid
  refine h.update ⟨h.booked.owned, h.booked.nodup⟩ ?_ fun p hp => apart_transactions hp
  refine { hr with fits := ?_, pending := ?_, drawn := ?_, jobs := ?_, fresh := ?_, past := ?_ }
  · simp only [View.Fits, View.succeeded, hrequest, hpending]
    refine ⟨fun job hjob => ?_, List.forall_mem_nil _, Or.inl hwritten⟩
    rw [List.mem_singleton.mp hjob]
  · show Function.update s.transactions pid _ pid = _
    rw [Function.update_self, hr.pending, List.append_nil]
    rfl
  · exact fun id hid => absurd hid.symm (Option.some_ne_none id)
  · show ∀ log ∈ (views pid).pending.logs, _
    rw [hpending]
    exact List.forall_mem_nil _
  · show ∀ job ∈ (views pid).pending.jobs ++ [row], _
    rw [hpending]
    intro job hjob
    rw [List.mem_singleton.mp hjob]
    exact (hr.fresh _ hfresh).1
  · exact hr.past

theorem fitting_insertStatusLog (h : Fitting C s views) {row : ExecutionJobStatusLog}
    (hallows : (views pid).allows (.insertStatusLog row)) :
    Fitting C (s.insertPending pid [] [row])
      (Function.update views pid ((views pid).succeeded (.insertStatusLog row))) := by
  obtain ⟨⟨job, hpending, hid⟩, hstatus, hfresh, hclock, hwritten⟩ := hallows
  have hr := h.accounted pid
  obtain ⟨hown, hlogs, -⟩ := hr.fresh _ hfresh
  refine h.update ⟨h.booked.owned, h.booked.nodup⟩ ?_ fun p hp => apart_transactions hp
  refine { hr with fits := ?_, pending := ?_, drawn := ?_, jobs := ?_, fresh := ?_, past := ?_ }
  · have hfits := hr.fits
    cases hrequest : (views pid).request with
    | none =>
      simp only [View.Fits, hrequest] at hfits
      rw [hfits.1] at hpending
      cases hpending
    | some c =>
      cases c with
      | createExecutionJob userId file =>
        simp only [View.Fits, View.succeeded, hrequest, hpending] at hfits ⊢
        refine ⟨hfits.1, fun log hlog => ?_, Or.inl hwritten⟩
        rw [List.mem_singleton.mp hlog]
        exact ⟨hstatus, job, List.mem_singleton_self _, hid⟩
      | processJob jobId =>
        simp only [View.Fits, hrequest] at hfits
        rw [hfits.1] at hpending
        cases hpending
  · show Function.update s.transactions pid _ pid = _
    rw [Function.update_self, hr.pending, List.append_nil]
    rfl
  · exact fun id hid => absurd hid.symm (Option.some_ne_none id)
  · show ∀ log ∈ (views pid).pending.logs ++ [row], _
    rw [hpending]
    intro log hlog
    rw [List.mem_singleton.mp hlog]
    exact ⟨hown, hlogs⟩
  · exact hr.jobs
  · intro log hlog
    have hlog : log ∈ (views pid).written ++ ((views pid).pending.logs ++ [row]) := hlog
    rw [hwritten, hpending] at hlog
    rw [List.mem_singleton.mp hlog]
    exact Nat.le_of_eq hclock

/-- Rows that are still in a transaction have no `QUEUED` entry yet. -/
theorem Fitting.not_known (h : Fitting C s views) (hs : Sound C s) {job : ExecutionJob}
    (hjob : job ∈ (views pid).pending.jobs) (hwritten : (views pid).written = []) :
    job.id ∉ s.jobs.map ExecutionJob.id := by
  intro hmem
  obtain ⟨row, hrow, hid⟩ := List.mem_map.mp hmem
  obtain ⟨log, hhead, hstatus⟩ := hs.queued row.key (List.mem_map_of_mem hrow)
  obtain ⟨hlog, hlogId⟩ := List.mem_filter.mp (List.mem_of_head? hhead)
  have hlogId : log.jobId = job.id := (of_decide_eq_true hlogId).trans hid
  obtain ⟨p, _, _, -, hown, hone, -⟩ := h.queued hlog hstatus
  obtain rfl := owner_unique (hlogId ▸ hown) ((h.accounted pid).jobs job hjob)
  rw [hwritten] at hone
  cases hone

/-- What a process commits: the row of its job, and the first entry of it. -/
structure Commits (C : Config) (s : World) (pid : Nat) (job : ExecutionJob)
    (log : ExecutionJobStatusLog) : Prop where
  pending : s.transactions pid = ⟨[job], [log]⟩
  request : ∃ file, s.calls[pid]? = some (.createExecutionJob job.userId file)
  jobId : log.jobId = job.id
  status : log.status = .QUEUED
  ownsLog : s.Owns C pid log.id
  ownsJob : s.Owns C pid job.id
  newLog : ∀ log' ∈ s.logs, log'.id ≠ log.id
  newJob : job.id ∉ s.jobs.map ExecutionJob.id

theorem Fitting.commits (h : Fitting C s views) (hs : Sound C s)
    (hallows : (views pid).allows .commitTransaction) : ∃ job log, Commits C s pid job log := by
  obtain ⟨⟨job, log, hpending⟩, hwritten⟩ := hallows
  have hr := h.accounted pid
  have hfits := hr.fits
  obtain ⟨hown, hnew⟩ := hr.drawn log (by rw [hpending]; exact List.mem_singleton_self _)
  have hjob : job ∈ (views pid).pending.jobs := by rw [hpending]; exact List.mem_singleton_self _
  cases hrequest : (views pid).request with
  | none =>
    simp only [View.Fits, hrequest] at hfits
    rw [hfits.1] at hpending
    cases hpending
  | some c =>
    cases c with
    | createExecutionJob userId file =>
      simp only [View.Fits, hrequest, hpending] at hfits
      obtain ⟨hstatus, job', hjob', hid⟩ := hfits.2.1 log (List.mem_singleton_self _)
      obtain rfl := List.mem_singleton.mp hjob'
      obtain rfl := hfits.1 job' (List.mem_singleton_self _)
      exact ⟨job', log, hr.pending.trans hpending, ⟨file, hr.request.symm.trans hrequest⟩, hid,
        hstatus, hown, hr.jobs job' hjob, hnew, h.not_known hs hjob hwritten⟩
    | processJob jobId =>
      simp only [View.Fits, hrequest] at hfits
      rw [hfits.1] at hpending
      cases hpending

/-- **The commit.** -/
theorem fitting_commitTransaction (h : Fitting C s views) (hs : Sound C s)
    (hallows : (views pid).allows .commitTransaction) :
    Fitting C (s.committed pid)
      (Function.update views pid ((views pid).succeeded .commitTransaction)) := by
  obtain ⟨job, log, hc⟩ := h.commits hs hallows
  have hwritten : (views pid).written = [] := hallows.2
  have hr := h.accounted pid
  have hpending : (views pid).pending = ⟨[job], [log]⟩ := hr.pending.symm.trans hc.pending
  have hlogs : (s.transactions pid).logs = [log] := by rw [hc.pending]
  have hheaders : (s.committed pid).headers = s.headers ++ [job.header] := by
    show (s.jobs ++ (s.transactions pid).jobs).map ExecutionJob.header = _
    rw [hc.pending, List.map_append]
    rfl
  obtain ⟨file, hcall⟩ := hc.request
  have hrequest := hr.request.trans hcall
  have hentries : (s.committed pid).entriesOf C pid = [log] := by
    have hnil : s.entriesOf C pid = [] := hr.entries.trans hwritten
    show C.ulid.rowsOf s.drawnBy _ pid (s.logs ++ (s.transactions pid).logs) = [log]
    rw [hlogs, UlidSource.rowsOf_concat_own hc.ownsLog]
    exact congrArg (· ++ [log]) hnil
  refine h.update ?_ ?_ fun p hp => ?_
  · show C.ulid.Booked s.drawnBy _ (s.logs ++ (s.transactions pid).logs)
    rw [hlogs]
    exact h.booked.concat hc.ownsLog hc.newLog
  · refine { hr with fits := ?_, pending := Function.update_self .., entries := ?_, fresh := ?_
                     drawn := List.forall_mem_nil _, jobs := List.forall_mem_nil _, created := ?_
                     past := ?_, sorted := ?_, known := ?_, committed := ?_, behind := ?_ }
    · simp only [View.Fits, View.succeeded, hrequest, hpending, hwritten]
      exact ⟨List.forall_mem_nil _, List.forall_mem_nil _, Or.inr ⟨trivial, log, rfl, hc.status⟩⟩
    · rw [hentries]
      show [log] = (views pid).written ++ (views pid).pending.logs
      rw [hwritten, hpending]
      rfl
    · intro id hid
      obtain ⟨hidOwn, hidLogs, hidPending⟩ := hr.fresh id hid
      refine ⟨hidOwn, fun log' hlog' => ?_, List.forall_mem_nil _⟩
      rcases List.mem_append.mp hlog' with hlog' | hlog'
      · exact hidLogs log' hlog'
      · exact hidPending log' (hr.pending ▸ hlog')
    · intro _ _ _ log' hlog'
      have hlog' : log' ∈ (views pid).written ++ (views pid).pending.logs := hlog'
      rw [hwritten, hpending] at hlog'
      rw [List.mem_singleton.mp hlog', hc.jobId]
      exact hc.ownsJob
    · intro log' hlog'
      refine hr.past log' ?_
      simpa [View.succeeded] using hlog'
    · show ((views pid).written ++ (views pid).pending.logs).Pairwise _
      rw [hwritten, hpending]
      exact List.pairwise_singleton _ _
    · intro jobId hjobId
      have hjobId : (views pid).request = _ := hjobId
      rw [hrequest] at hjobId
      cases hjobId
    · rw [hheaders]
      intro job' hjob'
      rcases List.mem_append.mp hjob' with hjob' | hjob'
      · exact List.mem_append_left _ (hr.committed job' hjob')
      · rw [hpending] at hjob'
        rw [List.mem_singleton.mp hjob']
        exact List.mem_append_right _ (List.mem_singleton_self _)
    · intro jobId hjobId
      have hjobId : (views pid).request = _ := hjobId
      rw [hrequest] at hjobId
      cases hjobId
  · refine ⟨⟨[], (List.append_nil _).symm, List.not_mem_nil⟩, rfl, Function.update_of_ne hp ..,
      ⟨_, rfl, fun log' hlog' => ?_⟩, ⟨_, hheaders⟩, Nat.le_refl _⟩
    rw [hlogs] at hlog'
    rw [List.mem_singleton.mp hlog']
    refine ⟨fun hown' => hp (owner_unique hown' hc.ownsLog), fun hcall' => ?_⟩
    -- nobody delivers a job that has no row
    have hknown := (h.accounted p).known _ ((h.accounted p).request.trans hcall')
    rw [hc.jobId] at hknown
    exact absurd hknown hc.newJob

/-- **An entry of a delivery.** -/
theorem fitting_saveStatusLog (h : Fitting C s views) {row : ExecutionJobStatusLog}
    (hallows : (views pid).allows (.saveStatusLog row)) :
    Fitting C { s with logs := s.logs ++ [row] }
      (Function.update views pid ((views pid).succeeded (.saveStatusLog row))) := by
  obtain ⟨hrequest, hfresh, hclock, hcourse⟩ := hallows
  have hr := h.accounted pid
  obtain ⟨hown, hnew, -⟩ := hr.fresh _ hfresh
  have hfits := hr.fits
  simp only [View.Fits, hrequest] at hfits
  have hstatus : row.status ≠ .QUEUED := by
    intro he
    have hno : ∀ w ∈ courses, ExecutionJobStatus.QUEUED ∉ w := by decide
    exact hno _ hcourse (he ▸ List.mem_append_right _ (List.mem_singleton_self _))
  have hentries : World.entriesOf C { s with logs := s.logs ++ [row] } pid =
      (views pid).written ++ [row] := by
    show C.ulid.rowsOf s.drawnBy _ pid (s.logs ++ [row]) = _
    rw [UlidSource.rowsOf_concat_own hown]
    exact congrArg (· ++ [row]) hr.entries
  refine h.update ?_ ?_ fun p hp => ?_
  · exact h.booked.concat hown hnew
  · refine { hr with fits := ?_, entries := hentries, fresh := ?_, drawn := ?_, created := ?_
                     past := ?_, sorted := ?_, behind := ?_ }
    · simp only [View.Fits, View.succeeded, hrequest]
      refine ⟨hfits.1, ?_, fun log hlog => ?_⟩
      · show ((views pid).written ++ [row]).map ExecutionJobStatusLog.status ∈ courses
        rw [List.map_append]
        exact hcourse
      · rcases List.mem_append.mp hlog with hlog | hlog
        · exact hfits.2.2 log hlog
        · rw [List.mem_singleton.mp hlog]
    · exact fun id hid => absurd hid.symm (Option.some_ne_none id)
    · show ∀ log ∈ (views pid).pending.logs, _
      rw [hfits.1]
      exact List.forall_mem_nil _
    · intro userId file hcreate
      have hcreate : (views pid).request = _ := hcreate
      rw [hrequest] at hcreate
      cases hcreate
    · intro log hlog
      have hlog : log ∈ ((views pid).written ++ [row]) ++ (views pid).pending.logs := hlog
      rw [hfits.1, List.append_nil] at hlog
      rcases List.mem_append.mp hlog with hlog | hlog
      · exact hr.past log (List.mem_append_left _ hlog)
      · rw [List.mem_singleton.mp hlog]
        exact Nat.le_of_eq hclock
    · show ((views pid).written ++ [row]).Pairwise _
      rw [List.pairwise_append]
      refine ⟨hr.sorted, List.pairwise_singleton _ _, fun log hlog log' hlog' => ?_⟩
      rw [List.mem_singleton.mp hlog', hclock]
      exact hr.past log (List.mem_append_left _ hlog)
    · intro jobId hjobId log hlog hid hqueued
      rcases List.mem_append.mp hlog with hlog | hlog
      · obtain ⟨hle, hall⟩ := hr.behind jobId hjobId log hlog hid hqueued
        refine ⟨hle, fun entry hentry => ?_⟩
        rcases List.mem_append.mp hentry with hentry | hentry
        · exact hall entry hentry
        · rw [List.mem_singleton.mp hentry, hclock]
          exact hle
      · rw [List.mem_singleton.mp hlog] at hqueued
        exact absurd hqueued hstatus
  · refine ⟨⟨[], (List.append_nil _).symm, List.not_mem_nil⟩, rfl, rfl,
      ⟨_, rfl, fun log hlog => ?_⟩, ⟨[], (List.append_nil _).symm⟩, Nat.le_refl _⟩
    rw [List.mem_singleton.mp hlog]
    exact ⟨fun hown' => hp (owner_unique hown' hown), fun _ => hstatus⟩

/-! ### Every state -/

/-- A step of a process keeps all views fitting. -/
theorem fitting_perform (h : Fitting C s views) (hs : Sound C s) {c : Cmd} {r : Reply}
    {x : Except JsError (sig.Res c)} (hallows : (views pid).allows c)
    (hp : perform pid c r s = some (x, s')) :
    Fitting C s' (Function.update views pid (jobTypestate.answered (views pid) c x)) := by
  have hsilent : c.IsSilent →
      Fitting C s' (Function.update views pid (jobTypestate.answered (views pid) c x)) := by
    intro hc
    rw [answered_of_isSilent hc, Function.update_eq_self]
    exact h.silent (silent_perform hc hp)
  have hfailed : Failed x s s' →
      Fitting C s' (Function.update views pid (jobTypestate.answered (views pid) c x)) := by
    rintro ⟨e, rfl, -, rfl⟩
    show Fitting C s' (Function.update views pid (views pid))
    rwa [Function.update_eq_self]
  cases c with
  | startTransaction =>
    rcases perform_startTransaction hp with ⟨rfl, rfl⟩ | hf
    · exact fitting_cleared h pid
    · exact hfailed hf
  | rollbackTransaction =>
    rcases perform_rollbackTransaction hp with ⟨rfl, rfl⟩ | hf
    · exact fitting_cleared h pid
    · exact hfailed hf
  | insertJob row =>
    rcases perform_insertJob hp with ⟨rfl, -, rfl⟩ | hf
    · exact fitting_insertJob h hallows
    · exact hfailed hf
  | insertStatusLog row =>
    rcases perform_insertStatusLog hp with ⟨rfl, -, rfl⟩ | hf
    · exact fitting_insertStatusLog h hallows
    · exact hfailed hf
  | commitTransaction =>
    rcases perform_commitTransaction hp with ⟨rfl, rfl⟩ | hf
    · exact fitting_commitTransaction h hs hallows
    · exact hfailed hf
  | saveStatusLog row =>
    rcases perform_saveStatusLog hp with ⟨rfl, -, rfl⟩ | hf
    · exact fitting_saveStatusLog h hallows
    · exact hfailed hf
  | _ => exact hsilent trivial

theorem fitting_ulid (h : Fitting C s views) :
    Fitting C { s with drawnBy := s.drawnBy ++ [pid] }
      (Function.update views pid { views pid with fresh := some (C.ulid.text s.drawnBy.length) }) := by
  have hr := h.accounted pid
  have hmono : ∀ {p id}, s.Owns C p id → World.Owns C { s with drawnBy := s.drawnBy ++ [pid] } p id :=
    fun ho => owns_mono rfl ho
  refine h.update (h.booked.draws [pid]) ?_ fun p hp => ?_
  · refine { hr with fits := hr.fits, entries := ?_, fresh := ?_, drawn := ?_, jobs := ?_
                     created := ?_ }
    · exact (UlidSource.rowsOf_of_draws h.booked [pid]).trans hr.entries
    · intro id hid
      obtain rfl := Option.some.inj hid
      exact ⟨UlidSource.drew_concat .., h.booked.ne_next, fun log hlog =>
        UlidSource.Drew.ne_next (hr.drawn log hlog).1⟩
    · exact fun log hlog => ⟨hmono (hr.drawn log hlog).1, (hr.drawn log hlog).2⟩
    · exact fun job hjob => hmono (hr.jobs job hjob)
    · exact fun userId file hc log hlog => hmono (hr.created userId file hc log hlog)
  · exact ⟨⟨[pid], rfl, fun hm => hp (List.mem_singleton.mp hm)⟩, rfl, rfl,
      ⟨[], (List.append_nil _).symm, List.forall_mem_nil _⟩, ⟨[], (List.append_nil _).symm⟩,
      Nat.le_refl _⟩

theorem fitting_now (h : Fitting C s views) :
    Fitting C s (Function.update views pid { views pid with clock := s.now }) := by
  have hr := h.accounted pid
  refine h.update h.booked ?_ fun p _ => silent_refl.apart p
  refine { hr with fits := hr.fits, clock := Nat.le_refl _, past := fun log hlog => ?_
                   behind := fun jobId hj log hlog hid hstatus => ?_ }
  · exact Nat.le_trans (hr.past log hlog) hr.clock
  · obtain ⟨hle, hall⟩ := hr.behind jobId hj log hlog hid hstatus
    exact ⟨Nat.le_trans hle hr.clock, hall⟩

/-- The view of a request that has just arrived. -/
def View.Begins (c : Request) (v : View) : Prop :=
  v.request = some c ∧ v.pending = ⟨[], []⟩ ∧ v.written = []

theorem now_of_accept {c : Request} (h : World.accept pid c s = some s') : s'.now = s.now := by
  cases c with
  | createExecutionJob userId file =>
    rw [World.accept] at h
    split at h
    · exact Option.some.inj h ▸ rfl
    · cases h
  | processJob jobId =>
    rw [World.accept] at h
    split at h
    · exact Option.some.inj h ▸ rfl
    · split at h
      · exact Option.some.inj h ▸ rfl
      · cases h

/-- An entry that is delivered was published. -/
theorem published_of_accept {jobId : JsString}
    (h : World.accept pid (.processJob jobId) s = some s') : s.Published jobId := by
  rw [World.accept] at h
  split at h
  · rename_i hwaiting
    exact Or.inl hwaiting
  · split at h
    · rename_i htaken
      exact Or.inr htaken
    · cases h

/-- **A request arrives.** -/
theorem fitting_accept (h : Fitting C s views) (hs : Sound C s) {c : Request}
    (ha : World.accept s.calls.length c s = some s') :
    ∃ v, View.Begins c v ∧ Fitting C s' (Function.update views s.calls.length v) := by
  have harr := arrives ha
  have hr := h.accounted s.calls.length
  have hfits := hr.fits
  have hrequest : (views s.calls.length).request = none := by
    rw [hr.request]
    exact List.getElem?_eq_none (Nat.le_refl _)
  simp only [View.Fits, hrequest] at hfits
  have hnow : s'.now = s.now := now_of_accept ha
  refine ⟨⟨some c, none, s.now, ⟨[], []⟩, [], []⟩, ⟨rfl, rfl, rfl⟩, ?_⟩
  refine h.update ?_ ?_ fun p hp => ?_
  · rw [Booked, harr.drawnBy, harr.logs]
    exact h.booked
  · refine { request := ?_, fits := ?_, pending := ?_, entries := ?_
             fresh := fun id hid => absurd hid.symm (Option.some_ne_none id)
             drawn := List.forall_mem_nil _, jobs := List.forall_mem_nil _
             created := fun _ _ _ => List.forall_mem_nil _, clock := Nat.le_of_eq hnow.symm
             past := List.forall_mem_nil _, sorted := List.Pairwise.nil, known := ?_
             committed := List.forall_mem_nil _, behind := ?_ }
    · rw [harr.calls, List.getElem?_concat_length]
    · cases c with
      | createExecutionJob userId file =>
        exact ⟨List.forall_mem_nil _, List.forall_mem_nil _, Or.inl rfl⟩
      | processJob jobId => exact ⟨rfl, List.mem_cons_self .., List.forall_mem_nil _⟩
    · rw [harr.transactions, hr.pending, hfits.1]
    · rw [World.entriesOf, harr.drawnBy, harr.logs]
      exact hr.entries.trans hfits.2
    · rintro jobId hc
      obtain rfl := Option.some.inj hc
      obtain ⟨k, hk, hid⟩ := hs.published jobId (published_of_accept ha)
      obtain ⟨row, hrow, rfl⟩ := List.mem_map.mp hk
      rw [harr.jobs]
      exact List.mem_map.mpr ⟨row, hrow, hid⟩
    · intro jobId _ log hlog _ _
      exact ⟨h.createdAt_le_now (harr.logs ▸ hlog), List.forall_mem_nil _⟩
  · refine ⟨⟨[], by rw [harr.drawnBy, List.append_nil], List.not_mem_nil⟩, ?_, by
      rw [harr.transactions], ⟨[], by rw [harr.logs, List.append_nil], List.forall_mem_nil _⟩,
      ⟨[], by rw [World.headers, harr.jobs, List.append_nil]; rfl⟩, Nat.le_of_eq hnow.symm⟩
    rw [harr.calls]
    rcases Nat.lt_trichotomy p s.calls.length with hlt | heq | hgt
    · exact List.getElem?_append_left hlt
    · exact absurd heq hp
    · rw [List.getElem?_eq_none (by rw [List.length_append, List.length_singleton]; omega),
        List.getElem?_eq_none (Nat.le_of_lt hgt)]

theorem silent_env {e : Env} (h : World.env e s = some s') : Silent s s' := by
  cases e with
  | tick ms =>
    obtain rfl := Option.some.inj h
    exact ⟨rfl, rfl, rfl, rfl, rfl, Nat.le_add_right _ _⟩
  | prints n frame =>
    rw [World.env] at h
    split at h
    · split at h
      · obtain rfl := Option.some.inj h
        exact ⟨rfl, rfl, rfl, rfl, rfl, Nat.le_refl _⟩
      · cases h
    · cases h
  | exits n code =>
    rw [World.env] at h
    split at h
    · split at h
      · obtain rfl := Option.some.inj h
        exact ⟨rfl, rfl, rfl, rfl, rfl, Nat.le_refl _⟩
      · cases h
    · cases h

/-- What a request has written when it is over. -/
def Ends : (c : Request) → Except JsError ((services C).Ret c) → View → Prop
  | .createExecutionJob _ _, .ok job, v => Submitted job v
  | .createExecutionJob _ _, .error _, v => v.written = [] ∨ ∃ jobId, Queued jobId v
  | .processJob jobId, .ok _, v => On jobId returnedCourses v
  | .processJob jobId, .error _, v => On jobId thrownCourses v

/-- The state is sound, and the record of requests is that of the processes. -/
def Regular (σ : (services C).Sys) : Prop := Linked σ ∧ (outline C False).Holds σ

/-- **The views fit in every state.** -/
theorem kept_jobTypestate : jobTypestate.Kept (services C) (fun σ _ => Regular σ) (Fitting C)
    View.Begins Ends where
  perform hreg hfit hallows hp := fitting_perform hfit hreg.2.1 hallows hp
  compute {pid o s views} hfit := by
    cases o with
    | ulid => exact fitting_ulid hfit
    | now => exact fitting_now hfit
  accept {σ c s views} hreg hfit ha := by
    have hlen := (calls_of_accept hreg.1 ha).1
    rw [← hlen] at ha ⊢
    exact fitting_accept hfit hreg.2.1 ha
  env _ hfit he := hfit.silent (silent_env he)
  obeys c v hv := by
    cases c with
    | createExecutionJob userId file =>
      refine (does_createExecutionJob v ⟨hv.1, hv.2.2⟩).mono fun x v hx => ?_
      cases x with
      | ok job => exact hx
      | error e => exact hx
    | processJob jobId =>
      refine (does_processJob v ⟨hv.1, ?_⟩).mono fun x v hx => ?_
      · rw [View.statuses, hv.2.2, List.map_nil]
      · cases x with
        | ok a => exact hx
        | error e => exact hx

theorem fitting_initial : Fitting C World.initial fun _ => View.initial where
  booked := UlidSource.booked_nil
  accounted _ :=
    { request := rfl, fits := ⟨rfl, rfl⟩, pending := rfl, entries := rfl
      fresh := fun id hid => absurd hid.symm (Option.some_ne_none id)
      drawn := List.forall_mem_nil _, jobs := List.forall_mem_nil _
      created := fun _ _ _ => List.forall_mem_nil _, clock := Nat.le_refl _
      past := List.forall_mem_nil _, sorted := List.Pairwise.nil
      known := fun _ hc => absurd hc.symm (Option.some_ne_none _)
      committed := List.forall_mem_nil _
      behind := fun _ _ => List.forall_mem_nil _ }

theorem regular_step {σ σ' : (services C).Sys} {e : (services C).Event} (h : Regular σ)
    (hs : Service.step σ e = some σ') : Regular σ' :=
  ⟨linked_step h.1 hs, (Outline.holds_step valid_outline h.2 ⟨h.1, False.elim⟩ hs).1⟩

/-- Every state of a run is regular, and so the steps start from regular states. -/
theorem regular_of_reaches {σ : (services C).Sys}
    (h : Service.Reaches Service.anyEvent (start C) σ) :
    Regular σ ∧ Service.Reaches (fun σ _ => Regular σ) (start C) σ := by
  have hstart : Regular (start C) := ⟨linked_start, Outline.holds_of_inv sound_initial⟩
  obtain ⟨hreg, hr⟩ := h.strengthen (fun _ _ _ => regular_step) hstart
  exact ⟨hreg, hr.mono fun _ _ hok => hok.1⟩

/-- In every state of a run there are views that fit, and every process obeys its own. -/
theorem abides_of_run {σ : (services C).Sys}
    (h : Service.Reaches Service.anyEvent (start C) σ) :
    ∃ views, jobTypestate.Abides (Fitting C) Ends σ views :=
  Typestate.abides_of_reaches kept_jobTypestate (Typestate.abides_start fitting_initial)
    (regular_of_reaches h).2

/-! ### The history of a job -/

/-- The one `QUEUED` entry of a job. -/
theorem Fitting.queued_unique (h : Fitting C s views) {log log' : ExecutionJobStatusLog}
    (hlog : log ∈ s.logs) (hlog' : log' ∈ s.logs) (hid : log.jobId = log'.jobId)
    (hstatus : log.status = .QUEUED) (hstatus' : log'.status = .QUEUED) : log = log' := by
  obtain ⟨p, _, _, -, hown, hone, -⟩ := h.queued hlog hstatus
  obtain ⟨p', _, _, -, hown', hone', -⟩ := h.queued hlog' hstatus'
  obtain rfl := owner_unique (hid ▸ hown) hown'
  exact List.singleton_inj.mp (hone.symm.trans hone')

/-- The history of a job begins with its `QUEUED` entry, and has no other. -/
theorem Fitting.history (h : Fitting C s views) (hs : Sound C s) {jobId : JsString}
    (hjob : jobId ∈ s.jobs.map ExecutionJob.id) : ∃ first rest, s.logsOf jobId = first :: rest ∧
      first.status = .QUEUED ∧ ∀ log ∈ rest, log.status ≠ .QUEUED := by
  obtain ⟨row, hrow, rfl⟩ := List.mem_map.mp hjob
  obtain ⟨first, hhead, hstatus⟩ := hs.queued row.key (List.mem_map_of_mem hrow)
  obtain ⟨rest, hlogs⟩ := List.head?_eq_some_iff.mp hhead
  have hlogs : s.logsOf row.id = first :: rest := hlogs
  refine ⟨first, rest, hlogs, hstatus, fun log hlog hqueued => ?_⟩
  have hmem : ∀ log' ∈ first :: rest, log' ∈ s.logs ∧ log'.jobId = row.id := fun log' hlog' => by
    rw [← hlogs] at hlog'
    exact ⟨(List.mem_filter.mp hlog').1, of_decide_eq_true (List.mem_filter.mp hlog').2⟩
  obtain ⟨hfirst, hfirstId⟩ := hmem first (List.mem_cons_self ..)
  obtain ⟨hin, hid⟩ := hmem log (List.mem_cons_of_mem _ hlog)
  have heq := h.queued_unique hfirst hin (hfirstId.trans hid.symm) hstatus hqueued
  -- the ids of the entries differ
  have hnodup : ((first :: rest).map ExecutionJobStatusLog.id).Nodup := by
    rw [← hlogs]
    exact h.booked.nodup.sublist (List.filter_sublist.map _)
  rw [List.map_cons, List.nodup_cons] at hnodup
  exact hnodup.1 (heq ▸ List.mem_map_of_mem hlog)

/-- Who has written an entry: the upload of its job, or a delivery of it. -/
inductive Writer (C : Config) (σ : (services C).Sys) (log : ExecutionJobStatusLog) : Nat → Prop
  | upload {pid : Nat} {userId : JsString} {file : UploadedFile}
      (call : (σ.procs[pid]?).map Service.Proc.call = some (.createExecutionJob userId file))
      (status : log.status = .QUEUED) (only : σ.shared.entriesOf C pid = [log]) : Writer C σ log pid
  | delivery {pid : Nat} (call : (σ.procs[pid]?).map Service.Proc.call = some (.processJob log.jobId))
      (status : log.status ≠ .QUEUED) (mem : log ∈ σ.shared.entriesOf C pid) : Writer C σ log pid

theorem calls_getElem? {σ : (services C).Sys} (hl : Linked σ) (pid : Nat) :
    σ.shared.calls[pid]? = (σ.procs[pid]?).map Service.Proc.call := by
  rw [hl, List.getElem?_map]

/-- What a delivery has written is what the job has from it. -/
theorem Fitting.filter_logsOf (h : Fitting C s views) {jobId : JsString}
    (hcall : s.calls[pid]? = some (.processJob jobId)) :
    (s.logsOf jobId).filter (fun log => s.Owns C pid log.id) = (views pid).written := by
  rw [← (h.accounted pid).entries, World.logsOf, List.filter_filter]
  refine List.filter_congr fun log hlog => ?_
  by_cases ho : s.Owns C pid log.id
  · have hmem : log ∈ (views pid).written := by
      rw [← (h.accounted pid).entries]
      exact UlidSource.mem_rowsOf.mpr ⟨hlog, ho⟩
    rw [(h.delivered hcall hmem).1, decide_eq_true rfl, Bool.and_true]
    rfl
  · rw [decide_eq_false ho, Bool.false_and]
    exact (decide_eq_false ho).symm

/-- Every later entry of a job is of a delivery. -/
theorem Fitting.delivery_of_rest (h : Fitting C s views) {log : ExecutionJobStatusLog}
    (hlog : log ∈ s.logs) (hstatus : log.status ≠ .QUEUED) :
    ∃ p, s.calls[p]? = some (.processJob log.jobId) ∧ s.Owns C p log.id := by
  obtain ⟨p, hown, hmem⟩ := h.writer hlog
  have hr := h.accounted p
  have hfits := hr.fits
  cases hrequest : (views p).request with
  | none =>
    simp only [View.Fits, hrequest] at hfits
    rw [hfits.2] at hmem
    cases hmem
  | some c =>
    cases c with
    | createExecutionJob userId file =>
      simp only [View.Fits, hrequest] at hfits
      rcases hfits.2.2 with hnil | ⟨-, log', hone, hqueued⟩
      · rw [hnil] at hmem
        cases hmem
      · rw [hone] at hmem
        rw [List.mem_singleton.mp hmem] at hstatus
        exact absurd hqueued hstatus
    | processJob jobId =>
      have hcall := hr.request.symm.trans hrequest
      obtain ⟨rfl, -⟩ := h.delivered hcall hmem
      exact ⟨p, hcall, hown⟩

/-- **Every entry has exactly one writer.** -/
theorem exists_writer {σ : (services C).Sys} {views : Nat → View} (hl : Linked σ)
    (h : Fitting C σ.shared views) {log : ExecutionJobStatusLog} (hlog : log ∈ σ.shared.logs) :
    ∃ pid, Writer C σ log pid ∧ ∀ p, Writer C σ log p → p = pid := by
  obtain ⟨pid, hown, hmem⟩ := h.writer hlog
  have hentry : log ∈ σ.shared.entriesOf C pid := by rwa [(h.accounted pid).entries]
  refine ⟨pid, ?_, ?_⟩
  · by_cases hstatus : log.status = .QUEUED
    · obtain ⟨p, userId, file, hown', -, hone, hcall⟩ := h.queued hlog hstatus
      obtain rfl := owner_unique hown hown'
      exact .upload ((calls_getElem? hl pid).symm.trans hcall) hstatus
        ((h.accounted pid).entries.trans hone)
    · obtain ⟨p, hcall, hown'⟩ := h.delivery_of_rest hlog hstatus
      obtain rfl := owner_unique hown hown'
      exact .delivery ((calls_getElem? hl pid).symm.trans hcall) hstatus hentry
  · have howner : ∀ {p}, log ∈ σ.shared.entriesOf C p → p = pid := fun hm =>
      owner_unique (of_decide_eq_true (List.mem_filter.mp hm).2) hown
    rintro p (⟨-, -, honly⟩ | ⟨-, -, hm⟩)
    · exact howner (honly ▸ List.mem_singleton_self _)
    · exact howner hm

/-- What a delivery of a job has written. -/
structure Delivered (C : Config) (σ : (services C).Sys) (jobId : JsString) (pid : Nat)
    (prog : Program Unit) : Prop where
  jobId : ∀ log ∈ σ.shared.entriesOf C pid, log.jobId = jobId
  course : (σ.shared.entriesOf C pid).map ExecutionJobStatusLog.status ∈ courses
  inOrder : (σ.shared.entriesOf C pid).Pairwise fun a b => a.createdAt ≤ b.createdAt
  returned : prog = .ret () →
    (σ.shared.entriesOf C pid).map ExecutionJobStatusLog.status ∈ returnedCourses
  thrown : ∀ e, prog = .fail e →
    (σ.shared.entriesOf C pid).map ExecutionJobStatusLog.status ∈ thrownCourses

theorem delivered_of_abides {σ : (services C).Sys} {views : Nat → View} (hl : Linked σ)
    (h : jobTypestate.Abides (Fitting C) Ends σ views) {pid : Nat} {jobId : JsString}
    {prog : Program Unit} {alive : Bool}
    (hp : σ.procs[pid]? = some ⟨.processJob jobId, prog, alive⟩) :
    Delivered C σ jobId pid prog := by
  have hr := h.shared.accounted pid
  have hcall : σ.shared.calls[pid]? = some (.processJob jobId) := by rw [calls_getElem? hl, hp]; rfl
  have hfits := hr.fits
  simp only [View.Fits, hr.request.trans hcall] at hfits
  refine ⟨?_, ?_, ?_, ?_, ?_⟩
  · rw [hr.entries]
    exact hfits.2.2
  · rw [hr.entries]
    exact hfits.2.1
  · rw [hr.entries]
    exact hr.sorted
  · rintro rfl
    obtain ⟨w, hw, -, hstatuses⟩ := h.returned hp
    rw [hr.entries]
    show (views pid).statuses ∈ _
    rw [hstatuses]
    exact hw
  · rintro e rfl
    obtain ⟨w, hw, -, hstatuses⟩ := h.thrown hp
    rw [hr.entries]
    show (views pid).statuses ∈ _
    rw [hstatuses]
    exact hw

/-- **The history of a job.**  Whatever the order of the steps, whichever calls fail and however
often an entry is delivered: every entry has exactly one writer, the upload of its job or a
delivery of it.  The history of a job begins with the `QUEUED` entry of its upload and has no
other, and the entries of each delivery are on one of the nine courses: to the end when it has
returned, and without a success when it has thrown. -/
theorem job_history {σ : (services C).Sys} (h : Service.Reaches Service.anyEvent (start C) σ) :
    (∀ log ∈ σ.shared.logs, ∃ pid, Writer C σ log pid ∧ ∀ p, Writer C σ log p → p = pid) ∧
    (∀ row ∈ σ.shared.jobs, ∃ first rest, σ.shared.logsOf row.id = first :: rest ∧
      first.status = .QUEUED ∧ ∀ log ∈ rest, log.status ≠ .QUEUED) ∧
    ∀ (pid : Nat) (jobId : JsString) (prog : Program Unit) (alive : Bool),
      σ.procs[pid]? = some ⟨.processJob jobId, prog, alive⟩ → Delivered C σ jobId pid prog := by
  obtain ⟨views, hab⟩ := abides_of_run h
  have hreg := (regular_of_reaches h).1
  exact ⟨fun log hlog => exists_writer hreg.1 hab.shared hlog,
    fun row hrow => hab.shared.history hreg.2.1 (List.mem_map_of_mem hrow),
    fun pid jobId prog alive hp => delivered_of_abides hreg.1 hab hp⟩

theorem job_history_late_execution :
    ∃ σ : (services Config.plain).Sys,
      Service.run (start Config.plain) (firstUpload ++ lateExecution) = some σ ∧
        (σ.shared.logsOf (js "1")).map ExecutionJobStatusLog.status =
          [.QUEUED, .READY, .RUNNING, .FINISHED_WITH_ERROR, .FAILED] ∧
        ∀ log ∈ σ.shared.logs, ∃ pid, Writer Config.plain σ log pid := by
  have hlate : (Service.run (start Config.plain) (firstUpload ++ lateExecution)).map
      (fun σ => (σ.shared.logsOf (js "1")).map ExecutionJobStatusLog.status) =
        some [.QUEUED, .READY, .RUNNING, .FINISHED_WITH_ERROR, .FAILED] := by decide +kernel
  obtain ⟨σ, hσ, hlogs⟩ := Option.map_eq_some_iff.mp hlate
  have hall := job_history (Service.reaches_of_run hσ fun _ _ _ => trivial)
  exact ⟨σ, hσ, hlogs, fun log hlog => (hall.1 log hlog).imp fun _ hw => hw.1⟩

end FullstackSvc.Execution
