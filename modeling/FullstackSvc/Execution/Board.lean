import Mathlib.Data.List.Forall2
import FullstackSvc.Async.Refinement
import FullstackSvc.Execution.History

/-!
# The job board

What the two services are for, without files, transactions, queue and containers: a `Board`
has jobs with an owner, and what has been reported of each of them by whom.  A job is
submitted with its first report, and then only reports are added, by reporters that each
follow a course.

* `refines_board`: **every step of the services is a step of the board, or none**.
* `board_sound`: what holds of every board that the steps lead to.
* `services_follow_board`: so a run of the services is a run of the board.
-/

namespace FullstackSvc.Execution

open Text Async

variable {C : Config} {pid : Nat} {s s' : World}

structure Report where
  reporter : Nat
  status : ExecutionJobStatus

/-- The jobs with their owners, in the order of their submission, and the reports of each. -/
structure Board where
  jobs : List (JsString × JsString)
  reports : JsString → List Report

namespace Board

def empty : Board := ⟨[], fun _ => []⟩

/-- What one of the reporters has reported of a job. -/
def said (b : Board) (jobId : JsString) (reporter : Nat) : List ExecutionJobStatus :=
  ((b.reports jobId).filter fun r => r.reporter = reporter).map Report.status

def Knows (b : Board) (jobId : JsString) : Prop := jobId ∈ b.jobs.map Prod.fst

/-- A job is submitted by its owner, with its first report. -/
def submit (b : Board) (jobId userId : JsString) (reporter : Nat) : Board :=
  ⟨b.jobs ++ [(jobId, userId)], Function.update b.reports jobId [⟨reporter, .QUEUED⟩]⟩

def report (b : Board) (jobId : JsString) (reporter : Nat) (status : ExecutionJobStatus) : Board :=
  ⟨b.jobs, Function.update b.reports jobId (b.reports jobId ++ [⟨reporter, status⟩])⟩

/-- New jobs are submitted, and a reporter goes on with its course. -/
inductive Step (b : Board) : Board → Prop
  | submit {jobId userId : JsString} {reporter : Nat} (new : ¬ b.Knows jobId) :
    Step b (b.submit jobId userId reporter)
  | report {jobId : JsString} {reporter : Nat} {status : ExecutionJobStatus} (known : b.Knows jobId)
      (course : b.said jobId reporter ++ [status] ∈ courses) :
    Step b (b.report jobId reporter status)

/-- What holds of every board. -/
structure Sound (b : Board) : Prop where
  nodup : (b.jobs.map Prod.fst).Nodup
  unknown : ∀ jobId, ¬ b.Knows jobId → b.reports jobId = []
  submitted : ∀ jobId, b.Knows jobId → ∃ first rest, b.reports jobId = first :: rest ∧
    b.said jobId first.reporter = [.QUEUED] ∧
    ∀ reporter, reporter ≠ first.reporter → b.said jobId reporter ∈ courses

theorem sound_empty : Sound empty where
  nodup := List.nodup_nil
  unknown _ _ := rfl
  submitted jobId h := by cases h

variable {b b' : Board} {jobId userId id : JsString} {reporter other : Nat}
  {status : ExecutionJobStatus}

theorem knows_submit : (b.submit jobId userId reporter).Knows id ↔ b.Knows id ∨ id = jobId := by
  rw [Knows, submit, List.map_append, List.mem_append]
  exact Iff.or Iff.rfl List.mem_singleton

theorem reports_submit_self :
    (b.submit jobId userId reporter).reports jobId = [⟨reporter, .QUEUED⟩] :=
  Function.update_self ..

theorem reports_submit_of_ne (h : id ≠ jobId) :
    (b.submit jobId userId reporter).reports id = b.reports id := Function.update_of_ne h ..

theorem reports_report_self :
    (b.report jobId reporter status).reports jobId = b.reports jobId ++ [⟨reporter, status⟩] :=
  Function.update_self ..

theorem reports_report_of_ne (h : id ≠ jobId) :
    (b.report jobId reporter status).reports id = b.reports id := Function.update_of_ne h ..

theorem said_of_reports (h : b'.reports id = b.reports id) (other : Nat) :
    b'.said id other = b.said id other := by
  rw [said, said, h]

theorem said_submit_self :
    (b.submit jobId userId reporter).said jobId other = if reporter = other then [.QUEUED] else [] := by
  rw [said, reports_submit_self]
  split
  · rename_i he
    rw [List.filter_cons_of_pos (by simpa using he)]
    rfl
  · rename_i hne
    rw [List.filter_cons_of_neg (by simpa using hne)]
    rfl

/-- One report more. -/
theorem said_report_self : (b.report jobId reporter status).said jobId other =
    b.said jobId other ++ if reporter = other then [status] else [] := by
  rw [said, said, reports_report_self, List.filter_append, List.map_append]
  congr 1
  split
  · rename_i he
    rw [List.filter_cons_of_pos (by simpa using he)]
    rfl
  · rename_i hne
    rw [List.filter_cons_of_neg (by simpa using hne)]
    rfl

/-- The course of a delivery never goes on from the `QUEUED` of an upload. -/
theorem queued_ends (status : ExecutionJobStatus) : [.QUEUED] ++ [status] ∉ courses := by
  cases status <;> decide

theorem Sound.submit (h : Sound b) (hnew : ¬ b.Knows jobId) :
    Sound (b.submit jobId userId reporter) where
  nodup := by
    rw [Board.submit, List.map_append, List.nodup_append]
    refine ⟨h.nodup, List.nodup_cons.mpr ⟨List.not_mem_nil, List.nodup_nil⟩, fun id hid id' hid' he => ?_⟩
    obtain rfl : id' = jobId := List.mem_singleton.mp hid'
    exact hnew (he ▸ hid)
  unknown id hid := by
    rw [knows_submit, not_or] at hid
    exact (reports_submit_of_ne hid.2).trans (h.unknown id hid.1)
  submitted id hid := by
    by_cases hj : id = jobId
    · subst hj
      refine ⟨_, [], reports_submit_self, by rw [said_submit_self, if_pos rfl], fun other hne => ?_⟩
      rw [said_submit_self, if_neg (Ne.symm hne)]
      exact List.mem_cons_self ..
    · obtain ⟨first, rest, hreports, hfirst, hothers⟩ :=
        h.submitted id ((knows_submit.mp hid).resolve_right hj)
      have hsame : (b.submit jobId userId reporter).reports id = b.reports id :=
        reports_submit_of_ne hj
      refine ⟨first, rest, hsame.trans hreports, (said_of_reports hsame _).trans hfirst,
        fun other hne => ?_⟩
      rw [said_of_reports hsame]
      exact hothers other hne

theorem Sound.report (h : Sound b) (hknown : b.Knows jobId)
    (hcourse : b.said jobId reporter ++ [status] ∈ courses) :
    Sound (b.report jobId reporter status) where
  nodup := h.nodup
  unknown id hid := by
    have hne : id ≠ jobId := by
      rintro rfl
      exact hid hknown
    exact (reports_report_of_ne hne).trans (h.unknown id hid)
  submitted id hid := by
    obtain ⟨first, rest, hreports, hfirst, hothers⟩ := h.submitted id hid
    by_cases hj : id = jobId
    · subst hj
      have hne : reporter ≠ first.reporter := by
        rintro rfl
        rw [hfirst] at hcourse
        exact queued_ends status hcourse
      refine ⟨first, rest ++ [⟨reporter, status⟩], ?_, ?_, fun other hother => ?_⟩
      · rw [reports_report_self, hreports, List.cons_append]
      · rw [said_report_self, if_neg hne, List.append_nil]
        exact hfirst
      · rw [said_report_self]
        split
        · rename_i he
          subst he
          exact hcourse
        · rw [List.append_nil]
          exact hothers other hother
    · have hsame : (b.report jobId reporter status).reports id = b.reports id :=
        reports_report_of_ne hj
      refine ⟨first, rest, hsame.trans hreports, (said_of_reports hsame _).trans hfirst,
        fun other hne => ?_⟩
      rw [said_of_reports hsame]
      exact hothers other hne

/-- **Every step keeps the board sound.** -/
theorem Sound.step (h : Sound b) (hs : Step b b') : Sound b' := by
  cases hs with
  | submit hnew => exact h.submit hnew
  | report hknown hcourse => exact h.report hknown hcourse

end Board

/-! ### What the services show -/

/-- The board that the tables are: the rows, and the entries with their writers. -/
structure Displays (C : Config) (s : World) (b : Board) : Prop where
  jobs : b.jobs = s.keys.map fun k => (k.id, k.userId)
  reports : ∀ jobId, List.Forall₂ (fun log (r : Report) =>
    s.Owns C r.reporter log.id ∧ r.status = log.status) (s.logsOf jobId) (b.reports jobId)

variable {b : Board}

theorem displays_initial : Displays C World.initial Board.empty where
  jobs := rfl
  reports _ := .nil

theorem Displays.knows (h : Displays C s b) {jobId : JsString} :
    b.Knows jobId ↔ jobId ∈ s.jobs.map ExecutionJob.id := by
  rw [Board.Knows, h.jobs, map_id_keys, List.map_map]
  rfl

/-- Nothing that the board speaks of has changed. -/
theorem Displays.mono (h : Displays C s b) (hk : s'.keys = s.keys) (hl : s'.logs = s.logs)
    (ho : ∀ {p id}, s.Owns C p id → s'.Owns C p id) : Displays C s' b where
  jobs := by rw [h.jobs, hk]
  reports jobId := by
    have hlogs : s'.logsOf jobId = s.logsOf jobId := by rw [World.logsOf, World.logsOf, hl]
    rw [hlogs]
    exact (h.reports jobId).imp fun _ _ hr => ⟨ho hr.1, hr.2⟩

/-- What a process has said of a job is what it has written for it. -/
theorem Displays.said (h : Displays C s b) (jobId : JsString) (pid : Nat) :
    b.said jobId pid = ((s.logsOf jobId).filter fun log => s.Owns C pid log.id).map
      ExecutionJobStatusLog.status := by
  rw [Board.said]
  have hall := h.reports jobId
  generalize s.logsOf jobId = logs at hall ⊢
  generalize b.reports jobId = reports at hall ⊢
  induction hall with
  | nil => rfl
  | @cons log r logs reports hr _ ih =>
    by_cases hp : r.reporter = pid
    · subst hp
      rw [List.filter_cons_of_pos (by simp), List.filter_cons_of_pos (by simpa using hr.1),
        List.map_cons, List.map_cons, ih, hr.2]
    · have hnot : ¬ s.Owns C pid log.id := fun ho => hp (owner_unique hr.1 ho)
      rw [List.filter_cons_of_neg (by simpa using hp), List.filter_cons_of_neg (by simpa using hnot),
        ih]

/-- Operations leave the tables alone, and who owns what. -/
theorem Displays.settle {α : Type} (h : Displays C s b) (pid : Nat) (p : Program α) :
    Displays C (p.settle (host C) pid s).2 b := by
  have hjobs : (p.settle (host C) pid s).2.jobs = s.jobs :=
    Prog.settle_keeps (f := World.jobs) (fun o _ => by cases o <;> rfl) p s
  have hlogs : (p.settle (host C) pid s).2.logs = s.logs :=
    Prog.settle_keeps (f := World.logs) (fun o _ => by cases o <;> rfl) p s
  obtain ⟨l, hl⟩ : ∃ l, (p.settle (host C) pid s).2.drawnBy = s.drawnBy ++ l := by
    refine Prog.settle_inv (J := fun s' => ∃ l, s'.drawnBy = s.drawnBy ++ l) ?_ p s
      ⟨[], (List.append_nil _).symm⟩
    rintro o s' ⟨l, hl⟩
    cases o with
    | ulid =>
      refine ⟨l ++ [pid], ?_⟩
      show s'.drawnBy ++ [pid] = _
      rw [hl, List.append_assoc]
    | now => exact ⟨l, hl⟩
  exact h.mono (by rw [World.keys, World.keys, hjobs]) hlogs fun ho => owns_mono hl ho

/-- A call that neither commits nor saves shows nothing new. -/
theorem Displays.quiet (h : Displays C s b) {c : Cmd} {r : Reply} {x : Except JsError (sig.Res c)}
    (hp : perform pid c r s = some (x, s')) (hcommit : c ≠ .commitTransaction)
    (hsave : ∀ row, c ≠ .saveStatusLog row) : Displays C s' b := by
  by_cases hc : c.IsSilent
  · have hs := silent_perform hc hp
    refine h.mono hs.keys hs.logs fun ho => ?_
    rwa [World.Owns, hs.drawnBy]
  · cases c with
    | startTransaction =>
      rcases perform_startTransaction hp with ⟨-, rfl⟩ | ⟨e, -, -, rfl⟩
      · exact h.mono rfl rfl id
      · exact h
    | rollbackTransaction =>
      rcases perform_rollbackTransaction hp with ⟨-, rfl⟩ | ⟨e, -, -, rfl⟩
      · exact h.mono rfl rfl id
      · exact h
    | insertJob row =>
      rcases perform_insertJob hp with ⟨-, -, rfl⟩ | ⟨e, -, -, rfl⟩
      · exact h.mono rfl rfl id
      · exact h
    | insertStatusLog row =>
      rcases perform_insertStatusLog hp with ⟨-, -, rfl⟩ | ⟨e, -, -, rfl⟩
      · exact h.mono rfl rfl id
      · exact h
    | commitTransaction => exact absurd rfl hcommit
    | saveStatusLog row => exact absurd rfl (hsave row)
    | _ => exact absurd trivial hc

/-- **The commit** submits the job. -/
theorem Displays.commit (h : Displays C s b) (hs : Sound C s) {job : ExecutionJob}
    {log : ExecutionJobStatusLog} (hc : Commits C s pid job log) :
    Displays C (s.committed pid) (b.submit job.id job.userId pid) ∧ ¬ b.Knows job.id := by
  have hkeys : (s.committed pid).keys = s.keys ++ [job.key] := by
    show (s.jobs ++ (s.transactions pid).jobs).map ExecutionJob.key = _
    rw [hc.pending, List.map_append]
    rfl
  have hlogs : (s.committed pid).logs = s.logs ++ [log] := by
    show s.logs ++ (s.transactions pid).logs = _
    rw [hc.pending]
  have hnot : ¬ b.Knows job.id := fun hk => hc.newJob (h.knows.mp hk)
  refine ⟨⟨?_, fun jobId => ?_⟩, hnot⟩
  · rw [hkeys, List.map_append, ← h.jobs]
    rfl
  · rw [World.logsOf_of_append hlogs]
    by_cases hj : jobId = job.id
    · subst hj
      have hnil : s.logsOf job.id = [] := by
        refine List.filter_eq_nil_iff.mpr fun log' hlog' he => ?_
        obtain ⟨k, hk, hid⟩ := hs.logged log' hlog'
        refine hc.newJob ?_
        rw [map_id_keys]
        exact List.mem_map.mpr ⟨k, hk, hid.trans (of_decide_eq_true he)⟩
      rw [Board.reports_submit_self, if_pos hc.jobId, hnil, List.nil_append]
      exact .cons ⟨hc.ownsLog, hc.status.symm⟩ .nil
    · rw [Board.reports_submit_of_ne hj, if_neg fun he => hj (he.symm.trans hc.jobId),
        List.append_nil]
      exact h.reports jobId

/-- **An entry of a delivery** is a report of it. -/
theorem Displays.save (h : Displays C s b) {row : ExecutionJobStatusLog}
    (ho : s.Owns C pid row.id) :
    Displays C { s with logs := s.logs ++ [row] } (b.report row.jobId pid row.status) where
  jobs := h.jobs
  reports jobId := by
    rw [World.logsOf_of_append (s := s) rfl]
    by_cases hj : jobId = row.jobId
    · subst hj
      rw [Board.reports_report_self, if_pos rfl]
      exact List.rel_append (h.reports row.jobId) (.cons ⟨ho, rfl⟩ .nil)
    · rw [Board.reports_report_of_ne hj, if_neg (Ne.symm hj), List.append_nil]
      exact h.reports jobId

/-- What a delivery has said is what it has written. -/
theorem Displays.said_delivery (h : Displays C s b) {views : Nat → View} (hf : Fitting C s views)
    {jobId : JsString} (hcall : s.calls[pid]? = some (.processJob jobId)) :
    b.said jobId pid = (views pid).statuses := by
  rw [h.said, hf.filter_logsOf hcall]
  rfl

/-! ### The refinement -/

/-- A regular state with views that fit, and the board that it is. -/
structure OnBoard (σ : (services C).Sys) (b : Board) : Prop where
  regular : Regular σ
  abides : ∃ views, jobTypestate.Abides (Fitting C) Ends σ views
  displays : Displays C σ.shared b

/-- What a command does to the board. -/
theorem displays_perform {views : Nat → View} (hf : Fitting C s views) (hs : Sound C s)
    (h : Displays C s b) {c : Cmd} {r : Reply} {x : Except JsError (sig.Res c)}
    (hallows : (views pid).allows c) (hp : perform pid c r s = some (x, s')) :
    ∃ b', Displays C s' b' ∧ Relation.ReflGen Board.Step b b' := by
  by_cases hcommit : c = .commitTransaction
  · subst hcommit
    rcases perform_commitTransaction hp with ⟨-, rfl⟩ | ⟨e, -, -, rfl⟩
    · obtain ⟨job, log, hc⟩ := hf.commits hs hallows
      obtain ⟨hd, hnew⟩ := h.commit hs hc
      exact ⟨_, hd, .single (.submit hnew)⟩
    · exact ⟨b, h, .refl⟩
  by_cases hsave : ∃ row, c = .saveStatusLog row
  · obtain ⟨row, rfl⟩ := hsave
    rcases perform_saveStatusLog hp with ⟨-, hjob, rfl⟩ | ⟨e, -, -, rfl⟩
    · obtain ⟨hrequest, hfresh, -, hcourse⟩ := hallows
      have hr := hf.accounted pid
      refine ⟨_, h.save (hr.fresh _ hfresh).1, .single (.report (h.knows.mpr hjob) ?_)⟩
      rw [h.said_delivery hf (hr.request.symm.trans hrequest)]
      exact hcourse
    · exact ⟨b, h, .refl⟩
  · exact ⟨b, h.quiet hp hcommit fun row he => hsave ⟨row, he⟩, .refl⟩

/-- **Every step of the services is a step of the board, or none.** -/
theorem refines_board : Refines Service.anyEvent (OnBoard (C := C)) Board.Step := by
  intro σ e σ' b _ hs h
  obtain ⟨views, hab⟩ := h.abides
  obtain ⟨views', hab', -⟩ := Typestate.abides_step kept_jobTypestate hab h.regular hs
  have hreg' := regular_step h.regular hs
  suffices hd : ∃ b', Displays C σ'.shared b' ∧ Relation.ReflGen Board.Step b b' by
    obtain ⟨b', hd, hnext⟩ := hd
    exact ⟨b', ⟨hreg', ⟨views', hab'⟩, hd⟩, hnext⟩
  cases e with
  | call c =>
    obtain ⟨s, ha, rfl⟩ := Service.step_call hs
    have harr := arrives ha
    refine ⟨b, Displays.settle ?_ _ _, .refl⟩
    exact h.displays.mono harr.keys harr.logs harr.owns.mpr
  | resume pid r =>
    obtain ⟨c, d, k, x, s, hget, hperf, rfl⟩ := Service.step_resume hs
    obtain ⟨b', hd, hnext⟩ := displays_perform hab.shared h.regular.2.1 h.displays
      (hab.allowed (Service.pending_of_await hget)) hperf
    exact ⟨b', hd.settle pid _, hnext⟩
  | env e =>
    obtain ⟨s, he, rfl⟩ := Service.step_env hs
    have hsilent := silent_env he
    refine ⟨b, h.displays.mono hsilent.keys hsilent.logs fun ho => ?_, .refl⟩
    rwa [World.Owns, hsilent.drawnBy]
  | kill pid =>
    obtain ⟨p, -, -, rfl⟩ := Service.step_kill hs
    exact ⟨b, h.displays, .refl⟩

/-- **The services are a job board.**  Whatever happens in a run, its first state is the empty
board, and between any two of its states the board goes on by its own steps: a job is submitted
with its first report, or a reporter goes on with its course.  And every board that comes so is
sound: a job has the `QUEUED` of its submission first, and every other reporter is on a course. -/
theorem services_follow_board {σ : (services C).Sys}
    (h : Service.Reaches Service.anyEvent (start C) σ) :
    ∃ b, Displays C σ.shared b ∧ Relation.ReflTransGen Board.Step Board.empty b ∧ b.Sound ∧
      ∀ σ', Service.Reaches Service.anyEvent σ σ' →
        ∃ b', Displays C σ'.shared b' ∧ Relation.ReflTransGen Board.Step b b' := by
  have hstart : OnBoard (start C) Board.empty :=
    ⟨⟨linked_start, Outline.holds_of_inv sound_initial⟩,
      ⟨_, Typestate.abides_start fitting_initial⟩, displays_initial⟩
  obtain ⟨b, hb, hsteps⟩ := refines_board.reaches hstart h
  refine ⟨b, hb.displays, hsteps, inv_of_steps (J := Board.Sound) Board.Sound.step Board.sound_empty hsteps,
    fun σ' h' => ?_⟩
  obtain ⟨b', hb', hsteps'⟩ := refines_board.reaches hb h'
  exact ⟨b', hb'.displays, hsteps'⟩

theorem services_follow_board_first_upload :
    ∃ (σ : (services Config.plain).Sys) (b : Board),
      Service.run (start Config.plain) firstUpload = some σ ∧
        Relation.ReflTransGen Board.Step Board.empty b ∧ b.jobs = [(js "1", js "ann")] := by
  have hkeys : (Service.run (start Config.plain) firstUpload).map
      (fun σ => σ.shared.keys.map fun k => (k.id, k.userId)) = some [(js "1", js "ann")] := by
    decide +kernel
  obtain ⟨σ, hσ, hjobs⟩ := Option.map_eq_some_iff.mp hkeys
  obtain ⟨b, hb, hsteps, -⟩ := services_follow_board (Service.reaches_of_run hσ fun _ _ _ => trivial)
  exact ⟨σ, b, hσ, hsteps, hb.jobs.trans hjobs⟩

end FullstackSvc.Execution
