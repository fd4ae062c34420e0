import Mathlib.Data.List.Nodup
import FullstackSvc.Execution.Terminal

/-!
# Results and statuses

A row has the result of a success or of an error, and each entry that ends a job
says which.  The updates of the worker set some of the columns and never clear
the others, so this holds as long as no update mixes the two: `KeepsKind` is that
condition on the row before an update.

* `resultStages`: the result is in the row before the entry is saved.
* `results_agree`: in such runs the row agrees with the latest status.
-/

namespace FullstackSvc.Execution

open Text Async

variable {C : Config} {pid pid' : Nat} {s s' s'' : World} {jobId : JsString}

/-! ### Results -/

/-- The row has the output of a container that ran its file and exited with 0. -/
structure Succeeded (s : World) (row : ExecutionJob) : Prop where
  exitCode : row.exitCode = some 0
  error : row.error = none
  output : ∃ (n : Nat) (c : Container), s.containers[n]? = some c ∧
    c.file = js "/code-files/" ++ row.filePath ∧ c.exited = some 0 ∧
    row.output = some (utf8Decode c.logs)

/-- The row has an error and an exit code other than 0. -/
structure Errored (row : ExecutionJob) : Prop where
  exitCode : ∃ code, row.exitCode = some code ∧ code ≠ 0
  error : row.error ≠ none
  output : row.output = none

def HasSucceeded (s : World) (jobId : JsString) : Prop :=
  ∃ row ∈ s.jobs, row.id = jobId ∧ Succeeded s row

def HasErrored (s : World) (jobId : JsString) : Prop := ∃ row ∈ s.jobs, row.id = jobId ∧ Errored row

/-- The row has the result that the entry speaks of. -/
structure Justified (s : World) (log : ExecutionJobStatusLog) : Prop where
  success : log.status = .FINISHED_WITH_SUCCESS → HasSucceeded s log.jobId
  error : log.status = .FINISHED_WITH_ERROR ∨ log.status = .FAILED → HasErrored s log.jobId

def Agrees (s : World) : Prop := ∀ log ∈ s.logs, Justified s log

theorem Succeeded.mono {row : ExecutionJob} (h : Succeeded s row) (hk : ContainersKept s s') :
    Succeeded s' row := by
  obtain ⟨n, c, hc, hfile, hexit, hout⟩ := h.output
  obtain ⟨c', hc', hfile', hkept⟩ := hk n c hc
  obtain ⟨hexit', hlog⟩ := hkept 0 hexit
  refine ⟨h.exitCode, h.error, n, c', hc', hfile'.trans hfile, hexit', ?_⟩
  rw [hout, Container.logs, Container.logs, hlog]

/-! ### The outline -/

/-- Results stay of their kind, and new entries are justified. -/
structure Reports (s s' : World) : Prop where
  succeeded : ∀ jobId, HasSucceeded s jobId → HasSucceeded s' jobId
  errored : ∀ jobId, HasErrored s jobId → HasErrored s' jobId
  logs : ∃ l, s'.logs = s.logs ++ l ∧ ∀ log ∈ l, Justified s' log

theorem Justified.mono {log : ExecutionJobStatusLog} (h : Justified s log)
    (hsucc : ∀ jobId, HasSucceeded s jobId → HasSucceeded s' jobId)
    (herr : ∀ jobId, HasErrored s jobId → HasErrored s' jobId) : Justified s' log :=
  ⟨fun hst => hsucc _ (h.success hst), fun hst => herr _ (h.error hst)⟩

/-- An entry that ends nothing. -/
theorem Justified.of_open {log : ExecutionJobStatusLog} (h : log.status.isTerminal = false) :
    Justified s log where
  success he := by
    rw [he] at h
    cases h
  error he := by
    rcases he with he | he
    · rw [he] at h
      cases h
    · rw [he] at h
      cases h

theorem Reports.agrees (h : Reports s s') (hs : Agrees s) : Agrees s' := by
  obtain ⟨l, hl, hj⟩ := h.logs
  intro log hlog
  rw [hl] at hlog
  rcases List.mem_append.mp hlog with hlog | hlog
  · exact (hs log hlog).mono h.succeeded h.errored
  · exact hj log hlog

theorem Reports.trans (h : Reports s s') (h' : Reports s' s'') : Reports s s'' := by
  obtain ⟨l, hl, hj⟩ := h.logs
  obtain ⟨m, hm, hj'⟩ := h'.logs
  refine ⟨fun j hs => h'.succeeded j (h.succeeded j hs), fun j hs => h'.errored j (h.errored j hs),
    l ++ m, by rw [hm, hl, List.append_assoc], fun log hlog => ?_⟩
  rcases List.mem_append.mp hlog with hlog | hlog
  · exact (hj log hlog).mono h'.succeeded h'.errored
  · exact hj' log hlog

/-- The rows with a result are still there. -/
theorem Reports.of_jobs {l : List ExecutionJob} (hj : s'.jobs = s.jobs ++ l)
    (hk : ContainersKept s s')
    (hl : ∃ l, s'.logs = s.logs ++ l ∧ ∀ log ∈ l, Justified s' log) : Reports s s' where
  succeeded j := by
    rintro ⟨row, hrow, hid, hs⟩
    exact ⟨row, by rw [hj]; exact List.mem_append_left _ hrow, hid, hs.mono hk⟩
  errored j := by
    rintro ⟨row, hrow, hid, hs⟩
    exact ⟨row, by rw [hj]; exact List.mem_append_left _ hrow, hid, hs⟩
  logs := hl

theorem Reports.of_quiet (h : Quiet s s') : Reports s s' :=
  .of_jobs (l := []) (by rw [h.jobs, List.append_nil]) h.containers
    ⟨[], by rw [h.same.logs, List.append_nil], fun _ hm => by cases hm⟩

theorem Reports.refl : Reports s s := .of_quiet .refl

theorem Adds.reports (h : Adds s s') (hk : ContainersKept s s') : Reports s s' := by
  obtain ⟨l, hl, -⟩ := h.jobs
  obtain ⟨m, hm, hq⟩ := h.logs
  refine .of_jobs hl hk ⟨m, hm, fun log hlog => ?_⟩
  exact .of_open (by rw [(hq log hlog).1]; rfl)

theorem Succeeded.output_ne_none {row : ExecutionJob} (h : Succeeded s row) : row.output ≠ none := by
  obtain ⟨n, c, _, _, _, hout⟩ := h.output
  rw [hout]
  exact Option.some_ne_none _

/-- An update clears no column. -/
theorem update_output_ne_none {row : ExecutionJob} (changes : JobUpdate) (h : row.output ≠ none) :
    (row.update changes).output ≠ none := by
  rw [ExecutionJob.update]
  cases changes.output with
  | none => exact h
  | some out => exact Option.some_ne_none _

theorem update_error_ne_none {row : ExecutionJob} (changes : JobUpdate) (h : row.error ≠ none) :
    (row.update changes).error ≠ none := by
  rw [ExecutionJob.update]
  cases changes.error with
  | none => exact h
  | some err => exact Option.some_ne_none _

/-- An update that gives the row a result of its kind. -/
theorem reports_withUpdate {changes : JobUpdate}
    (h : ∀ row ∈ s.jobs, row.id = jobId →
      Succeeded s (row.update changes) ∨ Errored (row.update changes)) :
    Reports s (s.withUpdate jobId changes) := by
  have hk : ContainersKept s (s.withUpdate jobId changes) := .of_eq rfl
  have hmem : ∀ row ∈ s.jobs, (if row.id = jobId then row.update changes else row) ∈
      (s.withUpdate jobId changes).jobs := fun row hrow => List.mem_map_of_mem hrow
  refine ⟨fun j => ?_, fun j => ?_, [], by simp [World.withUpdate], by simp⟩
  · rintro ⟨row, hrow, rfl, hs⟩
    refine ⟨_, hmem row hrow, ?_⟩
    split
    · rename_i hid
      refine ⟨rfl, ((h row hrow hid).resolve_right fun he => ?_).mono hk⟩
      exact update_output_ne_none changes hs.output_ne_none he.output
    · exact ⟨rfl, hs.mono hk⟩
  · rintro ⟨row, hrow, rfl, hs⟩
    refine ⟨_, hmem row hrow, ?_⟩
    split
    · rename_i hid
      refine ⟨rfl, (h row hrow hid).resolve_left fun he => ?_⟩
      exact update_error_ne_none changes hs.error he.error
    · exact ⟨rfl, hs⟩

/-- An update that sets no output beside an error, and no error beside an
output. -/
def OneKind (row : ExecutionJob) (changes : JobUpdate) : Prop :=
  (changes.output ≠ none → row.error = none) ∧ (changes.error ≠ none → row.output = none)

instance (row : ExecutionJob) (changes : JobUpdate) : Decidable (OneKind row changes) :=
  inferInstanceAs (Decidable (_ ∧ _))

/-- The update that a call makes. -/
def Cmd.update? : Cmd → Option (JsString × JobUpdate)
  | .updateJob jobId changes => some (jobId, changes)
  | _ => none

/-- The call is no update that mixes the kinds in one of the rows. -/
def FitsRows (jobs : List ExecutionJob) (c : Cmd) : Prop :=
  ∀ u ∈ c.update?, ∀ row ∈ jobs, row.id = u.1 → OneKind row u.2

instance (jobs : List ExecutionJob) (c : Cmd) : Decidable (FitsRows jobs c) :=
  inferInstanceAs (Decidable (∀ u ∈ c.update?, ∀ row ∈ jobs, row.id = u.1 → OneKind row u.2))

/-- What an update writes fits the result that the row has. -/
def KeepsKind (σ : (services C).Sys) : (services C).Event → Prop
  | .resume pid r => r = .done → ∀ c ∈ σ.pending pid, FitsRows σ.shared.jobs c
  | _ => True

instance (σ : (services C).Sys) : (e : (services C).Event) → Decidable (KeepsKind σ e)
  | .resume pid r =>
    inferInstanceAs (Decidable (r = .done → ∀ c ∈ σ.pending pid, FitsRows σ.shared.jobs c))
  | .call _ => isTrue trivial
  | .env _ => isTrue trivial
  | .kill _ => isTrue trivial

def resultOutline (C : Config) : Outline (services C) where
  ok σ e := Linked σ ∧ KeepsKind σ e
  cmdOk _ c r s := r = .done → FitsRows s.jobs c
  inv s := Sound C s ∧ Agrees s
  rely pid _ s s' := Rely C pid s s' ∧ Reports s s'
  guar pid c s s' := Guar C pid c s s' ∧ Reports s s'
  need _ _ _ _ := True
  change _ _ := True
  done _ _ _ _ := True

theorem closed_result {c : Request} : ((resultOutline C).ctx pid c).Closed where
  refl _ := ⟨.refl, .refl⟩
  trans _ _ _ h h' := ⟨h.1.trans h'.1, h.2.trans h'.2⟩
  inv _ _ hi hg := ⟨hg.1.sound hi.1, hg.2.agrees hi.2⟩

/-- A creation does what it did before. -/
theorem fits_result {c : Request} (hc : ∀ jobId, c ≠ .processJob jobId) :
    (context C False pid c).Fits ((resultOutline C).ctx pid c) where
  inv _ h := h.1
  rely _ _ h := h.1
  guar _ _ _ := ⟨fun h => h.1, fun h => ⟨h, (h.adds hc).reports h.containers⟩⟩
  need _ _ _ _ := trivial
  ok _ _ _ _ h := h.elim

/-! ### One run -/

abbrev Reporting (C : Config) (pid : Nat) (jobId : JsString) {α : Type} (pre : World → Prop)
    (p : Program α) (ok : α → World → Prop) (err : JsError → World → Prop) : Prop :=
  Prog.Triple (host C) pid ((resultOutline C).ctx pid (.processJob jobId)) pre p ok err

/-- What a run on a job may know throughout. -/
structure Lasting (C : Config) (pid : Nat) (jobId : JsString) (K : World → Prop) : Prop where
  rely : ∀ s s', K s → Rely C pid s s' → Reports s s' → K s'
  guar : ∀ s s', K s → Guar C pid (.processJob jobId) s s' → Reports s s' → K s'
  working : ∀ s, K s → Working pid jobId s

theorem stable_lasting {K : World → Prop} (hK : Lasting C pid jobId K) :
    ((resultOutline C).ctx pid (.processJob jobId)).Stable K :=
  fun s s' h hr _ => hK.rely s s' h hr.1 hr.2

theorem lasting_working : Lasting C pid jobId (Working pid jobId) where
  rely s s' h hr _ := steady_working.rely s s' h hr
  guar s s' h hg _ := steady_working.guar s s' h hg
  working _ h := h

/-- The row has the result of a success. -/
def Succeeding (pid : Nat) (jobId : JsString) (s : World) : Prop :=
  Working pid jobId s ∧ HasSucceeded s jobId

theorem lasting_succeeding : Lasting C pid jobId (Succeeding pid jobId) where
  rely s s' h hr hrep := ⟨steady_working.rely s s' h.1 hr, hrep.succeeded jobId h.2⟩
  guar s s' h hg hrep := ⟨steady_working.guar s s' h.1 hg, hrep.succeeded jobId h.2⟩
  working _ h := h.1

/-- The row has the result of an error. -/
def Erring (pid : Nat) (jobId : JsString) (s : World) : Prop :=
  Working pid jobId s ∧ HasErrored s jobId

theorem lasting_erring : Lasting C pid jobId (Erring pid jobId) where
  rely s s' h hr hrep := ⟨steady_working.rely s s' h.1 hr, hrep.errored jobId h.2⟩
  guar s s' h hg hrep := ⟨steady_working.guar s s' h.1 hg, hrep.errored jobId h.2⟩
  working _ h := h.1

/-- The row has been looked up. -/
def Held (pid : Nat) (jobId : JsString) (row : ExecutionJob) (s : World) : Prop :=
  Working pid jobId s ∧ row.key ∈ s.keys ∧ row.id = jobId

theorem lasting_held (row : ExecutionJob) : Lasting C pid jobId (Held pid jobId row) where
  rely s s' h hr _ := by
    obtain ⟨l, hl, -⟩ := hr.keys
    exact ⟨steady_working.rely s s' h.1 hr, hl ▸ List.mem_append_left _ h.2.1, h.2.2⟩
  guar s s' h hg _ := by
    obtain ⟨l, hl, -⟩ := hg.keys
    exact ⟨steady_working.guar s s' h.1 hg, hl ▸ List.mem_append_left _ h.2.1, h.2.2⟩
  working _ h := h.1

/-- A property of a container that is kept once it has exited. -/
def Kept (φ : Container → Prop) : Prop :=
  ∀ c c' : Container, φ c → (∀ code, c.exited = some code → c'.exited = some code ∧ c'.log = c.log) →
    φ c'

/-- There is a container for the file of the row, with a property. -/
def Runs (pid : Nat) (jobId : JsString) (row : ExecutionJob) (φ : Container → Prop) (n : Nat)
    (s : World) : Prop :=
  Held pid jobId row s ∧ ∃ c, s.containers[n]? = some c ∧
    c.file = js "/code-files/" ++ row.filePath ∧ φ c

theorem Runs.kept {row : ExecutionJob} {φ : Container → Prop} {n : Nat} (hφ : Kept φ)
    (h : Runs pid jobId row φ n s) (hh : Held pid jobId row s') (hk : ContainersKept s s') :
    Runs pid jobId row φ n s' := by
  obtain ⟨c, hc, hfile, hp⟩ := h.2
  obtain ⟨c', hc', hfile', hkept⟩ := hk n c hc
  exact ⟨hh, c', hc', hfile'.trans hfile, hφ c c' hp hkept⟩

theorem lasting_runs {row : ExecutionJob} {φ : Container → Prop} (hφ : Kept φ) (n : Nat) :
    Lasting C pid jobId (Runs pid jobId row φ n) where
  rely s s' h hr hrep := h.kept hφ ((lasting_held row).rely s s' h.1 hr hrep) hr.containers
  guar s s' h hg hrep := h.kept hφ ((lasting_held row).guar s s' h.1 hg hrep) hg.containers
  working _ h := h.1.1

theorem lasting_exists {K : Nat → World → Prop} (hK : ∀ n, Lasting C pid jobId (K n)) :
    Lasting C pid jobId fun s => ∃ n, K n s where
  rely s s' := fun ⟨n, h⟩ hr hrep => ⟨n, (hK n).rely s s' h hr hrep⟩
  guar s s' := fun ⟨n, h⟩ hg hrep => ⟨n, (hK n).guar s s' h hg hrep⟩
  working s := fun ⟨n, h⟩ => (hK n).working s h

theorem WorkerStep.reports {c : Cmd} {x : Except JsError (sig.Res c)} (h : WorkerStep c x s s')
    (hlog : ∀ row, c ≠ .saveStatusLog row) (hjob : ∀ id changes, c ≠ .updateJob id changes) :
    Reports s s' := by
  cases h with
  | quiet h _ => exact .of_quiet h
  | saved _ => exact absurd rfl (hlog _)
  | updated => exact absurd rfl (hjob _ _)

/-- A call that saves no entry and no result. -/
theorem reporting_await {K : World → Prop} (hK : Lasting C pid jobId K) {c : Cmd}
    (hc : WorkerCmd c) (hlog : ∀ row, c ≠ .saveStatusLog row)
    (hjob : ∀ id changes, c ≠ .updateJob id changes) :
    Reporting C pid jobId K (await c) (fun _ => K) fun _ => K := by
  refine Prog.Triple.call (stable_lasting hK) (fun _ _ _ => trivial) fun s r x s' _ hs _ hx => ?_
  have hw := workerStep hc hx
  have hrep := hw.reports hlog hjob
  have hs' := hK.guar s s' hs hw.guar hrep
  refine ⟨⟨hw.guar, hrep⟩, ?_⟩
  cases x with
  | ok a => exact hs'
  | error e => exact hs'

/-- An entry that is justified. -/
theorem reporting_save {K : World → Prop} (hK : Lasting C pid jobId K)
    {row : ExecutionJobStatusLog} (hj : ∀ s, K s → Justified s row) :
    Reporting C pid jobId K (await (.saveStatusLog row)) (fun _ => K) fun _ => K := by
  refine Prog.Triple.call (stable_lasting hK) (fun _ _ _ => trivial) fun s r x s' _ hs _ hx => ?_
  have hw := workerStep (c := .saveStatusLog row) trivial hx
  rcases perform_saveStatusLog hx with ⟨rfl, -, rfl⟩ | ⟨e, rfl, -, rfl⟩
  · have hrep : Reports s { s with logs := s.logs ++ [row] } := by
      refine .of_jobs (l := []) (by simp) (.of_eq rfl) ⟨[row], rfl, fun log hlog => ?_⟩
      have hk : ContainersKept s { s with logs := s.logs ++ [row] } := .of_eq rfl
      rw [List.mem_singleton.mp hlog]
      exact (hj s hs).mono (fun _ ⟨r, hr, hid, h⟩ => ⟨r, hr, hid, h.mono hk⟩) fun _ h => h
    exact ⟨⟨hw.guar, hrep⟩, hK.guar s _ hs hw.guar hrep⟩
  · exact ⟨⟨.refl, .refl⟩, hs⟩

theorem reporting_createStatusLog {K : World → Prop} (hK : Lasting C pid jobId K)
    {status : ExecutionJobStatus}
    (hj : ∀ id createdAt s, K s → Justified s ⟨id, jobId, status, createdAt⟩) :
    Reporting C pid jobId K (createStatusLog jobId status) (fun _ => K) fun _ => K := by
  refine triple_createStatusLog closed_result (fun s _ hs => ?_) fun id createdAt =>
    reporting_save hK (hj id createdAt)
  have hg : Guar C pid (.processJob jobId) s { s with drawnBy := s.drawnBy ++ [pid] } :=
    guar_draw (hK.working s hs).1
  have hrep : Reports s { s with drawnBy := s.drawnBy ++ [pid] } :=
    .of_jobs (l := []) (by simp) (.of_eq rfl) ⟨[], by simp, by simp⟩
  exact ⟨⟨hg, hrep⟩, hK.guar s _ hs hg hrep⟩

/-- An update that gives the row a result of its kind. -/
theorem reporting_updateResult {K good : World → Prop} (hK : Lasting C pid jobId K)
    {output error : Option JsString} {exitCode : Int}
    (h : ∀ completedAt s, Sound C s → K s →
      (∀ row ∈ s.jobs, row.id = jobId → OneKind row ⟨output, error, exitCode, completedAt⟩) →
      (∀ row ∈ s.jobs, row.id = jobId →
        Succeeded s (row.update ⟨output, error, exitCode, completedAt⟩) ∨
          Errored (row.update ⟨output, error, exitCode, completedAt⟩)) ∧
        good (s.withUpdate jobId ⟨output, error, exitCode, completedAt⟩)) :
    Reporting C pid jobId K (updateResult jobId output error exitCode)
      (fun _ s => Working pid jobId s ∧ good s) fun _ => K := by
  refine triple_updateResult closed_result fun completedAt => ?_
  refine Prog.Triple.call (stable_lasting hK) (fun _ _ _ => trivial) fun s r x s' hi hs hr hx => ?_
  have hw := workerStep (c := .updateJob jobId _) trivial hx
  rcases perform_updateJob hx with ⟨rfl, rfl, rfl⟩ | ⟨e, rfl, -, rfl⟩
  · obtain ⟨hres, hgood⟩ := h completedAt s hi.1 hs (hr rfl _ rfl)
    have hrep := reports_withUpdate hres
    have hg : Guar C pid (.processJob jobId) _ _ := hw.guar
    have hwork := steady_working.guar s _ (hK.working s hs) hg
    exact ⟨⟨hg, hrep⟩, hwork, hgood⟩
  · exact ⟨⟨.refl, .refl⟩, hs⟩

/-- A published job has a row, and an update of the job changes it. -/
theorem exists_row (hs : Sound C s) (h : Working pid jobId s) : ∃ row ∈ s.jobs, row.id = jobId := by
  obtain ⟨row, hrow⟩ := job?_of_published hs h.2
  exact ⟨row, mem_of_job? hrow⟩

theorem mem_withUpdate {row : ExecutionJob} (changes : JobUpdate) (h : row ∈ s.jobs)
    (hid : row.id = jobId) : row.update changes ∈ (s.withUpdate jobId changes).jobs := by
  have := List.mem_map_of_mem (f := fun row => if row.id = jobId then row.update changes else row) h
  rwa [if_pos hid] at this

/-- The update of an error. -/
theorem reporting_saveError {K : World → Prop} (hK : Lasting C pid jobId K) {error : JsString}
    {exitCode : Int} (hcode : exitCode ≠ 0) :
    Reporting C pid jobId K (updateResult jobId none (some error) exitCode)
      (fun _ => Erring pid jobId) fun _ => K := by
  refine reporting_updateResult hK fun completedAt s hi hs hkind => ?_
  have herr : ∀ row ∈ s.jobs, row.id = jobId →
      Errored (row.update ⟨none, some error, exitCode, completedAt⟩) := fun row hrow hid =>
    ⟨⟨exitCode, rfl, hcode⟩, Option.some_ne_none _,
      (hkind row hrow hid).2 (Option.some_ne_none _)⟩
  obtain ⟨row, hrow, hid⟩ := exists_row hi (hK.working s hs)
  exact ⟨fun row hrow hid => Or.inr (herr row hrow hid), _, mem_withUpdate _ hrow hid, hid,
    herr row hrow hid⟩

theorem key_unique (hs : Sound C s) {k k' : JobKey} (h : k ∈ s.keys) (h' : k' ∈ s.keys)
    (hid : k.id = k'.id) : k = k' :=
  List.inj_on_of_nodup_map hs.nodup h h' hid

theorem kept_exited (code : Int) : Kept fun c => c.exited = some code :=
  fun _ _ h hkept => (hkept code h).1

theorem kept_collected (code : Int) (logs : Bytes) :
    Kept fun c => c.exited = some code ∧ c.logs = logs := by
  rintro c c' ⟨h, rfl⟩ hkept
  obtain ⟨h', hlog⟩ := hkept code h
  exact ⟨h', by rw [Container.logs, hlog, Container.logs]⟩

/-- The container of the run has exited, and its log was read. -/
def Collected (pid : Nat) (jobId : JsString) (row : ExecutionJob) (code : Int) (logs : Bytes)
    (s : World) : Prop :=
  ∃ n, Runs pid jobId row (fun c => c.exited = some code ∧ c.logs = logs) n s

theorem lasting_collected (row : ExecutionJob) (code : Int) (logs : Bytes) :
    Lasting C pid jobId (Collected pid jobId row code logs) :=
  lasting_exists fun n => lasting_runs (kept_collected code logs) n

/-- The update of the output. -/
theorem reporting_saveOutput {row : ExecutionJob} {logs : Bytes} :
    Reporting C pid jobId (Collected pid jobId row 0 logs)
      (updateResult jobId (some (utf8Decode logs)) none 0) (fun _ => Succeeding pid jobId)
      fun _ => Collected pid jobId row 0 logs := by
  refine reporting_updateResult (lasting_collected row 0 logs) fun completedAt s hi hs hkind => ?_
  obtain ⟨n, ⟨hw, hkey, hrow⟩, c, hc, hfile, hexit, rfl⟩ := hs
  have hsucc : ∀ row' ∈ s.jobs, row'.id = jobId →
      Succeeded s (row'.update ⟨some (utf8Decode c.logs), none, 0, completedAt⟩) := by
    intro row' hmem hid
    have hpath : row'.filePath = row.filePath :=
      congrArg JobKey.filePath
        (key_unique hi (List.mem_map_of_mem hmem) hkey (hid.trans hrow.symm))
    exact ⟨rfl, (hkind row' hmem hid).1 (Option.some_ne_none _), n, c, hc,
      hfile.trans (by rw [← hpath]; rfl), hexit, rfl⟩
  obtain ⟨row', hmem, hid⟩ := exists_row hi hw
  exact ⟨fun row' hmem hid => Or.inl (hsucc row' hmem hid), _, mem_withUpdate _ hmem hid, hid,
    (hsucc row' hmem hid).mono (.of_eq rfl)⟩

theorem reporting_findJob :
    Reporting C pid jobId (Working pid jobId) (await (.findJob jobId))
      (fun found s => match found with
        | none => Working pid jobId s
        | some row => Held pid jobId row s) fun _ => Working pid jobId := by
  refine Prog.Triple.call (stable_lasting lasting_working) (fun _ _ _ => trivial)
    fun s r x s' _ hs _ hx => ?_
  rcases perform_findJob hx with ⟨rfl, rfl⟩ | ⟨e, rfl, -, rfl⟩
  · refine ⟨⟨.refl, .refl⟩, ?_⟩
    cases hrow : s'.job? jobId with
    | none => exact hs
    | some row => exact ⟨hs, mem_keys_of_job? hrow⟩
  · exact ⟨⟨.refl, .refl⟩, hs⟩

theorem reporting_access {row : ExecutionJob} {path : JsString} :
    Reporting C pid jobId (Held pid jobId row) (await (.access path))
      (fun _ => Held pid jobId row) fun _ => Working pid jobId := by
  refine Prog.Triple.call (stable_lasting (lasting_held row)) (fun _ _ _ => trivial)
    fun s r x s' _ hs _ hx => ?_
  rcases perform_access hx with ⟨rfl, rfl⟩ | ⟨e, rfl, -, rfl⟩ | ⟨rfl, -, rfl⟩
  · exact ⟨⟨.refl, .refl⟩, hs⟩
  · exact ⟨⟨.refl, .refl⟩, hs.1⟩
  · exact ⟨⟨.refl, .refl⟩, hs.1⟩

theorem reporting_create {row : ExecutionJob} :
    Reporting C pid jobId (Held pid jobId row)
      (await (.createContainer (js "/code-files/" ++ row.filePath)))
      (Runs pid jobId row fun _ => True) fun _ => Working pid jobId := by
  refine Prog.Triple.call (stable_lasting (lasting_held row)) (fun _ _ _ => trivial)
    fun s r x s' _ hs _ hx => ?_
  have hw := workerStep (c := .createContainer _) trivial hx
  have hrep := hw.reports (fun _ he => by cases he) fun _ _ he => by cases he
  rcases perform_createContainer hx with ⟨rfl, rfl⟩ | ⟨e, rfl, -, rfl⟩
  · exact ⟨⟨hw.guar, hrep⟩, (lasting_held row).guar s _ hs (hw.guar (C := C)) hrep, _,
      List.getElem?_concat_length, rfl, trivial⟩
  · exact ⟨⟨.refl, .refl⟩, hs.1⟩

theorem reporting_wait {row : ExecutionJob} {n : Nat} :
    Reporting C pid jobId (Runs pid jobId row (fun _ => True) n) (await (.waitOrTimeout n))
      (fun code => Runs pid jobId row (fun c => c.exited = some code) n)
      fun _ => Working pid jobId := by
  refine Prog.Triple.call (stable_lasting (lasting_runs (fun _ _ h _ => h) n))
    (fun _ _ _ => trivial) fun s r x s' _ hs _ hx => ?_
  rcases perform_waitOrTimeout hx with ⟨c, code, rfl, hc, hcode, rfl⟩ | ⟨e, rfl, -, rfl⟩
  · obtain ⟨c', hc', hfile, -⟩ := hs.2
    obtain rfl := Option.some.inj (hc.symm.trans hc')
    exact ⟨⟨.refl, .refl⟩, hs.1, c, hc, hfile, hcode⟩
  · exact ⟨⟨.refl, .refl⟩, hs.1.1⟩

theorem reporting_logs {row : ExecutionJob} {n : Nat} {code : Int} :
    Reporting C pid jobId (Runs pid jobId row (fun c => c.exited = some code) n)
      (await (.containerLogs n)) (Collected pid jobId row code) fun _ => Working pid jobId := by
  refine Prog.Triple.call (stable_lasting (lasting_runs (kept_exited code) n))
    (fun _ _ _ => trivial) fun s r x s' _ hs _ hx => ?_
  rcases perform_containerLogs hx with ⟨c, rfl, hc, rfl⟩ | ⟨e, rfl, -, rfl⟩
  · obtain ⟨c', hc', hfile, hcode⟩ := hs.2
    obtain rfl := Option.some.inj (hc.symm.trans hc')
    exact ⟨⟨.refl, .refl⟩, n, hs.1, c, hc, hfile, hcode, rfl⟩
  · exact ⟨⟨.refl, .refl⟩, hs.1.1⟩

/-- The result is in the row before the entry is saved. -/
def resultStages (pid : Nat) (jobId : JsString) : Stages where
  begun := Working pid jobId
  found := Held pid jobId
  created row := Runs pid jobId row fun _ => True
  exited row n code := Runs pid jobId row (fun c => c.exited = some code) n
  collected := Collected pid jobId
  late _ := Working pid jobId
  lateSaved _ := Erring pid jobId
  succeeded := Succeeding pid jobId
  errored := Erring pid jobId
  finished _ := True
  caught _ := Working pid jobId
  caughtSaved _ := Erring pid jobId
  failed _ _ := True

theorem valid_resultStages : (resultStages pid jobId).Valid C pid
    ((resultOutline C).ctx pid (.processJob jobId)) jobId :=
  have hW : Lasting C pid jobId (Working pid jobId) := lasting_working
  have hquiet : ∀ {K : World → Prop}, Lasting C pid jobId K → ∀ {c : Cmd}, WorkerCmd c →
      (∀ row, c ≠ .saveStatusLog row) → (∀ id changes, c ≠ .updateJob id changes) →
        Reporting C pid jobId K (await c) (fun _ => K) fun _ => Working pid jobId :=
    fun hK _ hc hlog hjob => (reporting_await hK hc hlog hjob).mono (fun _ h => h) (fun _ _ h => h)
      fun _ s h => hK.working s h
  have hopen : ∀ (row : ExecutionJob) {status : ExecutionJobStatus}, status.isTerminal = false →
      Reporting C pid jobId (Held pid jobId row) (createStatusLog jobId status)
        (fun _ => Held pid jobId row) fun _ => Working pid jobId :=
    fun row _ hst => (reporting_createStatusLog (lasting_held row)
      fun _ _ _ _ => .of_open hst).mono (fun _ h => h) (fun _ _ h => h) fun _ _ h => h.1
  have herr : ∀ {status : ExecutionJobStatus}, status ≠ .FINISHED_WITH_SUCCESS →
      Reporting C pid jobId (Erring pid jobId) (createStatusLog jobId status)
        (fun _ => Erring pid jobId) fun _ => Erring pid jobId :=
    fun hst => reporting_createStatusLog lasting_erring
      fun _ _ _ h => ⟨fun he => absurd he hst, fun _ => h.2⟩
  { find := reporting_findJob.mono (fun _ h => h) (fun found _ h => by cases found <;> exact h)
      fun _ _ h => h
    ready := fun row => hopen row rfl
    access := fun _ => reporting_access
    run := fun row => hopen row rfl
    create := fun _ => reporting_create
    start := fun _ n => hquiet (lasting_runs (fun _ _ h _ => h) n) trivial
      (fun _ he => by cases he) fun _ _ he => by cases he
    wait := fun _ _ => reporting_wait
    kill := fun _ _ => hquiet hW trivial (fun _ he => by cases he) fun _ _ he => by cases he
    removeLate := fun _ _ => hquiet hW trivial (fun _ he => by cases he) fun _ _ he => by cases he
    saveLate := fun _ => reporting_saveError hW (by decide)
    logLate := fun _ => (herr (by decide)).mono (fun _ h => h) (fun _ _ h => h.1) fun _ _ h => h.1
    logs := fun _ _ _ => reporting_logs
    remove := fun row _ code logs => hquiet (lasting_collected row code logs) trivial
      (fun _ he => by cases he) fun _ _ he => by cases he
    saveOutput := fun row logs => reporting_saveOutput.mono (fun _ h => h) (fun _ _ h => h)
      fun _ s h => (lasting_collected (C := C) row 0 logs).working s h
    logSuccess := (reporting_createStatusLog lasting_succeeding
      fun _ _ _ h => ⟨fun _ => h.2, fun he => by rcases he with he | he <;> cases he⟩).mono
        (fun _ h => h) (fun _ _ _ => trivial) fun _ _ h => h.1
    saveError := fun row code logs hcode =>
      (reporting_saveError (lasting_collected row code logs) hcode).mono (fun _ h => h)
        (fun _ _ h => h) fun _ s h => (lasting_collected (C := C) row code logs).working s h
    logError := (herr (by decide)).mono (fun _ h => h) (fun _ _ _ => trivial) fun _ _ h => h.1
    saveCaught := fun _ => (reporting_saveError hW (by decide)).mono (fun _ h => h)
      (fun _ _ h => h) fun _ _ _ => trivial
    logCaught := fun _ => (herr (by decide)).mono (fun _ h => h) (fun _ _ _ => trivial)
      fun _ _ _ => trivial }

/-! ### Runs -/

theorem Arrives.reports {c : Request} (h : Arrives c s s') : Reports s s' :=
  .of_jobs (l := []) (by rw [h.jobs, List.append_nil]) (.of_eq h.containers)
    ⟨[], by rw [h.logs, List.append_nil], fun _ hm => by cases hm⟩

theorem result_goal {σ : (services C).Sys} {c : Request} {s : World} (hl : Linked σ)
    (hi : (resultOutline C).inv σ.shared)
    (h : World.accept σ.procs.length c σ.shared = some s) :
    ((services C).body c).wp (host C) σ.procs.length ((resultOutline C).ctx σ.procs.length c)
      ((resultOutline C).goal σ.procs.length c) s s := by
  have ha := arrives h
  have hi' : (resultOutline C).inv s := ⟨ha.sound hi.1, ha.reports.agrees hi.2⟩
  cases c with
  | createExecutionJob userId file =>
    obtain ⟨hext, hc⟩ := creating_of_accept hl hi.1 h
    have hp : Proves C False σ.procs.length (.createExecutionJob userId file)
        (Creating C σ.procs.length userId file) (createExecutionJob C userId file) _ _ :=
      proves_createExecutionJob hext
    have hp := hp.of_fits (fits_result fun _ he => by cases he)
    exact Outline.goal_of_triple (O := resultOutline C) closed_result
      (hp.mono (fun _ h => h) (fun _ _ _ => trivial) fun _ _ _ => trivial) hi' hc
  | processJob jobId =>
    exact Outline.goal_of_triple (O := resultOutline C) closed_result
      (triple_processJob valid_resultStages) hi' (working_of_accept hl h).1

theorem valid_resultOutline : (resultOutline C).Valid where
  rely_refl := ⟨.refl, .refl⟩
  rely_trans h h' := ⟨h.1.trans h'.1, h.2.trans h'.2⟩
  cmdOk_of_ok hok hp hr := hok.2 hr _ (Service.pending_of_await hp)
  guar_inv hi hg := ⟨hg.1.sound hi.1, hg.2.agrees hi.2⟩
  guar_rely hne _ hg := ⟨hg.1.rely hne, hg.2⟩
  change_refl := trivial
  change_trans _ _ := trivial
  guar_change _ _ := trivial
  guar_done _ _ _ _ := trivial
  accept h hok ha :=
    have har := arrives ha
    ⟨⟨har.sound h.1.1, har.reports.agrees h.1.2⟩, trivial,
      fun pid _ _ => ⟨fun _ => ⟨har.rely pid, har.reports⟩, fun _ _ => trivial⟩,
      result_goal hok.1 h.1 ha⟩
  env h _ he :=
    have hq := quiet_env he
    have hrep := Reports.of_quiet hq
    ⟨⟨hq.same.sound h.1.1, hrep.agrees h.1.2⟩, trivial,
      fun pid _ _ => ⟨fun _ => ⟨hq.rely pid, hrep⟩, fun _ _ => trivial⟩⟩

theorem inv_of_reaches {σ : (services C).Sys} (h : Service.Reaches KeepsKind (start C) σ) :
    Sound C σ.shared ∧ Agrees σ.shared :=
  have hr := h.strengthen (fun _ _ _ => linked_step) linked_start
  (Outline.holds_of_reaches valid_resultOutline
    (Outline.holds_of_inv ⟨sound_initial, fun _ hm => by cases hm⟩) hr.2).1

/-- A job has one row. -/
theorem row_unique (hs : Sound C s) {row row' : ExecutionJob} (h : row ∈ s.jobs)
    (h' : row' ∈ s.jobs) (hid : row.id = row'.id) : row = row' := by
  have hnodup : (s.jobs.map ExecutionJob.id).Nodup := by
    have := hs.nodup
    rwa [World.keys, List.map_map] at this
  exact List.inj_on_of_nodup_map hnodup h h' hid

/-- **The row agrees with the status.**  As long as no update writes an output
beside an error or an error beside an output, the row of a job has the result
that any of its entries speaks of, the latest one in whatever order they are
read in particular. -/
theorem results_agree {σ : (services C).Sys} (h : Service.Reaches KeepsKind (start C) σ)
    {row : ExecutionJob} (hrow : row ∈ σ.shared.jobs) {logs : List ExecutionJobStatusLog}
    (hp : logs.Perm (σ.shared.logsOf row.id)) :
    (reportedStatus logs = some .FINISHED_WITH_SUCCESS ∨
        finalStatus (σ.shared.logsOf row.id) = some .FINISHED_WITH_SUCCESS →
      Succeeded σ.shared row) ∧
    ∀ status, status = .FINISHED_WITH_ERROR ∨ status = .FAILED →
      reportedStatus logs = some status ∨ finalStatus (σ.shared.logsOf row.id) = some status →
        Errored row := by
  obtain ⟨hs, ha⟩ := inv_of_reaches h
  have hmem : ∀ status, reportedStatus logs = some status ∨
      finalStatus (σ.shared.logsOf row.id) = some status →
      ∃ log ∈ σ.shared.logs, log.jobId = row.id ∧ log.status = status := by
    intro status hst
    have hlog : ∃ log ∈ σ.shared.logsOf row.id, log.status = status := by
      rcases hst with hst | hst
      · obtain ⟨log, hlog, he⟩ := mem_of_reportedStatus hst
        exact ⟨log, hp.mem_iff.mp hlog, he⟩
      · obtain ⟨log, hlog, he⟩ := Option.map_eq_some_iff.mp hst
        exact ⟨log, List.mem_of_getLast? hlog, he⟩
    obtain ⟨log, hlog, he⟩ := hlog
    obtain ⟨hm, hid⟩ := List.mem_filter.mp hlog
    exact ⟨log, hm, of_decide_eq_true hid, he⟩
  constructor
  · intro hst
    obtain ⟨log, hlog, hid, he⟩ := hmem _ hst
    obtain ⟨row', hrow', hid', hsucc⟩ := (ha log hlog).success he
    obtain rfl := row_unique hs hrow' hrow (hid'.trans hid)
    exact hsucc
  · intro status hkind hst
    obtain ⟨log, hlog, hid, he⟩ := hmem _ hst
    obtain ⟨row', hrow', hid', herr⟩ := (ha log hlog).error (by rw [he]; exact hkind)
    obtain rfl := row_unique hs hrow' hrow (hid'.trans hid)
    exact herr

theorem results_agree_first_execution :
    ∃ σ, Service.runIf KeepsKind (start Config.plain) (firstUpload ++ firstExecution) = some σ ∧
      ∃ row ∈ σ.shared.jobs, Succeeded σ.shared row := by
  have hfinal : (Service.runIf KeepsKind (start Config.plain)
      (firstUpload ++ firstExecution)).map (fun σ => σ.shared.jobs.map fun row =>
        finalStatus (σ.shared.logsOf row.id)) = some [some .FINISHED_WITH_SUCCESS] := by
    decide +kernel
  obtain ⟨σ, hσ, hstatus⟩ := Option.map_eq_some_iff.mp hfinal
  have hmem : some ExecutionJobStatus.FINISHED_WITH_SUCCESS ∈
      σ.shared.jobs.map fun row => finalStatus (σ.shared.logsOf row.id) := by
    rw [hstatus]
    exact List.mem_singleton_self _
  obtain ⟨row, hrow, hst⟩ := List.mem_map.mp hmem
  exact ⟨σ, hσ, row, hrow, (results_agree (Service.reaches_of_runIf hσ) hrow (.refl _)).1
    (Or.inr hst)⟩

/-- The upload is taken, its container exits with code 0, and the entry of the
success cannot be saved. -/
def unreportedExecution : List (services Config.plain).Event :=
  .call (.processJob (js "1")) :: (List.replicate 6 (.resume 1 .done) ++
    .env (.exits 0 0) :: (List.replicate 4 (.resume 1 .done) ++
      .resume 1 (.fails (js "QueryFailedError") (js "Connection lost")) ::
        List.replicate 2 (.resume 1 .done)))

/-- The handler writes an error beside the output. -/
theorem results_disagree_after_unsaved_success :
    ∃ σ, Service.Reaches Service.anyEvent (start Config.plain) σ ∧ ∃ row ∈ σ.shared.jobs,
      finalStatus (σ.shared.logsOf row.id) = some .FAILED ∧ ¬ Errored row := by
  have hfinal : (Service.run (start Config.plain) (firstUpload ++ unreportedExecution)).map
      (fun σ => σ.shared.jobs.map fun row =>
        (finalStatus (σ.shared.logsOf row.id), row.output)) = some [(some .FAILED, some [])] := by
    decide +kernel
  obtain ⟨σ, hσ, hstatus⟩ := Option.map_eq_some_iff.mp hfinal
  have hmem : (some ExecutionJobStatus.FAILED, some []) ∈
      σ.shared.jobs.map fun row => (finalStatus (σ.shared.logsOf row.id), row.output) := by
    rw [hstatus]
    exact List.mem_singleton_self _
  obtain ⟨row, hrow, he⟩ := List.mem_map.mp hmem
  obtain ⟨hst, hout⟩ := Prod.mk.inj he
  refine ⟨σ, Service.reaches_of_run hσ fun _ _ _ => trivial, row, hrow, hst, fun h => ?_⟩
  have := h.output
  rw [hout] at this
  cases this

end FullstackSvc.Execution
