import FullstackSvc.Execution.Results

/-!
# Results are visible before completion is

A run of the worker writes the result of its job before it saves an entry that
ends the job, on each of its four paths, and no update takes a result back.  So
whoever finds a terminal entry finds the result in the same state, whatever
failed in between and however often the job was delivered.

* `visibleStages`: the result is in the row when a terminal entry is saved.
* `results_visible`: a terminal entry comes with its result, in the tables and in
  what `getExecutionJob` answers.
-/

namespace FullstackSvc.Execution

open Text Async

variable {C : Config} {pid : Nat} {s s' s'' : World} {jobId : JsString}

/-! ### What the controller answers -/

/-- The answer of `getExecutionJob`. -/
structure JobAnswer where
  id : JsString
  status : Option ExecutionJobStatus
  filePath : JsString
  createdAt : Nat
  output : Option JsString
  error : Option JsString
  exitCode : Option Int
  completedAt : Option Nat
  statusHistory : List (ExecutionJobStatus × Nat)

/-- The row and its entries are read in one statement. -/
def getExecutionJob (job : ExecutionJob) (statuses : List ExecutionJobStatusLog) : JobAnswer :=
  let sortedStatuses := statuses.mergeSort fun a b => a.createdAt ≤ b.createdAt
  { id := job.id
    status := reportedStatus statuses
    filePath := job.filePath
    createdAt := job.createdAt
    output := job.output
    error := job.error
    exitCode := job.exitCode
    completedAt := job.completedAt
    statusHistory := sortedStatuses.map fun status => (status.status, status.createdAt) }

/-! ### Rows with a result -/

structure HasResult (row : ExecutionJob) : Prop where
  exitCode : row.exitCode ≠ none
  completedAt : row.completedAt ≠ none
  text : row.output ≠ none ∨ row.error ≠ none

def Filled (s : World) (jobId : JsString) : Prop := ∃ row ∈ s.jobs, row.id = jobId ∧ HasResult row

/-- Whoever finds a terminal entry finds a result. -/
def Visible (s : World) : Prop := ∀ log ∈ s.logs, log.status.isTerminal = true → Filled s log.jobId

/-- An update that has an output or an error leaves a result. -/
theorem hasResult_update (row : ExecutionJob) {changes : JobUpdate}
    (h : changes.output ≠ none ∨ changes.error ≠ none) : HasResult (row.update changes) where
  exitCode := Option.some_ne_none _
  completedAt := Option.some_ne_none _
  text := by
    rw [ExecutionJob.update]
    rcases h with h | h
    · obtain ⟨output, ho⟩ := Option.ne_none_iff_exists'.mp h
      rw [ho]
      exact Or.inl (Option.some_ne_none _)
    · obtain ⟨error, he⟩ := Option.ne_none_iff_exists'.mp h
      rw [he]
      exact Or.inr (Option.some_ne_none _)

/-- An update takes no result back. -/
theorem HasResult.update {row : ExecutionJob} (h : HasResult row) (changes : JobUpdate) :
    HasResult (row.update changes) where
  exitCode := Option.some_ne_none _
  completedAt := Option.some_ne_none _
  text := h.text.imp (update_output_ne_none changes) (update_error_ne_none changes)

/-! ### The outline -/

/-- Results stay, and new terminal entries come with one. -/
structure Shows (s s' : World) : Prop where
  filled : ∀ jobId, Filled s jobId → Filled s' jobId
  logs : ∃ l, s'.logs = s.logs ++ l ∧ ∀ log ∈ l, log.status.isTerminal = true → Filled s' log.jobId

theorem Shows.visible (h : Shows s s') (hs : Visible s) : Visible s' := by
  obtain ⟨l, hl, hnew⟩ := h.logs
  intro log hlog hterm
  rw [hl] at hlog
  rcases List.mem_append.mp hlog with hlog | hlog
  · exact h.filled _ (hs log hlog hterm)
  · exact hnew log hlog hterm

theorem Shows.trans (h : Shows s s') (h' : Shows s' s'') : Shows s s'' := by
  obtain ⟨l, hl, hnew⟩ := h.logs
  obtain ⟨m, hm, hnew'⟩ := h'.logs
  refine ⟨fun j hj => h'.filled j (h.filled j hj), l ++ m, by rw [hm, hl, List.append_assoc],
    fun log hlog hterm => ?_⟩
  rcases List.mem_append.mp hlog with hlog | hlog
  · exact h'.filled _ (hnew log hlog hterm)
  · exact hnew' log hlog hterm

/-- Rows are added, with entries that end nothing. -/
theorem Shows.of_jobs {l : List ExecutionJob} (hj : s'.jobs = s.jobs ++ l)
    {m : List ExecutionJobStatusLog} (hm : s'.logs = s.logs ++ m) (hopen : NoTerminal m) :
    Shows s s' where
  filled j := fun ⟨row, hrow, hid, hres⟩ => ⟨row, hj ▸ List.mem_append_left _ hrow, hid, hres⟩
  logs := by
    refine ⟨m, hm, fun log hlog hterm => ?_⟩
    rw [hopen log hlog] at hterm
    cases hterm

theorem Shows.of_same (hj : s'.jobs = s.jobs) (hl : s'.logs = s.logs) : Shows s s' :=
  .of_jobs (l := []) (m := []) (by rw [hj, List.append_nil]) (by rw [hl, List.append_nil])
    fun _ hm => by cases hm

theorem Shows.refl : Shows s s := .of_same rfl rfl

theorem Adds.shows (h : Adds s s') : Shows s s' := by
  obtain ⟨l, hl, -⟩ := h.jobs
  obtain ⟨m, hm, hq⟩ := h.logs
  refine .of_jobs hl hm fun log hlog => ?_
  rw [(hq log hlog).1]
  rfl

theorem shows_withUpdate (changes : JobUpdate) : Shows s (s.withUpdate jobId changes) := by
  refine ⟨fun j => ?_, [], by simp [World.withUpdate], by simp⟩
  rintro ⟨row, hrow, rfl, hres⟩
  refine ⟨_, List.mem_map_of_mem hrow, ?_⟩
  split
  · exact ⟨rfl, hres.update changes⟩
  · exact ⟨rfl, hres⟩

def visibleOutline (C : Config) : Outline (services C) where
  ok σ _ := Linked σ
  cmdOk _ _ _ _ := True
  inv s := Sound C s ∧ Visible s
  rely pid _ s s' := Rely C pid s s' ∧ Shows s s'
  guar pid c s s' := Guar C pid c s s' ∧ Shows s s'
  need _ _ _ _ := True
  change _ _ := True
  done _ _ _ _ := True

theorem closed_visible {c : Request} : ((visibleOutline C).ctx pid c).Closed where
  refl _ := ⟨.refl, .refl⟩
  trans _ _ _ h h' := ⟨h.1.trans h'.1, h.2.trans h'.2⟩
  inv _ _ hi hg := ⟨hg.1.sound hi.1, hg.2.visible hi.2⟩

/-- A creation does what it did before. -/
theorem fits_visible {c : Request} (hc : ∀ jobId, c ≠ .processJob jobId) :
    (context C False pid c).Fits ((visibleOutline C).ctx pid c) where
  inv _ h := h.1
  rely _ _ h := h.1
  guar _ _ _ := ⟨fun h => h.1, fun h => ⟨h, (h.adds hc).shows⟩⟩
  need _ _ _ _ := trivial
  ok _ _ _ _ h := h.elim

/-! ### One run -/

abbrev Showing (C : Config) (pid : Nat) (jobId : JsString) {α : Type} (pre : World → Prop)
    (p : Program α) (ok : α → World → Prop) (err : JsError → World → Prop) : Prop :=
  Prog.Triple (host C) pid ((visibleOutline C).ctx pid (.processJob jobId)) pre p ok err

/-- A run on a job, which has a result if `done`. -/
def Ran (pid : Nat) (jobId : JsString) (done : Bool) (s : World) : Prop :=
  Working pid jobId s ∧ (done = true → Filled s jobId)

variable {done : Bool}

theorem Ran.guar (h : Ran pid jobId done s) (hg : Guar C pid (.processJob jobId) s s')
    (hsh : Shows s s') : Ran pid jobId done s' :=
  ⟨steady_working.guar s s' h.1 hg, fun hd => hsh.filled jobId (h.2 hd)⟩

theorem Ran.started (h : Ran pid jobId done s) : Ran pid jobId false s := ⟨h.1, nofun⟩

theorem stable_ran :
    ((visibleOutline C).ctx pid (.processJob jobId)).Stable (Ran pid jobId done) :=
  fun s s' h hr _ => ⟨steady_working.rely s s' h.1 hr.1, fun hd => hr.2.filled jobId (h.2 hd)⟩

/-- A call that shows nothing new. -/
theorem showing_await {c : Cmd} (hc : WorkerCmd c) (hne : ∀ row, c ≠ .saveStatusLog row) :
    Showing C pid jobId (Ran pid jobId done) (await c) (fun _ => Ran pid jobId done)
      fun _ => Ran pid jobId done := by
  refine Prog.Triple.call stable_ran (fun _ _ _ => trivial) fun s r x s' _ hs _ hx => ?_
  have hw := workerStep hc hx
  have hsh : Shows s s' := by
    cases hw with
    | quiet h _ => exact .of_same h.jobs h.same.logs
    | saved _ => exact absurd rfl (hne _)
    | updated => exact shows_withUpdate _
  have hs' := hs.guar (C := C) hw.guar hsh
  refine ⟨⟨hw.guar, hsh⟩, ?_⟩
  cases x with
  | ok a => exact hs'
  | error e => exact hs'

/-- A call that only reads. -/
theorem showing_read {c : Cmd}
    (h : ∀ {s s' : World} {x : Except JsError (sig.Res c)} {r : Reply},
      perform pid c r s = some (x, s') → s' = s) :
    Showing C pid jobId (Ran pid jobId done) (await c) (fun _ => Ran pid jobId done)
      fun _ => Ran pid jobId done := by
  refine Prog.Triple.call stable_ran (fun _ _ _ => trivial) fun s r x s' _ hs _ hx => ?_
  obtain rfl := h hx
  refine ⟨⟨.refl, .refl⟩, ?_⟩
  cases x with
  | ok a => exact hs
  | error e => exact hs

/-- **The update fills the row.** -/
theorem showing_updateResult {output error : Option JsString} {exitCode : Int}
    (h : output ≠ none ∨ error ≠ none) :
    Showing C pid jobId (Ran pid jobId false) (updateResult jobId output error exitCode)
      (fun _ => Ran pid jobId true) fun _ => Ran pid jobId false := by
  refine triple_updateResult closed_visible fun completedAt => ?_
  refine Prog.Triple.call stable_ran (fun _ _ _ => trivial) fun s r x s' hi hs _ hx => ?_
  have hw := workerStep (c := .updateJob jobId _) trivial hx
  rcases perform_updateJob hx with ⟨rfl, -, rfl⟩ | ⟨e, rfl, -, rfl⟩
  · have hg : Guar C pid (.processJob jobId) _ _ := hw.guar
    obtain ⟨row, hrow, hid⟩ := exists_row hi.1 hs.1
    exact ⟨⟨hg, shows_withUpdate _⟩, steady_working.guar s _ hs.1 hg,
      fun _ => ⟨_, mem_withUpdate _ hrow hid, hid, hasResult_update row h⟩⟩
  · exact ⟨⟨.refl, .refl⟩, hs⟩

/-- **A terminal entry is saved on a row that is filled.** -/
theorem showing_createStatusLog {status : ExecutionJobStatus}
    (h : status.isTerminal = true → done = true) :
    Showing C pid jobId (Ran pid jobId done) (createStatusLog jobId status)
      (fun _ => Ran pid jobId done) fun _ => Ran pid jobId done := by
  refine triple_createStatusLog closed_visible (fun s _ hs => ?_) fun id createdAt => ?_
  · have hg : Guar C pid (.processJob jobId) s { s with drawnBy := s.drawnBy ++ [pid] } :=
      guar_draw hs.1.1
    exact ⟨⟨hg, .of_same rfl rfl⟩, hs.guar hg (.of_same rfl rfl)⟩
  · refine Prog.Triple.call stable_ran (fun _ _ _ => trivial) fun s r x s' _ hs _ hx => ?_
    have hw := workerStep (c := .saveStatusLog _) trivial hx
    rcases perform_saveStatusLog hx with ⟨rfl, -, rfl⟩ | ⟨e, rfl, -, rfl⟩
    · have hsh : Shows s { s with logs := s.logs ++ [⟨id, jobId, status, createdAt⟩] } := by
        refine ⟨fun _ hf => hf, _, rfl, fun log hlog hterm => ?_⟩
        obtain rfl := List.mem_singleton.mp hlog
        exact hs.2 (h hterm)
      exact ⟨⟨hw.guar, hsh⟩, hs.guar (C := C) hw.guar hsh⟩
    · exact ⟨⟨.refl, .refl⟩, hs⟩

/-- The row is filled by the time a terminal entry is saved. -/
def visibleStages (pid : Nat) (jobId : JsString) : Stages where
  begun := Ran pid jobId false
  found _ := Ran pid jobId false
  created _ _ := Ran pid jobId false
  exited _ _ _ := Ran pid jobId false
  collected _ _ _ := Ran pid jobId false
  late _ := Ran pid jobId false
  lateSaved _ := Ran pid jobId true
  succeeded := Ran pid jobId true
  errored := Ran pid jobId true
  finished _ := True
  caught _ := Ran pid jobId false
  caughtSaved _ := Ran pid jobId true
  failed _ _ := True

theorem valid_visibleStages : (visibleStages pid jobId).Valid C pid
    ((visibleOutline C).ctx pid (.processJob jobId)) jobId :=
  have hopen : ∀ {status : ExecutionJobStatus}, status.isTerminal = false →
      Showing C pid jobId (Ran pid jobId false) (createStatusLog jobId status)
        (fun _ => Ran pid jobId false) fun _ => Ran pid jobId false :=
    fun hst => showing_createStatusLog fun ht => by rw [hst] at ht; cases ht
  have hclose : ∀ {status : ExecutionJobStatus},
      Showing C pid jobId (Ran pid jobId true) (createStatusLog jobId status)
        (fun _ => Ran pid jobId false) fun _ => Ran pid jobId false :=
    (showing_createStatusLog fun _ => rfl).mono (fun _ h => h) (fun _ _ h => h.started)
      fun _ _ h => h.started
  { find := (showing_read fun hx => by
        rcases perform_findJob hx with ⟨-, rfl⟩ | ⟨_, -, -, rfl⟩ <;> rfl).mono (fun _ h => h)
      (fun found _ h => by cases found <;> exact h) fun _ _ h => h
    ready := fun _ => hopen rfl
    access := fun _ => showing_read fun hx => by
      rcases perform_access hx with ⟨-, rfl⟩ | ⟨_, -, -, rfl⟩ | ⟨-, -, rfl⟩ <;> rfl
    run := fun _ => hopen rfl
    create := fun _ => showing_await trivial fun _ he => by cases he
    start := fun _ _ => showing_await trivial fun _ he => by cases he
    wait := fun _ _ => showing_await trivial fun _ he => by cases he
    kill := fun _ _ => showing_await trivial fun _ he => by cases he
    removeLate := fun _ _ => showing_await trivial fun _ he => by cases he
    saveLate := fun _ => showing_updateResult (Or.inr (Option.some_ne_none _))
    logLate := fun _ => hclose
    logs := fun _ _ _ => showing_await trivial fun _ he => by cases he
    remove := fun _ _ _ _ => showing_await trivial fun _ he => by cases he
    saveOutput := fun _ _ => showing_updateResult (Or.inl (Option.some_ne_none _))
    logSuccess := hclose.mono (fun _ h => h) (fun _ _ _ => trivial) fun _ _ h => h
    saveError := fun _ _ _ _ => showing_updateResult (Or.inr (Option.some_ne_none _))
    logError := hclose.mono (fun _ h => h) (fun _ _ _ => trivial) fun _ _ h => h
    saveCaught := fun _ => (showing_updateResult (Or.inr (Option.some_ne_none _))).mono
      (fun _ h => h) (fun _ _ h => h) fun _ _ _ => trivial
    logCaught := fun _ => hclose.mono (fun _ h => h) (fun _ _ _ => trivial) fun _ _ _ => trivial }

/-! ### Runs -/

theorem Arrives.shows {c : Request} (h : Arrives c s s') : Shows s s' := .of_same h.jobs h.logs

theorem visible_goal {σ : (services C).Sys} {c : Request} {s : World} (hl : Linked σ)
    (hi : (visibleOutline C).inv σ.shared)
    (h : World.accept σ.procs.length c σ.shared = some s) :
    ((services C).body c).wp (host C) σ.procs.length ((visibleOutline C).ctx σ.procs.length c)
      ((visibleOutline C).goal σ.procs.length c) s s := by
  have ha := arrives h
  have hi' : (visibleOutline C).inv s := ⟨ha.sound hi.1, ha.shows.visible hi.2⟩
  cases c with
  | createExecutionJob userId file =>
    obtain ⟨hext, hc⟩ := creating_of_accept hl hi.1 h
    have hp : Proves C False σ.procs.length (.createExecutionJob userId file)
        (Creating C σ.procs.length userId file) (createExecutionJob C userId file) _ _ :=
      proves_createExecutionJob hext
    have hp := hp.of_fits (fits_visible fun _ he => by cases he)
    exact Outline.goal_of_triple (O := visibleOutline C) closed_visible
      (hp.mono (fun _ h => h) (fun _ _ _ => trivial) fun _ _ _ => trivial) hi' hc
  | processJob jobId =>
    exact Outline.goal_of_triple (O := visibleOutline C) closed_visible
      (triple_processJob valid_visibleStages) hi' ⟨(working_of_accept hl h).1, nofun⟩

theorem valid_visibleOutline : (visibleOutline C).Valid where
  rely_refl := ⟨.refl, .refl⟩
  rely_trans h h' := ⟨h.1.trans h'.1, h.2.trans h'.2⟩
  cmdOk_of_ok _ _ := trivial
  guar_inv hi hg := ⟨hg.1.sound hi.1, hg.2.visible hi.2⟩
  guar_rely hne _ hg := ⟨hg.1.rely hne, hg.2⟩
  change_refl := trivial
  change_trans _ _ := trivial
  guar_change _ _ := trivial
  guar_done _ _ _ _ := trivial
  accept h hok ha :=
    have har := arrives ha
    ⟨⟨har.sound h.1.1, har.shows.visible h.1.2⟩, trivial,
      fun pid _ _ => ⟨fun _ => ⟨har.rely pid, har.shows⟩, fun _ _ => trivial⟩,
      visible_goal hok h.1 ha⟩
  env h _ he :=
    have hq := quiet_env he
    have hsh : Shows _ _ := .of_same hq.jobs hq.same.logs
    ⟨⟨hq.same.sound h.1.1, hsh.visible h.1.2⟩, trivial,
      fun pid _ _ => ⟨fun _ => ⟨hq.rely pid, hsh⟩, fun _ _ => trivial⟩⟩

/-- **Results are visible before completion is.**  In every state that any run
reaches, a job with a terminal entry has an exit code, a time of completion and
an output or an error, and so has every answer of `getExecutionJob` that reports
a terminal status. -/
theorem results_visible {σ : (services C).Sys}
    (h : Service.Reaches Service.anyEvent (start C) σ) {row : ExecutionJob}
    (hrow : row ∈ σ.shared.jobs) :
    (∀ log ∈ σ.shared.logsOf row.id, log.status.isTerminal = true → HasResult row) ∧
    ∀ statuses : List ExecutionJobStatusLog, statuses.Perm (σ.shared.logsOf row.id) →
      isTerminal (getExecutionJob row statuses).status = true →
        (getExecutionJob row statuses).exitCode ≠ none ∧
        (getExecutionJob row statuses).completedAt ≠ none ∧
        ((getExecutionJob row statuses).output ≠ none ∨
          (getExecutionJob row statuses).error ≠ none) := by
  have hr := h.strengthen (fun _ _ _ => linked_step) linked_start
  obtain ⟨hs, hv⟩ := (Outline.holds_of_reaches valid_visibleOutline
    (Outline.holds_of_inv ⟨sound_initial, fun _ hm => by cases hm⟩)
    (hr.2.mono fun _ _ hok => hok.1)).1
  have hresult : ∀ log ∈ σ.shared.logsOf row.id, log.status.isTerminal = true → HasResult row := by
    intro log hlog hterm
    obtain ⟨hm, hid⟩ := List.mem_filter.mp hlog
    obtain ⟨row', hrow', hid', hres⟩ := hv log hm hterm
    obtain rfl := row_unique hs hrow' hrow (hid'.trans (of_decide_eq_true hid))
    exact hres
  refine ⟨hresult, fun statuses hp hterm => ?_⟩
  obtain ⟨status, hst, hend⟩ := (Option.any_eq_true _ _).mp hterm
  obtain ⟨log, hlog, rfl⟩ := mem_of_reportedStatus hst
  have hres := hresult log (hp.mem_iff.mp hlog) hend
  exact ⟨hres.exitCode, hres.completedAt, hres.text⟩

/-- The client sees a result after the first of the two terminal entries of a
late run. -/
theorem results_visible_after_timeout :
    ∃ σ, Service.run (start Config.plain) (firstUpload ++ lateExecution.dropLast.dropLast) = some σ ∧
      ∃ row ∈ σ.shared.jobs, HasResult row := by
  have hrun : (Service.run (start Config.plain)
      (firstUpload ++ lateExecution.dropLast.dropLast)).map (fun σ => σ.shared.jobs.map fun row =>
        (σ.shared.logsOf row.id).any fun log => log.status.isTerminal) = some [true] := by
    decide +kernel
  obtain ⟨σ, hσ, hstatus⟩ := Option.map_eq_some_iff.mp hrun
  have hmem : true ∈ σ.shared.jobs.map fun row =>
      (σ.shared.logsOf row.id).any fun log => log.status.isTerminal := by
    rw [hstatus]
    exact List.mem_singleton_self _
  obtain ⟨row, hrow, hany⟩ := List.mem_map.mp hmem
  obtain ⟨log, hlog, hterm⟩ := List.any_eq_true.mp hany
  exact ⟨σ, hσ, row, hrow,
    (results_visible (Service.reaches_of_run hσ fun _ _ _ => trivial) hrow).1 log hlog hterm⟩

end FullstackSvc.Execution
