import FullstackSvc.Execution.Reachable

/-!
# What a failed creation leaves behind

`createExecutionJob` run alone, with one reply for each of its steps.

* `alone_createExecutionJob`: what becomes of the state, by the step that fails.
* `creation_all_or_nothing_iff`: when a call has done all or nothing, and that
  no job is stuck when adding to the queue never fails.
-/

namespace FullstackSvc.Execution

open Text Async

variable {C : Config} {pid : Nat} {s s' s'' : World} {rs : List Reply}

/-! ### All or nothing -/

/-- The code files, the tables and the queue are as they were. -/
structure Unchanged (s s' : World) : Prop where
  directories : s'.directories = s.directories
  files : s'.files = s.files
  jobs : s'.jobs = s.jobs
  logs : s'.logs = s.logs
  waiting : s'.waiting = s.waiting
  taken : s'.taken = s.taken

theorem Unchanged.refl : Unchanged s s := ⟨rfl, rfl, rfl, rfl, rfl, rfl⟩

theorem Unchanged.trans (h : Unchanged s s') (h' : Unchanged s' s'') : Unchanged s s'' :=
  ⟨h'.directories.trans h.directories, h'.files.trans h.files, h'.jobs.trans h.jobs,
    h'.logs.trans h.logs, h'.waiting.trans h.waiting, h'.taken.trans h.taken⟩

/-- One new file, one new row, its `QUEUED` entry and its entry in the queue. -/
structure AddsOne (C : Config) (userId : JsString) (file : UploadedFile) (job : ExecutionJob)
    (s s' : World) : Prop where
  newFile : s.files (join C.basePath job.filePath) = none
  files : s'.files = Function.update s.files (join C.basePath job.filePath) (some file.buffer)
  newRow : job.id ∉ s.jobs.map ExecutionJob.id
  userId : job.userId = userId
  jobs : s'.jobs = s.jobs ++ [job]
  logs : ∃ log, s'.logs = s.logs ++ [log] ∧ log.jobId = job.id ∧ log.status = .QUEUED
  waiting : s'.waiting = s.waiting ++ [job.id]
  taken : s'.taken = s.taken

/-- Everything when the call returns, nothing when it throws. -/
def AllOrNothing (C : Config) (userId : JsString) (file : UploadedFile) :
    Except JsError ExecutionJob → World → World → Prop
  | .ok job, s, s' => AddsOne C userId file job s s'
  | .error _, s, s' => Unchanged s s'

/-- No step fails, or the first one does, or the file cannot be opened in a
directory that was there before. -/
def Harmless (C : Config) (s : World) (rs : List Reply) : Prop :=
  (∀ r ∈ rs, r = .done) ∨ (∃ r rest, rs = r :: rest ∧ r ≠ .done) ∨
    s.directories C.basePath = true ∧ ∃ r rest, rs = .done :: r :: rest ∧ r ≠ .done

/-- The ids that are still to be drawn are in no row and in no name of a file. -/
structure Fresh (C : Config) (s : World) : Prop where
  rows : ∀ n, s.drawnBy.length ≤ n → C.ulid.text n ∉ s.jobs.map ExecutionJob.id
  files : ∀ n, s.drawnBy.length ≤ n →
    s.files (join C.basePath (codeFile (C.ulid.text n))) = none

theorem fresh_of_sound (hs : Sound C s) : Fresh C s where
  rows n hn hm := by
    obtain ⟨k, hk, he⟩ := mem_ids_iff.mp hm
    obtain ⟨p, file, -, ⟨m, hm, hid⟩, -⟩ := hs.origin k hk
    have hlt := (List.getElem?_eq_some_iff.mp hm).1
    obtain rfl := C.ulid.injective (hid.trans he)
    exact absurd hlt (Nat.not_lt.mpr hn)
  files := hs.unwritten

/-! ### One step -/

/-- A step that can be done, and what follows it: it is done and the rest runs,
or it fails and the call throws. -/
theorem alone_then {β : Type} {c : Cmd} {f : sig.Res c → Program β} {a : sig.Res c}
    {x : Except JsError β} (hdone : performDone pid c s = some (.ok a, s''))
    (h : ((await c).bind f).runAlone (host C) pid rs s = some (x, s')) :
    (∃ rest, rs = .done :: rest ∧ (f a).runAlone (host C) pid rest s'' = some (x, s')) ∨
      ∃ r, rs = [r] ∧ r ≠ .done ∧ (∃ e, x = .error e) ∧
        (s' = s ∨ ∃ path bytes n, c = .writeBytes path bytes ∧
          s' = { s with files := Function.update s.files path (some (bytes.take n)) }) := by
  rcases Prog.runAlone_bind h with ⟨rs₁, rs₂, b, s₁, rfl, h₁, h₂⟩ | ⟨e, rfl, h₁⟩
  · obtain ⟨r, rfl, hp⟩ := Prog.runAlone_call h₁
    rcases perform_cases hp with ⟨rfl, hd⟩ | ⟨-, e, he, -⟩ | ⟨_, _, _, e, -, -, he, -⟩
    · obtain ⟨hb, rfl⟩ := Prod.mk.inj (Option.some.inj (hdone.symm.trans hd))
      obtain rfl := Except.ok.inj hb
      exact Or.inl ⟨rs₂, rfl, h₂⟩
    · cases he
    · cases he
  · obtain ⟨r, rfl, hp⟩ := Prog.runAlone_call h₁
    rcases perform_cases hp with ⟨rfl, hd⟩ | ⟨hne, e, -, -, rfl⟩ | ⟨path, bytes, n, e, hc, hne, -, -, hs⟩
    · cases (Prod.mk.inj (Option.some.inj (hdone.symm.trans hd))).1
    · exact Or.inr ⟨r, rfl, hne, ⟨_, rfl⟩, Or.inl rfl⟩
    · exact Or.inr ⟨r, rfl, hne, ⟨_, rfl⟩, Or.inr ⟨path, bytes, n, hc, hs⟩⟩

/-- A step other than a write has done nothing when it fails. -/
theorem alone_step {β : Type} {c : Cmd} {f : sig.Res c → Program β} {a : sig.Res c}
    {x : Except JsError β} (hc : ∀ path bytes, c ≠ .writeBytes path bytes)
    (hdone : performDone pid c s = some (.ok a, s''))
    (h : ((await c).bind f).runAlone (host C) pid rs s = some (x, s')) :
    (∃ rest, rs = .done :: rest ∧ (f a).runAlone (host C) pid rest s'' = some (x, s')) ∨
      ∃ r, rs = [r] ∧ r ≠ .done ∧ (∃ e, x = .error e) ∧ s' = s := by
  rcases alone_then hdone h with hok | ⟨r, hr, hne, he, rfl | ⟨path, bytes, n, hw, -⟩⟩
  · exact Or.inl hok
  · exact Or.inr ⟨r, hr, hne, he, rfl⟩
  · exact absurd hw (hc path bytes)

/-! ### The transaction -/

/-- Everything so far went well, or something failed and the tables are as they
were. -/
def Outcome {α : Type} (good : α → Prop) (rs : List Reply) (x : Except JsError α) (s s' : World) :
    Prop :=
  (∃ a, x = .ok a ∧ (∀ r ∈ rs, r = .done) ∧ good a) ∨
    (∃ e, x = .error e) ∧ (∃ r ∈ rs, r ≠ .done) ∧ Unchanged s s'

/-- A step that failed, in a run whose steps before it changed nothing. -/
theorem outcome_of_failed {α : Type} {good : α → Prop} {x : Except JsError α} {r : Reply}
    (hr : r ∈ rs) (hne : r ≠ .done) (hx : ∃ e, x = .error e) (hu : Unchanged s s') :
    Outcome good rs x s s' := Or.inr ⟨hx, ⟨r, hr, hne⟩, hu⟩

/-- The rows that the body of the transaction has inserted. -/
def Inserted (pid : Nat) (userId name : JsString) (job : ExecutionJob)
    (log : ExecutionJobStatusLog) (s s' : World) : Prop :=
  Unchanged s s' ∧ s'.transactions pid = ⟨[job], [log]⟩ ∧ job.filePath = name ∧
    job.userId = userId ∧ log.jobId = job.id ∧ log.status = .QUEUED ∧
    job.id ∉ s.jobs.map ExecutionJob.id

theorem alone_insertNewJob {userId name : JsString} {x : Except JsError ExecutionJob}
    (hid : C.ulid.text s.drawnBy.length ∉ s.jobs.map ExecutionJob.id)
    (ht : s.transactions pid = ⟨[], []⟩)
    (h : (insertNewJob userId name).runAlone (host C) pid rs s = some (x, s')) :
    Outcome (fun job => ∃ log, Inserted pid userId name job log s s') rs x s s' := by
  let job : ExecutionJob :=
    ⟨C.ulid.text s.drawnBy.length, userId, name, s.now, none, none, none, none⟩
  let s₁ : World := { s with drawnBy := s.drawnBy ++ [pid] }
  have hjob : performDone pid (.insertJob job) s₁ = some (.ok (), s₁.insertPending pid [job] []) :=
    if_neg (by simpa [s₁, ht, job] using hid)
  rcases alone_step (by rintro _ _ ⟨⟩) hjob h with ⟨rest, rfl, h₁⟩ | ⟨r, rfl, hne, he, rfl⟩
  · let log : ExecutionJobStatusLog :=
      ⟨C.ulid.text (s.drawnBy ++ [pid]).length, job.id, .QUEUED, s.now⟩
    let s₂ : World := { s₁.insertPending pid [job] [] with
      drawnBy := s.drawnBy ++ [pid] ++ [pid] }
    have hlog : performDone pid (.insertStatusLog log) s₂ =
        some (.ok (), s₂.insertPending pid [] [log]) := if_pos (by
      simp [s₂, s₁, World.insertPending, ht, log])
    have h₁ : Prog.runAlone (host C) pid ((await (.insertStatusLog log)).bind fun _ => .ret job)
        rest s₂ = some (x, s') := h₁
    rcases alone_step (by rintro _ _ ⟨⟩) hlog h₁ with ⟨rest, rfl, h₂⟩ | ⟨r, rfl, hne, he, rfl⟩
    · obtain ⟨rfl, rfl, rfl⟩ := Prog.runAlone_ret h₂
      refine Or.inl ⟨job, rfl, by simp, log, ⟨rfl, rfl, rfl, rfl, rfl, rfl⟩, ?_, rfl, rfl, rfl, rfl,
        hid⟩
      simp [s₂, s₁, World.insertPending, ht]
    · exact outcome_of_failed (by simp) hne he ⟨rfl, rfl, rfl, rfl, rfl, rfl⟩
  · exact outcome_of_failed (List.mem_singleton_self _) hne he ⟨rfl, rfl, rfl, rfl, rfl, rfl⟩

/-- The rows and the first entry are in the tables. -/
structure Inserts (userId name : JsString) (job : ExecutionJob) (s s' : World) : Prop where
  directories : s'.directories = s.directories
  files : s'.files = s.files
  filePath : job.filePath = name
  newRow : job.id ∉ s.jobs.map ExecutionJob.id
  userId : job.userId = userId
  jobs : s'.jobs = s.jobs ++ [job]
  logs : ∃ log, s'.logs = s.logs ++ [log] ∧ log.jobId = job.id ∧ log.status = .QUEUED
  waiting : s'.waiting = s.waiting
  taken : s'.taken = s.taken

theorem inserts_commit {userId name : JsString} {job : ExecutionJob} {log : ExecutionJobStatusLog}
    (h : Inserted pid userId name job log s s') :
    Inserts userId name job s (s'.committed pid) := by
  obtain ⟨hu, ht, hname, huser, hid, hq, hnew⟩ := h
  refine ⟨hu.directories, hu.files, hname, hnew, huser, ?_, ⟨log, ?_, hid, hq⟩, hu.waiting,
    hu.taken⟩
  · rw [World.committed, ht, hu.jobs]
  · rw [World.committed, ht, hu.logs]

/-- The rollback, whose own failure is ignored. -/
theorem alone_rollback {x : Except JsError Unit}
    (h : Prog.runAlone (host C) pid ((await .rollbackTransaction).handle fun _ => .ret ()) rs s =
      some (x, s')) : x = .ok () ∧ Unchanged s s' := by
  rcases Prog.runAlone_handle h with ⟨_, rfl, h₁⟩ | ⟨rs₁, rs₂, e, s₁, rfl, h₁, h₂⟩
  · obtain ⟨r, rfl, hp⟩ := Prog.runAlone_call h₁
    rcases perform_rollbackTransaction hp with ⟨-, rfl⟩ | ⟨e, he, -⟩
    · exact ⟨rfl, rfl, rfl, rfl, rfl, rfl, rfl⟩
    · cases he
  · obtain ⟨rfl, rfl, rfl⟩ := Prog.runAlone_ret h₂
    obtain ⟨r, rfl, hp⟩ := Prog.runAlone_call h₁
    rcases perform_rollbackTransaction hp with ⟨he, -⟩ | ⟨e, -, -, rfl⟩
    · cases he
    · exact ⟨rfl, .refl⟩

/-- **The transaction is all or nothing**, whatever becomes of the rollback. -/
theorem alone_transaction {userId name : JsString} {x : Except JsError ExecutionJob}
    (hid : C.ulid.text s.drawnBy.length ∉ s.jobs.map ExecutionJob.id)
    (h : (transaction (insertNewJob userId name)).runAlone (host C) pid rs s = some (x, s')) :
    Outcome (fun job => Inserts userId name job s s') rs x s s' := by
  let s₀ : World := { s with transactions := Function.update s.transactions pid ⟨[], []⟩ }
  have hs₀ : Unchanged s s₀ := ⟨rfl, rfl, rfl, rfl, rfl, rfl⟩
  have ht₀ : s₀.transactions pid = ⟨[], []⟩ := Function.update_self _ _ _
  -- what has happened when the handler starts
  have hbody : ∀ {rs : List Reply} {y : Except JsError ExecutionJob} {t : World},
      Prog.runAlone (host C) pid ((await .startTransaction).bind fun _ =>
        (insertNewJob userId name).bind fun result =>
          (await .commitTransaction).bind fun _ => .ret result) rs s = some (y, t) →
      Outcome (fun job => Inserts userId name job s t) rs y s t := by
    intro rs y t h
    rcases alone_step (by rintro _ _ ⟨⟩) rfl h with ⟨rest, rfl, h₁⟩ | ⟨r, rfl, hne, he, rfl⟩
    · rcases Prog.runAlone_bind h₁ with ⟨rs₁, rs₂, job, s₁, rfl, h₂, h₃⟩ | ⟨e, rfl, h₂⟩
      · rcases alone_insertNewJob (s := s₀) hid ht₀ h₂ with
          ⟨a, ha, hdone, log, hi⟩ | ⟨⟨e, he⟩, -⟩
        · obtain rfl := Except.ok.inj ha
          rcases alone_step (by rintro _ _ ⟨⟩) rfl h₃ with
            ⟨rest, rfl, h₄⟩ | ⟨r, rfl, hne, he, rfl⟩
          · obtain ⟨rfl, rfl, rfl⟩ := Prog.runAlone_ret h₄
            have hi' : Inserted pid userId name job log s s₁ := ⟨hs₀.trans hi.1, hi.2⟩
            refine Or.inl ⟨job, rfl, fun r hr => ?_, inserts_commit hi'⟩
            simp only [List.mem_cons, List.mem_append, List.not_mem_nil, or_false] at hr
            rcases hr with rfl | hr | rfl
            · rfl
            · exact hdone r hr
            · rfl
          · exact outcome_of_failed (by simp) hne he (hs₀.trans hi.1)
        · cases he
      · rcases alone_insertNewJob (s := s₀) hid ht₀ h₂ with
          ⟨a, ha, -⟩ | ⟨he, ⟨r, hr, hne⟩, hu⟩
        · cases ha
        · exact outcome_of_failed (List.mem_cons_of_mem _ hr) hne ⟨e, rfl⟩ (hs₀.trans hu)
    · exact outcome_of_failed (List.mem_singleton_self _) hne he .refl
  rcases Prog.runAlone_handle h with ⟨a, rfl, h₁⟩ | ⟨rs₁, rs₂, e, s₁, rfl, h₁, h₂⟩
  · exact hbody h₁
  · rcases hbody h₁ with ⟨a, ha, -⟩ | ⟨-, ⟨r, hr, hne⟩, hu⟩
    · cases ha
    · rcases Prog.runAlone_bind h₂ with ⟨rs₃, rs₄, _, s₂, rfl, h₃, h₄⟩ | ⟨e', -, h₃⟩
      · obtain ⟨rfl, rfl, rfl⟩ := Prog.runAlone_fail h₄
        have hroll := (alone_rollback h₃).2
        exact outcome_of_failed (List.mem_append_left _ hr) hne ⟨e, rfl⟩ (hu.trans hroll)
      · cases (alone_rollback h₃).1

/-! ### The whole call -/

/-- Once the file is open it is there, with as many of its bytes as were
written. -/
theorem alone_writeFile {path : JsString} {bytes : Bytes} {x : Except JsError Unit}
    (h : (writeFile path bytes).runAlone (host C) pid rs s = some (x, s')) :
    (x = .ok () ∧ rs = [.done, .done] ∧
        s' = { s with files := Function.update s.files path (some bytes) }) ∨
      (∃ e, x = .error e) ∧ ((∃ r, rs = [r] ∧ r ≠ .done ∧ s' = s) ∨
        ∃ r, rs = [.done, r] ∧ r ≠ .done ∧ s'.files path ≠ none) := by
  rcases alone_step (by rintro _ _ ⟨⟩) rfl h with ⟨rest, rfl, h₁⟩ | ⟨r, rfl, hne, he, rfl⟩
  · let s₁ : World := { s with files := Function.update s.files path (some []) }
    obtain ⟨r, rfl, hp⟩ := Prog.runAlone_call h₁
    rcases perform_cases hp with ⟨rfl, hd⟩ | ⟨hne, e, rfl, -, rfl⟩ | ⟨_, _, n, e, hc, hne, rfl, -, rfl⟩
    · obtain ⟨rfl, rfl⟩ := Prod.mk.inj (Option.some.inj hd)
      exact Or.inl ⟨rfl, rfl, by simp⟩
    · exact Or.inr ⟨⟨e, rfl⟩, Or.inr ⟨r, rfl, hne, by simp⟩⟩
    · cases hc
      exact Or.inr ⟨⟨e, rfl⟩, Or.inr ⟨r, rfl, hne, by simp⟩⟩
  · exact Or.inr ⟨he, Or.inl ⟨r, rfl, hne, rfl⟩⟩

/-- What a call has done, by the step that failed. -/
inductive Done (C : Config) (userId : JsString) (file : UploadedFile) (rs : List Reply) :
    Except JsError ExecutionJob → World → World → Prop
  | all {job s s'} (hrs : ∀ r ∈ rs, r = .done) (h : AddsOne C userId file job s s') :
    Done C userId file rs (.ok job) s s'
  | mkdirFailed {r rest e s s'} (hrs : rs = r :: rest) (hr : r ≠ .done) (h : Unchanged s s') :
    Done C userId file rs (.error e) s s'
  | openFailed {r rest e s s'} (hrs : rs = .done :: r :: rest) (hr : r ≠ .done)
    (h : Unchanged { s with directories := Function.update s.directories C.basePath true } s') :
    Done C userId file rs (.error e) s s'
  | laterFailed {rest e s s'} (hrs : rs = .done :: .done :: rest) (hr : ∃ r ∈ rest, r ≠ .done)
    (h : s'.files ≠ s.files) : Done C userId file rs (.error e) s s'

variable {userId : JsString} {file : UploadedFile} {x : Except JsError ExecutionJob}

/-- A step that fails once the file is there. -/
theorem laterFailed {path : JsString} {rest : List Reply} (hnone : s.files path = none)
    (hx : ∃ e, x = .error e) (hr : ∃ r ∈ rest, r ≠ .done) (hsome : s'.files path ≠ none) :
    Done C userId file (.done :: .done :: rest) x s s' := by
  obtain ⟨e, rfl⟩ := hx
  refine .laterFailed rfl hr fun he => hsome ?_
  rw [he]
  exact hnone

theorem alone_createExecutionJob (hf : Fresh C s) (hext : fileFilter file.originalname = true)
    (h : (createExecutionJob C userId file).runAlone (host C) pid rs s = some (x, s')) :
    Done C userId file rs x s s' := by
  have hdart : fileExtension file.originalname = js ".dart" := of_decide_eq_true hext
  rw [createExecutionJob, hdart] at h
  let path := join C.basePath (codeFile (C.ulid.text s.drawnBy.length))
  have hnone : s.files path = none := hf.files _ (Nat.le_refl _)
  have hrows := hf.rows (s.drawnBy ++ [pid]).length (by simp)
  have hwritten : Function.update s.files path (some file.buffer) path ≠ none := by simp
  rcases alone_step (by rintro _ _ ⟨⟩) rfl h with ⟨rest, rfl, h₁⟩ | ⟨r, rfl, hne, ⟨e, rfl⟩, rfl⟩
  · rcases Prog.runAlone_bind h₁ with ⟨rs₁, rs₂, _, s₁, rfl, h₂, h₃⟩ | ⟨e, rfl, h₂⟩
    · rcases alone_writeFile h₂ with ⟨-, rfl, rfl⟩ | ⟨⟨e, he⟩, -⟩
      · rcases Prog.runAlone_bind h₃ with ⟨rs₃, rs₄, job, s₃, rfl, h₄, h₅⟩ | ⟨e, rfl, h₄⟩
        · rcases alone_transaction hrows h₄ with ⟨_, ha, hdone, hi⟩ | ⟨⟨e, he⟩, -⟩
          · obtain rfl := Except.ok.inj ha
            rcases alone_step (by rintro _ _ ⟨⟩) rfl h₅ with
              ⟨rest, rfl, h₆⟩ | ⟨r, rfl, hne, he, rfl⟩
            · obtain ⟨rfl, rfl, rfl⟩ := Prog.runAlone_ret h₆
              have hpath : join C.basePath job.filePath = path := by
                rw [hi.filePath]
                rfl
              refine .all (fun r hr => ?_) ⟨by rw [hpath]; exact hnone, ?_, hi.newRow, hi.userId,
                hi.jobs, hi.logs, congrArg (· ++ [job.id]) hi.waiting, hi.taken⟩
              · simp only [List.cons_append, List.nil_append, List.mem_cons, List.mem_append,
                  List.not_mem_nil, or_false] at hr
                rcases hr with rfl | rfl | rfl | hr | rfl
                · rfl
                · rfl
                · rfl
                · exact hdone r hr
                · rfl
              · rw [hpath]
                exact hi.files
            · refine laterFailed hnone he ⟨r, by simp, hne⟩ ?_
              rw [hi.files]
              exact hwritten
          · cases he
        · rcases alone_transaction hrows h₄ with ⟨_, ha, -⟩ | ⟨-, ⟨r, hr, hne⟩, hu⟩
          · cases ha
          · refine laterFailed hnone ⟨e, rfl⟩ ⟨r, List.mem_cons_of_mem _ hr, hne⟩ ?_
            rw [hu.files]
            exact hwritten
      · cases he
    · rcases alone_writeFile h₂ with ⟨he, -⟩ | ⟨-, ⟨r, rfl, hne, rfl⟩ | ⟨r, rfl, hne, hsome⟩⟩
      · cases he
      · exact .openFailed rfl hne ⟨rfl, rfl, rfl, rfl, rfl, rfl⟩
      · exact laterFailed hnone ⟨e, rfl⟩ ⟨r, List.mem_singleton_self _, hne⟩ hsome
  · exact .mkdirFailed rfl hne ⟨rfl, rfl, rfl, rfl, rfl, rfl⟩

theorem done_iff (h : Done C userId file rs x s s') :
    AllOrNothing C userId file x s s' ↔ Harmless C s rs := by
  cases h with
  | all hrs h => exact ⟨fun _ => Or.inl hrs, fun _ => h⟩
  | mkdirFailed hrs hr h => exact ⟨fun _ => Or.inr (Or.inl ⟨_, _, hrs, hr⟩), fun _ => h⟩
  | openFailed hrs hr h =>
    subst hrs
    constructor
    · intro hu
      have hdirs : Function.update s.directories C.basePath true = s.directories :=
        h.directories.symm.trans hu.directories
      have hdir := congrFun hdirs C.basePath
      rw [Function.update_self] at hdir
      exact Or.inr (Or.inr ⟨hdir.symm, _, _, rfl, hr⟩)
    · rintro (hall | ⟨r', rest', he, hne⟩ | ⟨hdir, -⟩)
      · exact absurd (hall _ (by simp)) hr
      · cases he
        exact absurd rfl hne
      · refine ⟨?_, h.files, h.jobs, h.logs, h.waiting, h.taken⟩
        rw [h.directories]
        exact Function.update_eq_self_iff.mpr hdir.symm
  | laterFailed hrs hr h =>
    subst hrs
    obtain ⟨r, hr, hne⟩ := hr
    refine ⟨fun hu => absurd hu.files h, ?_⟩
    rintro (hall | ⟨r', rest', he, hne'⟩ | ⟨-, r', rest', he, hne'⟩)
    · exact absurd (hall r (by simp [hr])) hne
    · cases he
      exact absurd rfl hne'
    · cases he
      exact absurd rfl hne'

/-! ### No job is stuck -/

/-- A call of `createExecutionJob` is still on its way. -/
def CreationInFlight (σ : (services C).Sys) : Prop :=
  ∃ (pid : Nat) (userId : JsString) (file : UploadedFile) (prog : Program ExecutionJob)
    (alive : Bool), σ.procs[pid]? = some ⟨.createExecutionJob userId file, prog, alive⟩ ∧
      prog.Running

theorem not_inFlight {σ : (services C).Sys} (h : ∀ p ∈ σ.procs, ¬ p.prog.Running) :
    ¬ CreationInFlight σ := by
  rintro ⟨pid, userId, file, prog, alive, hp, hr⟩
  exact h _ (List.mem_of_getElem? hp) hr

theorem addsToQueue_of_done {e : (services Config.plain).Event}
    {σ : (services Config.plain).Sys} (he : e ∈ firstUpload) : AddsToQueue σ e := by
  rintro pid r jobId rfl -
  rcases List.mem_cons.mp he with he | he
  · cases he
  · cases List.eq_of_mem_replicate he
    rfl

/-- When adding to the queue never fails, every row is published once its
creation is over. -/
theorem published_of_reaches {σ : (services C).Sys}
    (h : Service.Reaches AddsToQueue (start C) σ) (hidle : ¬ CreationInFlight σ)
    {row : ExecutionJob} (hrow : row ∈ σ.shared.jobs) : σ.shared.Published row.id := by
  have hr : Service.Reaches (fun σ e => True → AddsToQueue σ e) (start C) σ :=
    h.mono fun _ _ ho _ => ho
  obtain ⟨hl, hh⟩ := holds_of_reaches hr
  have hk : row.key ∈ σ.shared.keys := List.mem_map_of_mem hrow
  obtain ⟨pid, file, hcall, hown, -⟩ := hh.1.origin _ hk
  rw [hl] at hcall
  obtain ⟨prog, alive, hp⟩ := Service.exists_proc (P := services C) hcall
  have hstuck : NothingStuck C pid σ.shared := by
    cases hprog : prog with
    | ret a =>
      rw [hprog] at hp
      exact hh.done_of_ret hp trivial
    | fail e =>
      rw [hprog] at hp
      exact hh.done_of_fail hp trivial
    | await d k => exact absurd ⟨pid, _, _, prog, alive, hp, hprog ▸ trivial⟩ hidle
    | sync o k => exact absurd ⟨pid, _, _, prog, alive, hp, hprog ▸ trivial⟩ hidle
  exact hstuck _ hk hown

/-- **When creation is all or nothing.**  A call that runs alone does all or
nothing if and only if no step fails, or `mkdir` fails, or the file cannot be
opened in a directory that was there.  And in a run in which adding to the queue
never fails, no job is left behind: one with only `QUEUED` entries is in the
queue or taken. -/
theorem creation_all_or_nothing_iff (C : Config) :
    (∀ (pid : Nat) (userId : JsString) (file : UploadedFile) (rs : List Reply) (s s' : World)
        (x : Except JsError ExecutionJob), Fresh C s → fileFilter file.originalname = true →
      (createExecutionJob C userId file).runAlone (host C) pid rs s = some (x, s') →
        (AllOrNothing C userId file x s s' ↔ Harmless C s rs)) ∧
    ∀ σ : (services C).Sys, Service.Reaches AddsToQueue (start C) σ → ¬ CreationInFlight σ →
      ∀ row ∈ σ.shared.jobs, (∀ log ∈ σ.shared.logsOf row.id, log.status = .QUEUED) →
        σ.shared.Published row.id :=
  ⟨fun _ _ _ _ _ _ _ hf hext h => done_iff (alone_createExecutionJob hf hext h),
    fun _ h hidle _ hrow _ => published_of_reaches h hidle hrow⟩

theorem creation_all_or_nothing_of_mkdir_failing :
    AllOrNothing Config.plain (js "ann") ⟨js "main.dart", [118]⟩
      (.error (.failure (js "Error") (js "EACCES"))) World.initial
      { World.initial with drawnBy := [0] } ∧
    ∃ σ : (services Config.plain).Sys, Service.run (start Config.plain) firstUpload = some σ ∧
      ∀ row ∈ σ.shared.jobs, (∀ log ∈ σ.shared.logsOf row.id, log.status = .QUEUED) →
        σ.shared.Published row.id := by
  have hf : Fresh Config.plain World.initial := fresh_of_sound sound_initial
  constructor
  · refine ((creation_all_or_nothing_iff Config.plain).1 0 (js "ann") ⟨js "main.dart", [118]⟩
      [.fails (js "Error") (js "EACCES")] _ _ _ hf (by decide) rfl).mpr ?_
    exact Or.inr (Or.inl ⟨_, _, rfl, by decide⟩)
  · have hidle : (Service.run (start Config.plain) firstUpload).map
        (fun σ => decide (∀ p ∈ σ.procs, ¬ p.prog.Running)) = some true := by decide +kernel
    obtain ⟨σ, hσ, hj⟩ := Option.map_eq_some_iff.mp hidle
    exact ⟨σ, hσ, (creation_all_or_nothing_iff Config.plain).2 σ
      (Service.reaches_of_run hσ fun e he σ => addsToQueue_of_done he)
      (not_inFlight (of_decide_eq_true hj))⟩

/-- An upload whose last step fails. -/
def lostUpload : List Reply := List.replicate 7 .done ++ [.fails (js "Error") (js "Redis is down")]

/-- The queue does not take the entry: the call throws, but the row stays, and
nobody will ever take it. -/
theorem creation_leaves_queued_job :
    (∃ x s', (createExecutionJob Config.plain (js "ann") ⟨js "main.dart", [118]⟩).runAlone
        (host Config.plain) 0 lostUpload World.initial = some (x, s') ∧
      ¬ AllOrNothing Config.plain (js "ann") ⟨js "main.dart", [118]⟩ x World.initial s') ∧
    ∃ σ : (services Config.plain).Sys, Service.Reaches Service.anyEvent (start Config.plain) σ ∧
      ¬ CreationInFlight σ ∧ ∃ row ∈ σ.shared.jobs,
        (∀ log ∈ σ.shared.logsOf row.id, log.status = .QUEUED) ∧ ¬ σ.shared.Published row.id := by
  refine ⟨⟨.error (.failure (js "Error") (js "Redis is down")), _, rfl, fun h => ?_⟩, ?_⟩
  · have := h.jobs
    cases this
  · have hrun : Service.run (start Config.plain) (.call (.createExecutionJob (js "ann")
      ⟨js "main.dart", [118]⟩) :: lostUpload.map (.resume 0)) = some _ := rfl
    refine ⟨_, Service.reaches_of_run hrun fun _ _ _ => trivial, ?_, ?_⟩
    · exact not_inFlight (by decide +kernel)
    · refine ⟨_, List.mem_singleton_self _, by decide +kernel, ?_⟩
      rintro (h | h)
      · cases h
      · cases h

end FullstackSvc.Execution
