import FullstackSvc.Async.Local
import FullstackSvc.Execution.Results

/-!
# What is stored of a finished program

One run of `processJob`, in a pool where whoever else moves leaves the row and the log of
the job alone (`Undisturbed`).  `Exited` is what the run knows from the exit of its
container on: the log of the container, its code, the row and the last entry.

* `valid_verdictStages`: the stages of the run; when `strict`, no call of it fails, other
  than an update whose text does not fit its column.
* `stored_output_is_output_iff`: **what is stored is what the program wrote exactly when
  it wrote nothing**, since the headers of the frames are decoded with it.
* `exit_code_classifies_iff`: **the exit code decides exactly when what is stored fits
  its column**.
-/

namespace FullstackSvc.Execution

open Text Async

variable {C : Config} {pid : Nat} {s s' s'' : World} {jobId : JsString} {first n : Nat}
  {strict : Prop}

/-! ### Frames -/

/-- What the program wrote, in the order of the log. -/
def Container.written (c : Container) : Bytes := (c.log.map LogFrame.payload).flatten

/-- The header of a frame has three zero bytes at least. -/
theorem count_frame (f : LogFrame) : f.payload.count 0 + 3 ≤ f.bytes.count 0 := by
  rw [LogFrame.bytes, List.count_append, List.count_cons, List.count_cons_self,
    List.count_cons_self, List.count_cons_self]
  omega

theorem count_logs (c : Container) : c.written.count 0 + 3 * c.log.length ≤ c.logs.count 0 := by
  rw [Container.written, Container.logs]
  induction c.log with
  | nil => exact Nat.le_refl _
  | cons f fs ih =>
    have hf := count_frame f
    simp only [List.map_cons, List.flatten_cons, List.count_append, List.length_cons]
    omega

/-- **The log decodes to what was written only when it is empty**: each header adds
characters of its own. -/
theorem decode_logs_eq_iff (c : Container) :
    utf8Decode c.logs = utf8Decode c.written ↔ c.log = [] := by
  constructor
  · intro h
    have hzero : (0 : UInt8).toNat < 0x80 := by decide
    have hcount := congrArg (List.count (UInt16.ofNat (0 : UInt8).toNat)) h
    rw [count_utf8Decode hzero, count_utf8Decode hzero] at hcount
    have hle := count_logs c
    exact List.length_eq_zero_iff.mp (by omega)
  · intro h
    rw [Container.logs, Container.written, h]
    rfl

/-! ### What the others may do -/

/-- The row and the log of the job are left alone, and containers that have exited stay as
they are. -/
structure Leaves (jobId : JsString) (s s' : World) : Prop where
  containers : ContainersKept s s'
  row : s'.job? jobId = s.job? jobId
  log : s'.logsOf jobId = s.logsOf jobId

theorem Leaves.refl : Leaves jobId s s := ⟨.of_eq rfl, rfl, rfl⟩

theorem Leaves.trans (h : Leaves jobId s s') (h' : Leaves jobId s' s'') : Leaves jobId s s'' :=
  ⟨h.containers.trans h'.containers, h'.row.trans h.row, h'.log.trans h.log⟩

theorem leaves_of_quiet (h : Quiet s s') : Leaves jobId s s' := by
  refine ⟨h.containers, ?_, ?_⟩
  · rw [World.job?, h.jobs, World.job?]
  · rw [World.logsOf, h.same.logs, World.logsOf]

theorem ContainersKept.length_le (h : ContainersKept s s') :
    s.containers.length ≤ s'.containers.length := by
  by_contra hlt
  have hin : s'.containers.length < s.containers.length := by omega
  obtain ⟨c', hc', -⟩ := h _ _ (List.getElem?_eq_getElem hin)
  have := (List.getElem?_eq_some_iff.mp hc').1
  omega

/-- A call keeps the containers. -/
theorem containersKept_perform {c : Cmd} {r : Reply} {x : Except JsError (sig.Res c)}
    (h : perform pid c r s = some (x, s')) : ContainersKept s s' := by
  have hfailed : ∀ {x : Except JsError (sig.Res c)}, Failed x s s' → ContainersKept s s' := by
    rintro x ⟨e, -, -, rfl⟩
    exact .of_eq rfl
  by_cases hw : WorkerCmd c
  · cases workerStep hw h with
    | quiet hq _ => exact hq.containers
    | saved _ => exact .of_eq rfl
    | updated => exact .of_eq rfl
  · cases c with
    | mkdir path =>
      rcases perform_mkdir h with ⟨-, rfl⟩ | hf
      · exact .of_eq rfl
      · exact hfailed hf
    | openFile path =>
      rcases perform_openFile h with ⟨-, rfl⟩ | hf
      · exact .of_eq rfl
      · exact hfailed hf
    | writeBytes path bytes =>
      rcases perform_writeBytes h with ⟨-, rfl⟩ | hf | ⟨e, n, -, -, rfl⟩
      · exact .of_eq rfl
      · exact hfailed hf
      · exact .of_eq rfl
    | startTransaction =>
      rcases perform_startTransaction h with ⟨-, rfl⟩ | hf
      · exact .of_eq rfl
      · exact hfailed hf
    | insertJob row =>
      rcases perform_insertJob h with ⟨-, -, rfl⟩ | hf
      · exact .of_eq rfl
      · exact hfailed hf
    | insertStatusLog row =>
      rcases perform_insertStatusLog h with ⟨-, -, rfl⟩ | hf
      · exact .of_eq rfl
      · exact hfailed hf
    | commitTransaction =>
      rcases perform_commitTransaction h with ⟨-, rfl⟩ | hf
      · exact .of_eq rfl
      · exact hfailed hf
    | rollbackTransaction =>
      rcases perform_rollbackTransaction h with ⟨-, rfl⟩ | hf
      · exact .of_eq rfl
      · exact hfailed hf
    | addToQueue jobId =>
      rcases perform_addToQueue h with ⟨-, rfl⟩ | ⟨-, hf⟩
      · exact .of_eq rfl
      · exact hfailed hf
    | findJob jobId =>
      rcases perform_findJob h with ⟨-, rfl⟩ | hf
      · exact .of_eq rfl
      · exact hfailed hf
    | access path =>
      rcases perform_access h with ⟨-, rfl⟩ | hf | ⟨-, -, rfl⟩
      · exact .of_eq rfl
      · exact hfailed hf
      · exact .of_eq rfl
    | _ => exact absurd trivial hw

theorem containersKept_compute (o : Op) : ContainersKept s (compute C pid o s).2 := by
  cases o with
  | ulid => exact .of_eq rfl
  | now => exact .of_eq rfl

theorem containersKept_settle {α : Type} (p : Program α) (s : World) :
    ContainersKept s (p.settle (host C) pid s).2 :=
  Prog.settle_inv (J := ContainersKept s) (fun _ _ h => h.trans (containersKept_compute _)) p s
    (.of_eq rfl)

/-- **Every step keeps the containers.** -/
theorem containersKept_step {σ σ' : (services C).Sys} {e : (services C).Event}
    (h : Service.step σ e = some σ') : ContainersKept σ.shared σ'.shared := by
  cases e with
  | call c =>
    obtain ⟨s, ha, rfl⟩ := Service.step_call h
    exact (ContainersKept.of_eq (arrives ha).containers).trans (containersKept_settle _ _)
  | resume pid r =>
    obtain ⟨c, d, k, x, s, -, hx, rfl⟩ := Service.step_resume h
    exact (containersKept_perform hx).trans (containersKept_settle _ _)
  | env e =>
    obtain ⟨s, he, rfl⟩ := Service.step_env h
    exact (quiet_env he).containers
  | kill pid =>
    obtain ⟨p, -, -, rfl⟩ := Service.step_kill h
    exact .of_eq rfl

/-- Whoever else moves leaves the row and the log of the job alone. -/
def Undisturbed (pid : Nat) (jobId : JsString) (σ : (services C).Sys) (e : (services C).Event) :
    Prop :=
  σ.mover e ≠ some pid → ∀ σ' ∈ Service.step σ e,
    σ'.shared.job? jobId = σ.shared.job? jobId ∧ σ'.shared.logsOf jobId = σ.shared.logsOf jobId

instance (pid : Nat) (jobId : JsString) (σ : (services C).Sys) (e : (services C).Event) :
    Decidable (Undisturbed pid jobId σ e) :=
  inferInstanceAs (Decidable (_ → ∀ σ' ∈ Service.step σ e, _ ∧ _))

/-! ### Calls that do not fail -/

/-- The text does not fit its column. -/
def Cmd.TooLong : Cmd → Prop
  | .updateJob _ changes => ¬ (FitsText changes.output ∧ FitsText changes.error)
  | _ => False

instance : (c : Cmd) → Decidable c.TooLong
  | .updateJob _ changes =>
    inferInstanceAs (Decidable (¬ (FitsText changes.output ∧ FitsText changes.error)))
  | .mkdir _ | .openFile _ | .writeBytes _ _ | .startTransaction | .insertJob _
  | .insertStatusLog _ | .commitTransaction | .rollbackTransaction | .addToQueue _ | .findJob _
  | .saveStatusLog _ | .access _ | .createContainer _ | .startContainer _ | .waitOrTimeout _
  | .killContainer _ | .removeContainer _ | .containerLogs _ => isFalse id

/-- The call does not fail, unless its text does not fit. -/
def Succeeds (pid : Nat) (c : Cmd) (r : Reply) (s : World) : Prop :=
  r = .done ∧ (c.TooLong ∨ (perform pid c r s).all (fun a => a.1.isOk) = true)

instance (pid : Nat) (c : Cmd) (r : Reply) (s : World) : Decidable (Succeeds pid c r s) :=
  inferInstanceAs (Decidable (_ ∧ (_ ∨ _)))

/-- No call of the process fails, other than an update whose text does not fit. -/
def Unfailing (pid : Nat) (σ : (services C).Sys) : (services C).Event → Prop
  | .resume pid' r => pid' = pid → ∀ c ∈ σ.pending pid, Succeeds pid c r σ.shared
  | _ => True

instance (pid : Nat) (σ : (services C).Sys) :
    (e : (services C).Event) → Decidable (Unfailing pid σ e)
  | .resume pid' r => inferInstanceAs
      (Decidable (pid' = pid → ∀ c ∈ σ.pending pid, Succeeds pid c r σ.shared))
  | .call _ => isTrue trivial
  | .env _ => isTrue trivial
  | .kill _ => isTrue trivial

theorem Succeeds.not_error {c : Cmd} {r : Reply} {e : JsError} (h : Succeeds pid c r s)
    (hc : ¬ c.TooLong) (hx : perform pid c r s = some (.error e, s')) : False := by
  have hall := h.2.resolve_left hc
  rw [hx] at hall
  cases hall

/-! ### What a run knows -/

/-- The text that the exit code points at. -/
def ExecutionJob.storedText (row : ExecutionJob) : Option JsString :=
  if row.exitCode = some 0 then row.output else row.error

theorem ExecutionJob.storedText_update (row : ExecutionJob) (changes : JobUpdate) :
    (row.update changes).storedText =
      if changes.exitCode = 0 then changes.output <|> row.output else changes.error <|> row.error := by
  have hcode : (some changes.exitCode = some 0) ↔ changes.exitCode = 0 := Option.some_inj
  rw [storedText]
  simp only [update, hcode]

/-- The last entry of a finished run. -/
def verdict (code : Int) : ExecutionJobStatus :=
  if code = 0 then .FINISHED_WITH_SUCCESS else .FINISHED_WITH_ERROR

/-- A container that the run has made, for the file of the job. -/
structure Made (first : Nat) (jobId : JsString) (n : Nat) (c : Container) (row : ExecutionJob)
    (s : World) : Prop where
  new : first ≤ n
  container : s.containers[n]? = some c
  found : s.job? jobId = some row
  file : c.file = js "/code-files/" ++ row.filePath

/-- A fact about the log of the container, its code, the row and the last entry. -/
abbrev Fact := Bytes → Int → ExecutionJob → Option ExecutionJobStatus → Prop

/-- The container has exited, and there is this fact. -/
def Exited (first : Nat) (jobId : JsString) (ψ : Fact) (n : Nat) (s : World) : Prop :=
  ∃ c code row, Made first jobId n c row s ∧ c.exited = some code ∧
    ψ c.logs code row (finalStatus (s.logsOf jobId))

variable {ψ χ : Fact} {row row' : ExecutionJob} {c : Container}

theorem Made.leaves (h : Made first jobId n c row s) (hl : Leaves jobId s s') :
    ∃ c', Made first jobId n c' row s' ∧
      ∀ code, c.exited = some code → c'.exited = some code ∧ c'.logs = c.logs := by
  obtain ⟨c', hc', hfile, hkept⟩ := hl.containers n c h.container
  refine ⟨c', ⟨h.new, hc', hl.row.trans h.found, hfile.trans h.file⟩, fun code he => ?_⟩
  obtain ⟨he', hlog⟩ := hkept code he
  exact ⟨he', by rw [Container.logs, hlog, Container.logs]⟩

theorem Exited.leaves (h : Exited first jobId ψ n s) (hl : Leaves jobId s s') :
    Exited first jobId ψ n s' := by
  obtain ⟨c, code, row, hm, he, hψ⟩ := h
  obtain ⟨c', hm', hkept⟩ := hm.leaves hl
  obtain ⟨he', hlogs⟩ := hkept code he
  refine ⟨c', code, row, hm', he', ?_⟩
  rw [hlogs, hl.log]
  exact hψ

theorem Exited.mono (h : Exited first jobId ψ n s)
    (hψ : ∀ logs code row status, ψ logs code row status → χ logs code row status) :
    Exited first jobId χ n s := by
  obtain ⟨c, code, row, hm, he, hf⟩ := h
  exact ⟨c, code, row, hm, he, hψ _ _ _ _ hf⟩

/-- An entry of the job is the last one, once it is saved. -/
theorem Exited.saved (h : Exited first jobId ψ n s) {log : ExecutionJobStatusLog}
    (hlog : log.jobId = jobId) :
    Exited first jobId (fun logs code row status => status = some log.status ∧
      ∃ before, ψ logs code row before) n { s with logs := s.logs ++ [log] } := by
  obtain ⟨c, code, row, hm, he, hψ⟩ := h
  refine ⟨c, code, row, ⟨hm.new, hm.container, hm.found, hm.file⟩, he, ?_, _, hψ⟩
  rw [World.logsOf_of_append (s := s) rfl, if_pos hlog, finalStatus, List.getLast?_concat]
  rfl

theorem job?_withUpdate (s : World) (jobId : JsString) (changes : JobUpdate) :
    (s.withUpdate jobId changes).job? jobId =
      (s.job? jobId).map fun row => row.update changes := by
  rw [World.job?, World.job?, World.withUpdate]
  induction s.jobs with
  | nil => rfl
  | cons row rows ih =>
    by_cases hid : row.id = jobId
    · simp [hid, ExecutionJob.update]
    · simp [hid, ih]

/-- The row of the job is updated. -/
theorem Exited.updated (h : Exited first jobId ψ n s) (changes : JobUpdate) :
    Exited first jobId (fun logs code row _ => ∃ before status, row = before.update changes ∧
      ψ logs code before status) n (s.withUpdate jobId changes) := by
  obtain ⟨c, code, row, hm, he, hψ⟩ := h
  have hrow : (s.withUpdate jobId changes).job? jobId = some (row.update changes) := by
    rw [job?_withUpdate, hm.found]
    rfl
  exact ⟨c, code, row.update changes, ⟨hm.new, hm.container, hrow, hm.file⟩, he, row, _, rfl, hψ⟩

/-! ### The context of the run -/

/-- The process on its job; when `strict`, its calls do not fail. -/
def verdictContext (pid : Nat) (jobId : JsString) (strict : Prop) : Ctx sig World Reply where
  inv _ := True
  rely := Leaves jobId
  guar _ _ := True
  need _ _ := True
  ok c r s := strict → Succeeds pid c r s

abbrev Decides (C : Config) (pid : Nat) (jobId : JsString) (strict : Prop) {α : Type}
    (pre : World → Prop) (p : Program α) (ok : α → World → Prop)
    (err : JsError → World → Prop) : Prop :=
  Prog.Triple (host C) pid (verdictContext pid jobId strict) pre p ok err

theorem closed_verdict : (verdictContext pid jobId strict).Closed where
  refl _ := trivial
  trans _ _ _ _ _ := trivial
  inv _ _ _ _ := trivial

/-- What does not speak of the state holds at the end too. -/
theorem decides_const {φ : Prop} {α : Type} (p : Program α) :
    Decides C pid jobId strict (fun _ => φ) p (fun _ _ => φ) fun _ _ => φ := by
  intro s₀ s _ _ hφ
  refine Prog.wp_const (fun _ _ => trivial) (fun _ _ => trivial) (fun x _ _ => ?_) p s₀ s
  cases x with
  | ok a => exact ⟨trivial, trivial, hφ⟩
  | error e => exact ⟨trivial, trivial, hφ⟩

/-- The others keep it. -/
def Lasts (jobId : JsString) (K : World → Prop) : Prop := ∀ s s', K s → Leaves jobId s s' → K s'

theorem stable_lasts {K : World → Prop} (hK : Lasts jobId K) :
    (verdictContext pid jobId strict).Stable K := fun s s' h hr _ => hK s s' h hr

/-- A call that touches neither the row nor the log. -/
theorem decides_quiet {K : World → Prop} (hK : Lasts jobId K) {c : Cmd} (hc : WorkerCmd c)
    (hlog : ∀ row, c ≠ .saveStatusLog row) (hjob : ∀ id changes, c ≠ .updateJob id changes) :
    Decides C pid jobId strict K (await c) (fun _ => K) fun _ s => ¬ strict ∧ K s := by
  refine Prog.Triple.call (stable_lasts hK) (fun _ _ _ => trivial) fun s r x s' _ hs hr hx => ?_
  have hshort : ¬ c.TooLong := by
    cases c with
    | updateJob id changes => exact absurd rfl (hjob _ _)
    | _ => exact id
  have hs' : K s' := by
    cases workerStep hc hx with
    | quiet h _ => exact hK s s' hs (leaves_of_quiet h)
    | saved _ => exact absurd rfl (hlog _)
    | updated => exact absurd rfl (hjob _ _)
  cases x with
  | ok a => exact ⟨trivial, hs'⟩
  | error e => exact ⟨trivial, fun hstrict => (hr hstrict).not_error hshort hx, hs'⟩

theorem lasts_draw {K : World → Prop} (hK : Lasts jobId K) :
    Draws pid (verdictContext pid jobId strict) K :=
  fun s _ hs => ⟨trivial, hK s _ hs ⟨.of_eq rfl, rfl, rfl⟩⟩

/-- An entry is saved. -/
theorem decides_createStatusLog {K good : World → Prop} (hK : Lasts jobId K)
    {status : ExecutionJobStatus}
    (h : ∀ s log, log.jobId = jobId → log.status = status → K s →
      good { s with logs := s.logs ++ [log] }) :
    Decides C pid jobId strict K (createStatusLog jobId status) (fun _ => good)
      fun _ s => ¬ strict ∧ K s := by
  refine triple_createStatusLog closed_verdict (lasts_draw hK) fun logId createdAt => ?_
  refine Prog.Triple.call (stable_lasts hK) (fun _ _ _ => trivial) fun s r x s' _ hs hr hx => ?_
  rcases perform_saveStatusLog hx with ⟨rfl, -, rfl⟩ | ⟨e, rfl, -, rfl⟩
  · exact ⟨trivial, h s _ rfl rfl hs⟩
  · exact ⟨trivial, fun hstrict => (hr hstrict).not_error id hx, hs⟩

/-- An update of the row is carried out when its texts fit. -/
theorem decides_updateResult {K good : World → Prop} (hK : Lasts jobId K)
    {output error : Option JsString} {exitCode : Int}
    (h : ∀ completedAt s, K s → FitsText output → FitsText error →
      good (s.withUpdate jobId ⟨output, error, exitCode, completedAt⟩)) :
    Decides C pid jobId strict K (updateResult jobId output error exitCode) (fun _ => good)
      fun e s => K s ∧ (strict → e = dataTooLong ∧ ¬ (FitsText output ∧ FitsText error)) := by
  refine triple_updateResult closed_verdict fun completedAt => ?_
  refine Prog.Triple.call (stable_lasts hK) (fun _ _ _ => trivial) fun s r x s' _ hs hr hx => ?_
  by_cases hdone : r = .done
  · subst hdone
    have hx : performDone pid (.updateJob jobId ⟨output, error, exitCode, completedAt⟩) s =
        some (x, s') := hx
    rw [performDone] at hx
    split at hx
    · rename_i hfits
      obtain ⟨rfl, rfl⟩ := Prod.mk.inj (Option.some.inj hx)
      exact ⟨trivial, h completedAt s hs hfits.1 hfits.2⟩
    · rename_i hfits
      obtain ⟨rfl, rfl⟩ := Prod.mk.inj (Option.some.inj hx)
      exact ⟨trivial, hs, fun _ => ⟨rfl, hfits⟩⟩
  · rcases perform_updateJob hx with ⟨-, hr', -⟩ | ⟨e, rfl, -, rfl⟩
    · exact absurd hr' hdone
    · exact ⟨trivial, hs, fun hstrict => absurd (hr hstrict).1 hdone⟩

/-! ### The stages of the run -/

/-- The row has the code and the text of the container, and the text fits. -/
def Stored : Fact := fun logs code row _ =>
  row.exitCode = some code ∧ row.storedText = some (utf8Decode logs) ∧
    FitsText (some (utf8Decode logs))

/-- The text of the container does not fit. -/
def Unfit : Fact := fun logs _ _ _ => ¬ FitsText (some (utf8Decode logs))

/-- When `strict`, it is the update of the result that has failed. -/
def Caught (first : Nat) (jobId : JsString) (strict : Prop) (e : JsError) (s : World) : Prop :=
  strict → e = dataTooLong ∧ ∃ n, Exited first jobId Unfit n s

def verdictStages (first : Nat) (jobId : JsString) (strict : Prop) : Stages where
  begun s := first ≤ s.containers.length ∧ (strict → ∃ row, s.job? jobId = some row)
  found row s := first ≤ s.containers.length ∧
    ∃ row', s.job? jobId = some row' ∧ row'.filePath = row.filePath
  created _ n s := ∃ c row, Made first jobId n c row s
  exited _ n code := Exited first jobId (fun _ code' _ _ => code' = code) n
  collected _ code logs s := ∃ n, Exited first jobId (fun logs' code' _ _ =>
    logs' = logs ∧ code' = code) n s
  late _ _ := ¬ strict
  lateSaved _ _ := ¬ strict
  succeeded s := ∃ n, Exited first jobId (fun logs code row status =>
    code = 0 ∧ Stored logs code row status) n s
  errored s := ∃ n, Exited first jobId (fun logs code row status =>
    code ≠ 0 ∧ Stored logs code row status) n s
  finished s := ∃ n, Exited first jobId (fun logs code row status =>
    Stored logs code row status ∧ status = some (verdict code)) n s
  caught := Caught first jobId strict
  caughtSaved := Caught first jobId strict
  failed _ s := strict → ∃ n, Exited first jobId (fun logs code row status =>
    Unfit logs code row status ∧ status = some .FAILED) n s

theorem lasts_exists {ψ : Fact} : Lasts jobId fun s => ∃ n, Exited first jobId ψ n s :=
  fun _ _ ⟨n, h⟩ hl => ⟨n, h.leaves hl⟩

theorem lasts_exited {ψ : Fact} : Lasts jobId (Exited first jobId ψ n) :=
  fun _ _ h hl => h.leaves hl

theorem lasts_created : Lasts jobId fun s => ∃ c row, Made first jobId n c row s := by
  rintro s s' ⟨c, row, h⟩ hl
  obtain ⟨c', h', -⟩ := h.leaves hl
  exact ⟨c', row, h'⟩

theorem lasts_found : Lasts jobId fun s => first ≤ s.containers.length ∧
    ∃ row', s.job? jobId = some row' ∧ row'.filePath = row.filePath := by
  rintro s s' ⟨hle, hrow⟩ hl
  rw [hl.row]
  exact ⟨Nat.le_trans hle hl.containers.length_le, hrow⟩

theorem lasts_begun : Lasts jobId fun s => first ≤ s.containers.length ∧
    (strict → ∃ row, s.job? jobId = some row) := by
  rintro s s' ⟨hle, hrow⟩ hl
  rw [hl.row]
  exact ⟨Nat.le_trans hle hl.containers.length_le, hrow⟩

theorem lasts_caught (e : JsError) : Lasts jobId (Caught first jobId strict e) := by
  intro s s' h hl hstrict
  obtain ⟨he, n, hn⟩ := h hstrict
  exact ⟨he, n, hn.leaves hl⟩

theorem caught_of_not {e : JsError} (h : ¬ strict) : Caught first jobId strict e s :=
  fun hstrict => absurd hstrict h

/-- A call of the run that fails only when calls may. -/
theorem decides_caught {α : Type} {pre : World → Prop} {p : Program α} {ok : α → World → Prop}
    {K : World → Prop} (h : Decides C pid jobId strict pre p ok fun _ s => ¬ strict ∧ K s) :
    Decides C pid jobId strict pre p ok (Caught first jobId strict) :=
  h.mono (fun _ hs => hs) (fun _ _ hs => hs) fun _ _ hs => caught_of_not hs.1

theorem decides_findJob :
    Decides C pid jobId strict (verdictStages first jobId strict).begun (await (.findJob jobId))
      ((verdictStages first jobId strict).lookedUp jobId) (Caught first jobId strict) := by
  refine Prog.Triple.call (stable_lasts lasts_begun) (fun _ _ _ => trivial)
    fun s r x s' _ hs hr hx => ?_
  rcases perform_findJob hx with ⟨rfl, rfl⟩ | ⟨e, rfl, -, rfl⟩
  · refine ⟨trivial, ?_⟩
    cases hrow : s'.job? jobId with
    | none =>
      intro hstrict
      obtain ⟨row, hfound⟩ := hs.2 hstrict
      rw [hrow] at hfound
      cases hfound
    | some row => exact ⟨hs.1, row, hrow, rfl⟩
  · exact ⟨trivial, caught_of_not fun hstrict => (hr hstrict).not_error id hx⟩

theorem decides_access {path : JsString} :
    Decides C pid jobId strict ((verdictStages first jobId strict).found row)
      (await (.access path)) (fun _ => (verdictStages first jobId strict).found row)
      (Caught first jobId strict) := by
  refine Prog.Triple.call (stable_lasts lasts_found) (fun _ _ _ => trivial)
    fun s r x s' _ hs hr hx => ?_
  have hs' : (verdictStages first jobId strict).found row s' := by
    rcases perform_access hx with ⟨-, rfl⟩ | ⟨e, -, -, rfl⟩ | ⟨-, -, rfl⟩
    · exact hs
    · exact hs
    · exact hs
  cases x with
  | ok a => exact ⟨trivial, hs'⟩
  | error e => exact ⟨trivial, caught_of_not fun hstrict => (hr hstrict).not_error id hx⟩

theorem decides_create :
    Decides C pid jobId strict ((verdictStages first jobId strict).found row)
      (await (.createContainer (js "/code-files/" ++ row.filePath)))
      ((verdictStages first jobId strict).created row) (Caught first jobId strict) := by
  refine Prog.Triple.call (stable_lasts lasts_found) (fun _ _ _ => trivial)
    fun s r x s' _ hs hr hx => ?_
  rcases perform_createContainer hx with ⟨rfl, rfl⟩ | ⟨e, rfl, -, rfl⟩
  · obtain ⟨hle, row', hrow, hpath⟩ := hs
    exact ⟨trivial, _, row', ⟨hle, List.getElem?_concat_length, hrow, by rw [hpath]⟩⟩
  · exact ⟨trivial, caught_of_not fun hstrict => (hr hstrict).not_error id hx⟩

theorem decides_wait :
    Decides C pid jobId strict (fun s => ∃ c row, Made first jobId n c row s)
      (await (.waitOrTimeout n))
      (fun code => Exited first jobId (fun _ code' _ _ => code' = code) n)
      fun _ _ => ¬ strict := by
  refine Prog.Triple.call (stable_lasts lasts_created) (fun _ _ _ => trivial)
    fun s r x s' _ hs hr hx => ?_
  rcases perform_waitOrTimeout hx with ⟨c, code, rfl, hc, he, rfl⟩ | ⟨e, rfl, -, rfl⟩
  · obtain ⟨c', row', hm⟩ := hs
    obtain rfl := Option.some.inj (hc.symm.trans hm.container)
    exact ⟨trivial, c, code, row', hm, he, rfl⟩
  · exact ⟨trivial, fun hstrict => (hr hstrict).not_error id hx⟩

theorem decides_logs {code : Int} :
    Decides C pid jobId strict (Exited first jobId (fun _ code' _ _ => code' = code) n)
      (await (.containerLogs n))
      (fun logs s => ∃ n, Exited first jobId (fun logs' code' _ _ =>
        logs' = logs ∧ code' = code) n s) (Caught first jobId strict) := by
  refine Prog.Triple.call (stable_lasts lasts_exited) (fun _ _ _ => trivial)
    fun s r x s' _ hs hr hx => ?_
  rcases perform_containerLogs hx with ⟨c, rfl, hc, rfl⟩ | ⟨e, rfl, -, rfl⟩
  · obtain ⟨c', code', row', hm, he, hcode⟩ := hs
    obtain rfl := Option.some.inj (hc.symm.trans hm.container)
    exact ⟨trivial, n, c, code', row', hm, he, rfl, hcode⟩
  · exact ⟨trivial, caught_of_not fun hstrict => (hr hstrict).not_error id hx⟩

/-- The result of the container is saved. -/
theorem decides_saveText {code : Int} {logs : Bytes} {output error : Option JsString}
    (htext : (if code = 0 then output else error) = some (utf8Decode logs))
    (hfits : FitsText (some (utf8Decode logs)) ↔ FitsText output ∧ FitsText error) :
    Decides C pid jobId strict (fun s => ∃ n, Exited first jobId (fun logs' code' _ _ =>
        logs' = logs ∧ code' = code) n s) (updateResult jobId output error code)
      (fun _ s => ∃ n, Exited first jobId (fun logs code' row status =>
        code' = code ∧ Stored logs code' row status) n s) (Caught first jobId strict) := by
  refine (decides_updateResult lasts_exists fun completedAt s hs ho he => ?_).mono (fun _ hs => hs)
    (fun _ _ hs => hs) ?_
  · obtain ⟨n, hn⟩ := hs
    refine ⟨n, (hn.updated _).mono ?_⟩
    rintro logs' code' row' status ⟨before, status', rfl, rfl, rfl⟩
    refine ⟨rfl, rfl, ?_, hfits.mpr ⟨ho, he⟩⟩
    rw [ExecutionJob.storedText_update]
    by_cases hcode : code' = 0
    · rw [if_pos hcode] at htext ⊢
      rw [htext]
      rfl
    · rw [if_neg hcode] at htext ⊢
      rw [htext]
      rfl
  · rintro e s ⟨⟨n, hn⟩, herr⟩ hstrict
    obtain ⟨he, hlong⟩ := herr hstrict
    refine ⟨he, n, hn.mono ?_⟩
    rintro logs' code' row' status ⟨rfl, rfl⟩
    exact fun h => hlong (hfits.mp h)

theorem fitsText_none : FitsText none := Nat.zero_le _

theorem decides_logVerdict {status : ExecutionJobStatus} {ψ : Fact}
    (hψ : ∀ logs code row before, ψ logs code row before →
      Stored logs code row before ∧ status = verdict code) :
    Decides C pid jobId strict (fun s => ∃ n, Exited first jobId ψ n s)
      (createStatusLog jobId status) (fun _ => (verdictStages first jobId strict).finished)
      (Caught first jobId strict) := by
  refine decides_caught (decides_createStatusLog lasts_exists fun s log hid hst hs => ?_)
  obtain ⟨n, hn⟩ := hs
  refine ⟨n, (hn.saved hid).mono ?_⟩
  rintro logs code row _ ⟨rfl, before, hb⟩
  obtain ⟨hstored, hverdict⟩ := hψ logs code row before hb
  exact ⟨hstored, by rw [hst, hverdict]⟩

theorem decides_saveCaught (e : JsError) :
    Decides C pid jobId strict (Caught first jobId strict e)
      (updateResult jobId none (some (errorText e)) (-1)) (fun _ => Caught first jobId strict e)
      ((verdictStages first jobId strict).failed) := by
  refine (decides_updateResult (lasts_caught e) fun completedAt s hs _ _ => ?_).mono (fun _ hs => hs)
    (fun _ _ hs => hs) ?_
  · intro hstrict
    obtain ⟨he, n, hn⟩ := hs hstrict
    refine ⟨he, n, (hn.updated _).mono ?_⟩
    rintro logs code row status ⟨before, status', -, h⟩
    exact h
  · rintro e' s ⟨hs, herr⟩ hstrict
    obtain ⟨rfl, -⟩ := hs hstrict
    exact absurd ⟨fitsText_none, by decide⟩ (herr hstrict).2

theorem decides_logCaught (e : JsError) :
    Decides C pid jobId strict (Caught first jobId strict e) (createStatusLog jobId .FAILED)
      (fun _ => (verdictStages first jobId strict).failed e)
      ((verdictStages first jobId strict).failed) := by
  refine (decides_createStatusLog (lasts_caught e) fun s log hid hst hs => ?_).mono (fun _ hs => hs)
    (fun _ _ hs => hs) fun _ _ hs hstrict => absurd hstrict hs.1
  intro hstrict
  obtain ⟨-, n, hn⟩ := hs hstrict
  refine ⟨n, (hn.saved hid).mono ?_⟩
  rintro logs code row _ ⟨rfl, before, hb⟩
  exact ⟨hb, by rw [hst]⟩

/-- **The stages of the run.** -/
theorem valid_verdictStages : (verdictStages first jobId strict).Valid C pid
    (verdictContext pid jobId strict) jobId where
  find := decides_findJob
  ready _ := decides_caught (decides_createStatusLog lasts_found fun _ _ _ _ hs => hs)
  access _ := decides_access
  run _ := decides_caught (decides_createStatusLog lasts_found fun _ _ _ _ hs => hs)
  create _ := decides_create
  start _ _ := decides_caught (decides_quiet lasts_created trivial (fun _ he => by cases he)
    fun _ _ he => by cases he)
  wait _ _ := decides_wait
  kill _ _ := decides_const _
  removeLate _ _ := decides_const _
  saveLate _ := (decides_const _).mono (fun _ h => h) (fun _ _ h => h) fun _ _ h => caught_of_not h
  logLate _ := (decides_const _).mono (fun _ h => h) (fun _ _ h => caught_of_not h)
    fun _ _ h => caught_of_not h
  logs _ _ _ := decides_logs
  remove _ _ _ _ := decides_caught (decides_quiet lasts_exists trivial (fun _ he => by cases he)
    fun _ _ he => by cases he)
  saveOutput _ logs := decides_saveText rfl (and_iff_left fitsText_none).symm
  logSuccess := decides_logVerdict fun _ code _ _ h => ⟨h.2, by rw [verdict, if_pos h.1]⟩
  saveError _ code logs hcode := (decides_saveText (if_neg hcode)
    (and_iff_right fitsText_none).symm).mono (fun _ h => h) (fun _ _ ⟨n, hn⟩ => ⟨n, hn.mono
      fun _ _ _ _ h => ⟨h.1 ▸ hcode, h.2⟩⟩) fun _ _ h => h
  logError := decides_logVerdict fun _ code _ _ h => ⟨h.2, by rw [verdict, if_neg h.1]⟩
  saveCaught := decides_saveCaught
  logCaught := decides_logCaught

/-! ### What a finished run has stored -/

/-- The run of a process that has taken the job. -/
theorem stands_processJob {σ σ' : (services C).Sys}
    (hstep : Service.step σ (.call (.processJob jobId)) = some σ')
    (hjob : strict → ∃ row, σ.shared.job? jobId = some row) :
    (verdictContext σ.procs.length jobId strict).Stands (P := services C) σ.procs.length
      (.processJob jobId) (fun x _ s => Prog.Ends
        (fun _ => (verdictStages σ.shared.containers.length jobId strict).finished)
        (verdictStages σ.shared.containers.length jobId strict).failed x s) σ' := by
  refine stands_call (fun _ => .refl) (fun s ha => ?_) hstep
  have ha : World.accept σ.procs.length (.processJob jobId) σ.shared = some s := ha
  have har := arrives ha
  have hbegun : (verdictStages σ.shared.containers.length jobId strict).begun s := by
    refine ⟨Nat.le_of_eq (by rw [har.containers]), fun hstrict => ?_⟩
    rw [World.job?, har.jobs]
    exact hjob hstrict
  have hvalid : (verdictStages σ.shared.containers.length jobId strict).Valid C σ.procs.length
      (verdictContext σ.procs.length jobId strict) jobId := valid_verdictStages
  have hgoal := triple_processJob hvalid s s trivial trivial hbegun
  exact Prog.wp_mono (fun _ _ _ h => h.2.2) _ _ _ hgoal

theorem admits_verdict :
    (verdictContext pid jobId strict).Admits (P := services C) pid
      (fun σ e => Undisturbed pid jobId σ e ∧ (strict → Unfailing pid σ e)) where
  refl _ := .refl
  trans _ _ _ h h' := h.trans h'
  others hok hs hne := by
    obtain ⟨hrow, hlog⟩ := hok.1 hne _ hs
    exact ⟨containersKept_step hs, hrow, hlog⟩
  own hok hp := ⟨trivial, fun hstrict => hok.2 hstrict rfl _ hp⟩

/-- The container of job `1` prints and exits, and the calls of the run are answered. -/
def printedExecution (frames : List LogFrame) (code : Int) (answers : Nat) :
    List (services Config.plain).Event :=
  List.replicate 6 (.resume 1 .done) ++ frames.map (fun frame => .env (.prints 0 frame)) ++
    .env (.exits 0 code) :: List.replicate answers (.resume 1 .done)

/-- The job is taken after its upload, and the events that follow meet a condition. -/
theorem exists_execution {ok : (services Config.plain).Sys → (services Config.plain).Event → Prop}
    [∀ σ e, Decidable (ok σ e)] {es : List (services Config.plain).Event} {α : Type}
    {f : (services Config.plain).Sys → α} {a : α}
    (h : (Service.run (start Config.plain) firstUpload).bind (fun σ₀ =>
      (Service.step σ₀ (.call (.processJob (js "1")))).bind fun σ₁ =>
        (Service.runIf ok σ₁ es).map fun σ => (σ₀.procs.length, f σ)) = some (1, a)) :
    ∃ σ₀ σ₁ σ, Service.run (start Config.plain) firstUpload = some σ₀ ∧ σ₀.procs.length = 1 ∧
      Service.step σ₀ (.call (.processJob (js "1"))) = some σ₁ ∧ Service.Reaches ok σ₁ σ ∧
      f σ = a := by
  obtain ⟨σ₀, h₀, h⟩ := Option.bind_eq_some_iff.mp h
  obtain ⟨σ₁, h₁, h⟩ := Option.bind_eq_some_iff.mp h
  obtain ⟨σ, h₂, h⟩ := Option.map_eq_some_iff.mp h
  obtain ⟨hlen, hf⟩ := Prod.mk.inj h
  exact ⟨σ₀, σ₁, σ, h₀, hlen, h₁, Service.reaches_of_runIf h₂, hf⟩

/-- A process of that number that has returned. -/
theorem ret_of_returned {σ : (services Config.plain).Sys}
    (h : (σ.procs[1]?).map (fun p => (p.call, decide p.prog.Returned)) =
      some (.processJob (js "1"), true)) :
    ∃ alive, σ.procs[1]? = some ⟨.processJob (js "1"), (.ret () : Program Unit), alive⟩ := by
  obtain ⟨⟨call, prog, alive⟩, hp, hpair⟩ := Option.map_eq_some_iff.mp h
  obtain ⟨hcall, hret⟩ := Prod.mk.inj hpair
  obtain rfl : call = _ := hcall
  have hreturned := of_decide_eq_true hret
  cases prog with
  | ret a => exact ⟨alive, hp⟩
  | fail e => cases hreturned
  | await c k => cases hreturned
  | sync o k => cases hreturned

/-- **What is stored is what the program wrote exactly when it wrote nothing.**  A process
takes the job, whoever else moves leaves the row and the log of the job alone, and the process
returns.  Then its container has exited, and the row has the exit code, and the log of the
container as its text; this is what the program has written if and only if the log has no
frame. -/
theorem stored_output_is_output_iff (C : Config) (jobId : JsString) (σ₀ σ₁ σ : (services C).Sys)
    (alive : Bool)
    (hcall : Service.step σ₀ (.call (.processJob jobId)) = some σ₁)
    (hrun : Service.Reaches (Undisturbed σ₀.procs.length jobId) σ₁ σ)
    (hret : σ.procs[σ₀.procs.length]? = some ⟨.processJob jobId, (.ret () : Program Unit), alive⟩) :
    ∃ n c code row, σ₀.shared.containers.length ≤ n ∧ σ.shared.containers[n]? = some c ∧
      σ.shared.job? jobId = some row ∧ c.file = js "/code-files/" ++ row.filePath ∧
      c.exited = some code ∧ row.exitCode = some code ∧
      row.storedText = some (utf8Decode c.logs) ∧
      (row.storedText = some (utf8Decode c.written) ↔ c.log = []) := by
  have hstands := stands_processJob hcall (False.elim : False → _)
  have hr : Service.Reaches (fun σ e => Undisturbed σ₀.procs.length jobId σ e ∧
      (False → Unfailing σ₀.procs.length σ e)) σ₁ σ :=
    hrun.mono fun _ _ h => ⟨h, False.elim⟩
  obtain ⟨-, s, ⟨n, hn⟩, hleaves⟩ := result_of_reaches (x := .ok ()) admits_verdict hstands hr hret
  obtain ⟨c, code, row, hm, he, ⟨hcode, htext, -⟩, -⟩ := hn.leaves hleaves
  refine ⟨n, c, code, row, hm.new, hm.container, hm.found, hm.file, he, hcode, htext, ?_⟩
  rw [htext, Option.some_inj]
  exact decode_logs_eq_iff c

/-- The container of the run exits without a word. -/
theorem stored_output_is_output_silent :
    ∃ (σ : (services Config.plain).Sys) (c : Container) (row : ExecutionJob),
      σ.shared.job? (js "1") = some row ∧ row.storedText = some (utf8Decode c.written) := by
  have hrun : (Service.run (start Config.plain) firstUpload).bind (fun σ₀ =>
      (Service.step σ₀ (.call (.processJob (js "1")))).bind fun σ₁ =>
        (Service.runIf (fun σ e => Undisturbed 1 (js "1") σ e) σ₁
          (printedExecution [] 0 5)).map fun σ => (σ₀.procs.length,
            (σ.procs[1]?).map (fun p => (p.call, decide p.prog.Returned)),
            σ.shared.containers.map Container.log)) =
      some (1, some (.processJob (js "1"), true), [[]]) := by decide +kernel
  obtain ⟨σ₀, σ₁, σ, -, hlen, h₁, hr, hend⟩ := exists_execution hrun
  obtain ⟨hproc, hlogs⟩ := Prod.mk.inj hend
  obtain ⟨alive, hp⟩ := ret_of_returned hproc
  rw [← hlen] at hr hp
  obtain ⟨n, c, code, row, -, hc, hrow, -, -, -, -, hiff⟩ :=
    stored_output_is_output_iff Config.plain (js "1") σ₀ σ₁ σ alive h₁ hr hp
  have hlog : c.log ∈ σ.shared.containers.map Container.log :=
    List.mem_map_of_mem (List.mem_of_getElem? hc)
  rw [hlogs] at hlog
  exact ⟨σ, c, row, hrow, hiff.mpr (List.mem_singleton.mp hlog)⟩

/-- The container of the run prints `hi`, and exits with 0. -/
theorem stored_output_is_not_output :
    ∃ (σ₀ σ₁ σ : (services Config.plain).Sys),
      Service.step σ₀ (.call (.processJob (js "1"))) = some σ₁ ∧
      Service.Reaches (Undisturbed 1 (js "1")) σ₁ σ ∧
      (∃ alive, σ.procs[1]? =
        some ⟨.processJob (js "1"), (.ret () : Program Unit), alive⟩) ∧
      σ.shared.containers.map (fun c => (c.exited, utf8Decode c.written)) =
        [(some 0, js "hi")] ∧
      (σ.shared.job? (js "1")).map ExecutionJob.storedText ≠ some (some (js "hi")) := by
  have hrun : (Service.run (start Config.plain) firstUpload).bind (fun σ₀ =>
      (Service.step σ₀ (.call (.processJob (js "1")))).bind fun σ₁ =>
        (Service.runIf (fun σ e => Undisturbed 1 (js "1") σ e) σ₁
          (printedExecution [⟨false, [104, 105]⟩] 0 5)).map fun σ => (σ₀.procs.length,
            (σ.procs[1]?).map (fun p => (p.call, decide p.prog.Returned)),
            decide (σ.shared.containers.map (fun c => (c.exited, utf8Decode c.written)) =
                [(some 0, js "hi")] ∧
              (σ.shared.job? (js "1")).map ExecutionJob.storedText ≠ some (some (js "hi"))))) =
      some (1, some (.processJob (js "1"), true), true) := by decide +kernel
  obtain ⟨σ₀, σ₁, σ, -, hlen, h₁, hr, hend⟩ := exists_execution hrun
  obtain ⟨hproc, hend⟩ := Prod.mk.inj hend
  obtain ⟨hwritten, htext⟩ := of_decide_eq_true hend
  exact ⟨σ₀, σ₁, σ, h₁, hr, ret_of_returned hproc, hwritten, htext⟩

/-- The row has the code, and the last entry is the one for the code. -/
structure Classified (s : World) (jobId : JsString) (code : Int) : Prop where
  exitCode : ∃ row, s.job? jobId = some row ∧ row.exitCode = some code
  status : finalStatus (s.logsOf jobId) = some (verdict code)

/-- **The exit code decides exactly when what is stored fits its column.**  A process takes the
job, whoever else moves leaves the row and the log of the job alone, no call of the process
fails, other than an update whose text does not fit its column, and the process returns or
throws.  Then its container has exited, and the row and the last entry are as its exit code
says if and only if its log, decoded, fits a column of type `TEXT`. -/
theorem exit_code_classifies_iff (C : Config) (jobId : JsString) (σ₀ σ₁ σ : (services C).Sys)
    (x : Except JsError Unit) (alive : Bool)
    (h₀ : Service.Reaches Service.anyEvent (start C) σ₀)
    (hcall : Service.step σ₀ (.call (.processJob jobId)) = some σ₁)
    (hrun : Service.Reaches (fun σ e => Undisturbed σ₀.procs.length jobId σ e ∧
      Unfailing σ₀.procs.length σ e) σ₁ σ)
    (hover : σ.procs[σ₀.procs.length]? =
      some ⟨.processJob jobId, (Prog.ended x : Program Unit), alive⟩) :
    ∃ n c code, σ₀.shared.containers.length ≤ n ∧ σ.shared.containers[n]? = some c ∧
      c.exited = some code ∧
      (Classified σ.shared jobId code ↔ FitsText (some (utf8Decode c.logs))) := by
  have hjob : ∃ row, σ₀.shared.job? jobId = some row := by
    obtain ⟨hl, hh⟩ := holds_of_reaches (reaches_lax h₀)
    obtain ⟨s, ha, -⟩ := Service.step_call hcall
    have ha : World.accept σ₀.procs.length (.processJob jobId) σ₀.shared = some s := ha
    have har := arrives ha
    have hw := (working_of_accept hl ha).1
    obtain ⟨row, hrow⟩ := job?_of_published (har.sound hh.1) hw.2
    rw [World.job?, har.jobs] at hrow
    exact ⟨row, hrow⟩
  have hstands := stands_processJob hcall fun _ : True => hjob
  have hr : Service.Reaches (fun σ e => Undisturbed σ₀.procs.length jobId σ e ∧
      (True → Unfailing σ₀.procs.length σ e)) σ₁ σ :=
    hrun.mono fun _ _ h => ⟨h.1, fun _ => h.2⟩
  obtain ⟨-, s, hends, hleaves⟩ := result_of_reaches admits_verdict hstands hr hover
  cases x with
  | ok a =>
    obtain ⟨n, hn⟩ := hends
    obtain ⟨c, code, row, hm, he, ⟨hcode, -, hfits⟩, hstatus⟩ := hn.leaves hleaves
    exact ⟨n, c, code, hm.new, hm.container, he,
      iff_of_true ⟨⟨row, hm.found, hcode⟩, hstatus⟩ hfits⟩
  | error e =>
    obtain ⟨n, hn⟩ := hends trivial
    obtain ⟨c, code, row, hm, he, hunfit, hstatus⟩ := hn.leaves hleaves
    refine ⟨n, c, code, hm.new, hm.container, he, iff_of_false (fun h => ?_) hunfit⟩
    have hfailed := hstatus.symm.trans h.status
    rw [verdict] at hfailed
    split at hfailed
    · cases hfailed
    · cases hfailed

/-- The container of the run prints `hi`, and exits with 3. -/
theorem exit_code_classifies_short_output :
    ∃ (σ : (services Config.plain).Sys) (code : Int), Classified σ.shared (js "1") code := by
  have hrun : (Service.run (start Config.plain) firstUpload).bind (fun σ₀ =>
      (Service.step σ₀ (.call (.processJob (js "1")))).bind fun σ₁ =>
        (Service.runIf (fun σ e => Undisturbed 1 (js "1") σ e ∧ Unfailing 1 σ e) σ₁
          (printedExecution [⟨true, [104, 105]⟩] 3 5)).map fun σ => (σ₀.procs.length,
            (σ.procs[1]?).map (fun p => (p.call, decide p.prog.Returned)),
            decide (∀ c ∈ σ.shared.containers, FitsText (some (utf8Decode c.logs))))) =
      some (1, some (.processJob (js "1"), true), true) := by decide +kernel
  obtain ⟨σ₀, σ₁, σ, h₀, hlen, h₁, hr, hend⟩ := exists_execution hrun
  obtain ⟨hproc, hfits⟩ := Prod.mk.inj hend
  obtain ⟨alive, hp⟩ := ret_of_returned hproc
  rw [← hlen] at hr hp
  obtain ⟨n, c, code, -, hc, -, hiff⟩ := exit_code_classifies_iff Config.plain (js "1") σ₀ σ₁ σ
    (.ok ()) alive (Service.reaches_of_run h₀ fun _ _ _ => trivial) h₁ hr hp
  exact ⟨σ, code, hiff.mpr (of_decide_eq_true hfits c (List.mem_of_getElem? hc))⟩

/-- The container of the run prints 21843 bytes that are no text, three bytes each when they
are stored, and exits with 0. -/
theorem exit_code_lost_on_long_output :
    ∃ (σ₀ σ₁ σ : (services Config.plain).Sys),
      Service.run (start Config.plain) firstUpload = some σ₀ ∧
      Service.step σ₀ (.call (.processJob (js "1"))) = some σ₁ ∧
      Service.Reaches (fun σ e => Undisturbed 1 (js "1") σ e ∧ Unfailing 1 σ e) σ₁ σ ∧
      (∀ p ∈ σ.procs, ¬ p.Live) ∧ σ.shared.containers.map Container.exited = [some 0] ∧
      finalStatus (σ.shared.logsOf (js "1")) = some .FAILED ∧
      ¬ Classified σ.shared (js "1") 0 := by
  have hrun : (Service.run (start Config.plain) firstUpload).bind (fun σ₀ =>
      (Service.step σ₀ (.call (.processJob (js "1")))).bind fun σ₁ =>
        (Service.runIf (fun σ e => Undisturbed 1 (js "1") σ e ∧ Unfailing 1 σ e) σ₁
          (printedExecution [⟨false, List.replicate 21843 128⟩] 0 6)).map fun σ =>
            (σ₀.procs.length, decide (∀ p ∈ σ.procs, ¬ p.Live),
              σ.shared.containers.map Container.exited,
              finalStatus (σ.shared.logsOf (js "1")))) =
      some (1, true, [some 0], some .FAILED) := by decide +kernel
  obtain ⟨σ₀, σ₁, σ, h₀, -, h₁, hr, hend⟩ := exists_execution hrun
  obtain ⟨hover, hend⟩ := Prod.mk.inj hend
  obtain ⟨hexited, hstatus⟩ := Prod.mk.inj hend
  refine ⟨σ₀, σ₁, σ, h₀, h₁, hr, of_decide_eq_true hover, hexited, hstatus, fun h => ?_⟩
  have hfailed := hstatus.symm.trans h.status
  cases hfailed

end FullstackSvc.Execution
