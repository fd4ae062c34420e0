import FullstackSvc.Execution.Queries

/-!
# What a container runs

`processJob` starts its container on the path of the row that it has looked up.  The row is
of the job that is delivered, and the file under its path holds the bytes that the owner of
the job has uploaded.

* `mountTypestate`: a container is created for the row that was found.
* `container_runs_upload`: **every container runs an upload of the owner of its job**.
-/

namespace FullstackSvc.Execution

open Text Async

variable {C : Config} {pid : Nat} {s s' : World}

/-- The job that a delivery is for, and the row that it has found. -/
structure Finding where
  jobId : Option JsString
  found : Option JobKey

/-- The path of the file of a job in its container. -/
def containerFilePath (k : JobKey) : JsString := js "/code-files/" ++ k.filePath

def mountTypestate : Typestate sig JsError Finding where
  allows v
    | .findJob jobId => v.jobId = some jobId
    | .createContainer file => ∃ k, v.found = some k ∧ file = containerFilePath k
    | _ => True
  answered v
    | .findJob _, .ok (some row) => { v with found := some row.key }
    | _, _ => v
  computed v _ _ := v

/-! ### The programs obey -/

/-- Calls of which a finding does not speak. -/
theorem does_silent {K : Finding → Prop} {c : Cmd} (hc : ∀ v, mountTypestate.allows v c)
    (hv : ∀ v x, mountTypestate.answered v c x = v) :
    mountTypestate.Does K (await c) (fun _ => K) fun _ _ => True :=
  .call (fun v _ => hc v) (fun v a h => by rwa [hv]) fun _ _ _ => trivial

theorem does_op {K : Finding → Prop} {o : Op} :
    mountTypestate.Does K (Prog.op (A := sig) o) (fun _ => K) fun _ _ => True :=
  .op fun _ _ h => h

theorem does_statusLog {K : Finding → Prop} {jobId : JsString} {status : ExecutionJobStatus} :
    mountTypestate.Does K (createStatusLog jobId status) (fun _ => K) fun _ _ => True :=
  .bind (fun _ => K) does_op fun _ => .bind (fun _ => K) does_op fun _ =>
    does_silent (fun _ => trivial) fun _ _ => rfl

theorem does_result {K : Finding → Prop} {jobId : JsString} {output error : Option JsString}
    {exitCode : Int} :
    mountTypestate.Does K (updateResult jobId output error exitCode) (fun _ => K) fun _ _ => True :=
  .bind (fun _ => K) does_op fun _ => does_silent (fun _ => trivial) fun _ _ => rfl

theorem does_race {K : Finding → Prop} {jobId : JsString} {n : Nat} :
    mountTypestate.Does K (raceWithTimeout jobId n) (fun _ => K) fun _ _ => True := by
  refine .handle (fun _ _ => True) (does_silent (fun _ => trivial) fun _ _ => rfl) fun e => ?_
  refine .bind (fun _ _ => True) (.handle (fun _ _ => True)
    (does_silent (fun _ => trivial) fun _ _ => rfl) fun _ => .ret fun _ hv => hv) fun _ => ?_
  refine .bind (fun _ _ => True) (.handle (fun _ _ => True)
    (does_silent (fun _ => trivial) fun _ _ => rfl) fun _ => .ret fun _ hv => hv) fun _ => ?_
  exact .bind (fun _ _ => True) does_result fun _ => .bind (fun _ _ => True) does_statusLog
    fun _ => .fail fun _ hv => hv

theorem does_save {K : Finding → Prop} {jobId output : JsString} {exitCode : Int} :
    mountTypestate.Does K (saveResult jobId output exitCode) (fun _ => K) fun _ _ => True := by
  rw [saveResult]
  split
  · exact .bind (fun _ => K) does_result fun _ => does_statusLog
  · exact .bind (fun _ => K) does_result fun _ => does_statusLog

theorem does_run {jobId : JsString} {row : ExecutionJob} :
    mountTypestate.Does (fun v => v.found = some row.key) (runContainer jobId row)
      (fun _ _ => True) fun _ _ => True := by
  refine .bind (fun _ _ => True) (.call (fun v hv => ⟨row.key, hv, rfl⟩) (fun _ _ _ => trivial)
    fun _ _ _ => trivial) fun n => ?_
  refine .bind (fun _ _ => True) (does_silent (fun _ => trivial) fun _ _ => rfl) fun _ => ?_
  refine .bind (fun _ _ => True) does_race fun code => ?_
  refine .bind (fun _ _ => True) (does_silent (fun _ => trivial) fun _ _ => rfl) fun logs => ?_
  exact .bind (fun _ _ => True) (does_silent (fun _ => trivial) fun _ _ => rfl) fun _ => does_save

/-- **The worker creates its container for the row that it has found.** -/
theorem does_delivery {jobId : JsString} :
    mountTypestate.Does (fun v => v.jobId = some jobId) (processJob C jobId)
      (fun _ _ => True) fun _ _ => True := by
  refine .handle (fun _ _ => True) ?_ fun e => ?_
  · refine .bind (fun found v => ∀ row, found = some row → v.found = some row.key)
      (.call (fun v hv => hv) ?_ fun _ _ _ => trivial) fun found => ?_
    · rintro v a - row rfl
      rfl
    · cases found with
      | none => exact .fail fun _ _ => trivial
      | some row =>
        refine Typestate.Does.mono ?_ (fun v hv => hv row rfl) (fun _ _ h => h) fun _ _ h => h
        refine .bind (fun _ v => v.found = some row.key) does_statusLog fun _ => ?_
        refine .bind (fun _ v => v.found = some row.key)
          (does_silent (c := .access (join C.basePath row.filePath)) (fun _ => trivial)
            fun _ _ => rfl) fun _ => ?_
        exact .bind (fun _ v => v.found = some row.key) does_statusLog fun _ => does_run
  · exact .bind (fun _ _ => True) does_result fun _ => .bind (fun _ _ => True) does_statusLog
      fun _ => .fail fun _ hv => hv

theorem does_upload {userId : JsString} {file : UploadedFile} :
    mountTypestate.Does (fun _ => True) (createExecutionJob C userId file) (fun _ _ => True)
      fun _ _ => True := by
  have hcall : ∀ {c : Cmd}, (∀ v, mountTypestate.allows v c) →
      mountTypestate.Does (fun _ => True) (await c) (fun _ _ => True) fun _ _ => True := fun hc =>
    .call (fun v _ => hc v) (fun _ _ _ => trivial) fun _ _ _ => trivial
  refine .bind (fun _ _ => True) does_op fun id => ?_
  refine .bind (fun _ _ => True) (hcall fun _ => trivial) fun _ => ?_
  refine .bind (fun _ _ => True) (.bind (fun _ _ => True) (hcall fun _ => trivial) fun _ =>
    hcall fun _ => trivial) fun _ => ?_
  refine .bind (fun _ _ => True) ?_ fun job => .bind (fun _ _ => True) (hcall fun _ => trivial)
    fun _ => .ret fun _ hv => hv
  refine .handle (fun _ _ => True) ?_ fun e => .bind (fun _ _ => True) (.handle (fun _ _ => True)
    (hcall fun _ => trivial) fun _ => .ret fun _ hv => hv) fun _ => .fail fun _ hv => hv
  refine .bind (fun _ _ => True) (hcall fun _ => trivial) fun _ => .bind (fun _ _ => True) ?_
    fun job => .bind (fun _ _ => True) (hcall fun _ => trivial) fun _ => .ret fun _ hv => hv
  refine .bind (fun _ _ => True) does_op fun _ => .bind (fun _ _ => True) does_op fun _ => ?_
  refine .bind (fun _ _ => True) (hcall fun _ => trivial) fun _ => ?_
  exact .bind (fun _ _ => True) does_op fun _ => .bind (fun _ _ => True) (hcall fun _ => trivial)
    fun _ => .ret fun _ hv => hv

/-! ### Every state -/

/-- The job is delivered, or has been. -/
def Delivering (s : World) (jobId : JsString) : Prop :=
  ∃ p : Nat, s.calls[p]? = some (.processJob jobId)

/-- What was found is a row, and every container is for a row of a job that was delivered. -/
structure Mounted (s : World) (views : Nat → Finding) : Prop where
  request : ∀ pid jobId, (views pid).jobId = some jobId → s.calls[pid]? = some (.processJob jobId)
  found : ∀ pid k, (views pid).found = some k → k ∈ s.keys ∧ Delivering s k.id
  containers : ∀ c ∈ s.containers, ∃ k ∈ s.keys, c.file = containerFilePath k ∧ Delivering s k.id

/-- What the rows, the requests and the containers may become. -/
structure Mounted.Kept (s s' : World) : Prop where
  calls : ∃ l, s'.calls = s.calls ++ l
  keys : ∀ k ∈ s.keys, k ∈ s'.keys
  containers : ∀ c' ∈ s'.containers, ∃ c ∈ s.containers, c'.file = c.file

variable {views : Nat → Finding}

theorem Delivering.mono {jobId : JsString} (h : Delivering s jobId) {l : List Request}
    (hl : s'.calls = s.calls ++ l) : Delivering s' jobId := by
  obtain ⟨p, hp⟩ := h
  refine ⟨p, ?_⟩
  rw [hl, List.getElem?_append_left (List.getElem?_eq_some_iff.mp hp).1]
  exact hp

theorem Mounted.mono (h : Mounted s views) (hk : Mounted.Kept s s') : Mounted s' views := by
  obtain ⟨l, hl⟩ := hk.calls
  refine ⟨fun pid jobId hv => ?_, fun pid k hv => ?_, fun c' hc' => ?_⟩
  · have hp := h.request pid jobId hv
    rw [hl, List.getElem?_append_left (List.getElem?_eq_some_iff.mp hp).1]
    exact hp
  · obtain ⟨hmem, hdel⟩ := h.found pid k hv
    exact ⟨hk.keys k hmem, hdel.mono hl⟩
  · obtain ⟨c, hc, hfile⟩ := hk.containers c' hc'
    obtain ⟨k, hmem, hpath, hdel⟩ := h.containers c hc
    exact ⟨k, hk.keys k hmem, hfile.trans hpath, hdel.mono hl⟩

theorem kept_of_containers (hc : s'.calls = s.calls) (hh : ∃ l, s'.headers = s.headers ++ l)
    (hf : ∀ c' ∈ s'.containers, ∃ c ∈ s.containers, c'.file = c.file) : Mounted.Kept s s' where
  calls := ⟨[], by rw [hc, List.append_nil]⟩
  keys k hk := by
    obtain ⟨l, hl⟩ := hh
    rw [keys_eq] at hk ⊢
    rw [hl, List.map_append]
    exact List.mem_append_left _ hk
  containers := hf

/-- A change of one container that keeps what it runs. -/
theorem file_of_modify {n : Nat} {f : Container → Container} (hf : ∀ c, (f c).file = c.file) :
    ∀ c' ∈ (s.modifyContainer n f).containers, ∃ c ∈ s.containers, c'.file = c.file := by
  intro c' hc'
  obtain ⟨i, hi⟩ := List.mem_iff_getElem?.mp hc'
  rcases modify_cases hi with ⟨-, c, hc, rfl⟩ | ⟨-, hc⟩
  · exact ⟨c, List.mem_of_getElem? hc, hf c⟩
  · exact ⟨c', List.mem_of_getElem? hc, rfl⟩

/-- A command that creates no container keeps what the containers run. -/
theorem containers_perform {c : Cmd} {r : Reply} {x : Except JsError (sig.Res c)}
    (h : perform pid c r s = some (x, s')) (hc : ∀ file, c ≠ .createContainer file) :
    ∀ c' ∈ s'.containers, ∃ c ∈ s.containers, c'.file = c.file := by
  have hsame : s'.containers = s.containers →
      ∀ c' ∈ s'.containers, ∃ c ∈ s.containers, c'.file = c.file :=
    fun he c' hc' => ⟨c', he ▸ hc', rfl⟩
  rcases perform_cases h with ⟨-, hd⟩ | ⟨-, e, -, -, rfl⟩ | ⟨path, bytes, n, e, -, -, -, -, rfl⟩
  · cases c with
    | createContainer file => exact absurd rfl (hc file)
    | startContainer n | removeContainer n | killContainer n =>
      obtain ⟨-, rfl⟩ := Prod.mk.inj (Option.some.inj hd)
      exact file_of_modify fun _ => rfl
    | insertJob _ | insertStatusLog _ | saveStatusLog _ | updateJob _ _ | access _
    | containerLogs _ =>
      rw [performDone] at hd
      split at hd
      · obtain ⟨-, rfl⟩ := Prod.mk.inj (Option.some.inj hd)
        exact hsame rfl
      · obtain ⟨-, rfl⟩ := Prod.mk.inj (Option.some.inj hd)
        exact hsame rfl
    | waitOrTimeout n =>
      rw [performDone] at hd
      split at hd
      · obtain ⟨-, rfl⟩ := Prod.mk.inj (Option.some.inj hd)
        exact hsame rfl
      · obtain ⟨code, -, he⟩ := Option.map_eq_some_iff.mp hd
        obtain ⟨-, rfl⟩ := Prod.mk.inj he
        exact hsame rfl
    | _ =>
      obtain ⟨-, rfl⟩ := Prod.mk.inj (Option.some.inj hd)
      exact hsame rfl
  · exact hsame rfl
  · exact hsame rfl

/-- Every container is for a row that was found. -/
theorem mounted_perform {c : Cmd} {r : Reply} {x : Except JsError (sig.Res c)}
    (h : Mounted s views) (hallows : mountTypestate.allows (views pid) c)
    (hp : perform pid c r s = some (x, s')) :
    Mounted s' (Function.update views pid (mountTypestate.answered (views pid) c x)) := by
  have hcalls := calls_perform hp
  have hheaders := (tables_perform hp).1
  by_cases hcreate : ∃ file, c = .createContainer file
  · obtain ⟨file, rfl⟩ := hcreate
    show Mounted s' (Function.update views pid (views pid))
    rw [Function.update_eq_self]
    rcases perform_createContainer hp with ⟨-, rfl⟩ | ⟨e, -, -, rfl⟩
    · obtain ⟨k, hk, rfl⟩ := hallows
      obtain ⟨hmem, hdel⟩ := h.found pid k hk
      refine ⟨h.request, h.found, fun c hc => ?_⟩
      rcases List.mem_append.mp hc with hc | hc
      · exact h.containers c hc
      · rw [List.mem_singleton.mp hc]
        exact ⟨k, hmem, rfl, hdel⟩
    · exact h
  · have hkept := h.mono (kept_of_containers hcalls hheaders
      (containers_perform hp fun file he => hcreate ⟨file, he⟩))
    by_cases hfind : ∃ jobId, c = .findJob jobId
    · obtain ⟨jobId, rfl⟩ := hfind
      cases x with
      | error e =>
        show Mounted s' (Function.update views pid (views pid))
        rwa [Function.update_eq_self]
      | ok found =>
        cases found with
        | none =>
          show Mounted s' (Function.update views pid (views pid))
          rwa [Function.update_eq_self]
        | some row =>
          have hrow : s.job? jobId = some row := by
            rcases perform_findJob hp with ⟨hx, -⟩ | ⟨e, hx, -⟩
            · exact (Except.ok.inj hx).symm
            · cases hx
          obtain ⟨hmem, rfl⟩ := mem_keys_of_job? hrow
          have hdel := h.request pid _ hallows
          refine ⟨fun p j hj => ?_, fun p k hk => ?_, hkept.containers⟩
          · by_cases hpid : p = pid
            · subst hpid
              rw [Function.update_self] at hj
              exact hkept.request p j hj
            · rw [Function.update_of_ne hpid] at hj
              exact hkept.request p j hj
          · by_cases hpid : p = pid
            · subst hpid
              rw [Function.update_self] at hk
              obtain rfl := Option.some.inj hk
              rw [hcalls.symm] at hdel
              obtain ⟨l, hl⟩ := hheaders
              refine ⟨?_, p, hdel⟩
              rw [keys_eq] at hmem ⊢
              rw [hl, List.map_append]
              exact List.mem_append_left _ hmem
            · rw [Function.update_of_ne hpid] at hk
              exact hkept.found p k hk
    · have hsame : mountTypestate.answered (views pid) c x = views pid := by
        cases c with
        | findJob jobId => exact absurd ⟨jobId, rfl⟩ hfind
        | _ => rfl
      rw [hsame, Function.update_eq_self]
      exact hkept

theorem file_of_env {e : Env} (h : World.env e s = some s') :
    ∀ c' ∈ s'.containers, ∃ c ∈ s.containers, c'.file = c.file := by
  cases e with
  | tick ms =>
    obtain rfl := Option.some.inj h
    exact fun c hc => ⟨c, hc, rfl⟩
  | prints n frame =>
    rw [World.env] at h
    split at h
    · split at h
      · obtain rfl := Option.some.inj h
        exact file_of_modify fun _ => rfl
      · cases h
    · cases h
  | exits n code =>
    rw [World.env] at h
    split at h
    · split at h
      · obtain rfl := Option.some.inj h
        exact file_of_modify fun _ => rfl
      · cases h
    · cases h

/-- The finding of a request that has just arrived. -/
def Finding.first : Request → Finding
  | .createExecutionJob _ _ => ⟨none, none⟩
  | .processJob jobId => ⟨some jobId, none⟩

theorem call_of_first {c : Request} {jobId : JsString}
    (h : (Finding.first c).jobId = some jobId) : c = .processJob jobId := by
  cases c with
  | createExecutionJob userId file => cases h
  | processJob j => exact congrArg Request.processJob (Option.some.inj h)

theorem found_of_first (c : Request) : (Finding.first c).found = none := by
  cases c with
  | createExecutionJob userId file => rfl
  | processJob jobId => rfl

theorem kept_mountTypestate : mountTypestate.Kept (services C) (fun σ _ => Regular σ) Mounted
    (fun c v => v = Finding.first c) fun _ _ _ => True where
  perform _ hm hallows hp := mounted_perform hm hallows hp
  compute {pid o s views} hm := by
    show Mounted _ (Function.update views pid (views pid))
    rw [Function.update_eq_self]
    cases o with
    | ulid => exact hm.mono (kept_of_containers rfl ⟨[], (List.append_nil _).symm⟩
        fun c hc => ⟨c, hc, rfl⟩)
    | now => exact hm
  accept {σ c s views} hreg hm ha := by
    have harr := arrives ha
    have hlen := (calls_of_accept hreg.1 ha).1
    have hkept : Mounted s views := hm.mono
      ⟨⟨_, harr.calls⟩, fun k hk => harr.keys.symm ▸ hk, fun c' hc' => ⟨c', harr.containers ▸ hc', rfl⟩⟩
    refine ⟨Finding.first c, rfl, fun p j hj => ?_, fun p k hk => ?_, hkept.containers⟩
    · by_cases hp : p = σ.procs.length
      · subst hp
        rw [Function.update_self] at hj
        rw [(calls_of_accept hreg.1 ha).2, call_of_first hj]
      · rw [Function.update_of_ne hp] at hj
        exact hkept.request p j hj
    · by_cases hp : p = σ.procs.length
      · subst hp
        rw [Function.update_self, found_of_first] at hk
        cases hk
      · rw [Function.update_of_ne hp] at hk
        exact hkept.found p k hk
  env _ hm he := hm.mono (kept_of_containers (silent_env he).calls
    ⟨[], by rw [(silent_env he).headers, List.append_nil]⟩ (file_of_env he))
  obeys c v hv := by
    cases c with
    | createExecutionJob userId file =>
      exact (does_upload v trivial).mono fun _ _ _ => trivial
    | processJob jobId =>
      subst hv
      exact (does_delivery _ rfl).mono fun _ _ _ => trivial

theorem mounted_initial : Mounted World.initial fun _ => ⟨none, none⟩ where
  request _ _ h := by cases h
  found _ _ h := by cases h
  containers := List.forall_mem_nil _

/-- The container is for a row of a job that was delivered, and the file under its path holds what
the owner of the job has uploaded for it. -/
structure RunsUpload (C : Config) (s : World) (c : Container) (row : ExecutionJob)
    (file : UploadedFile) : Prop where
  path : c.file = js "/code-files/" ++ row.filePath
  delivered : ∃ p : Nat, s.calls[p]? = some (.processJob row.id)
  uploaded : ∃ p : Nat, s.calls[p]? = some (.createExecutionJob row.userId file) ∧ s.Owns C p row.id
  bytes : s.files (join C.basePath row.filePath) = some file.buffer

/-- **Every container runs an upload of the owner of its job**: in every state of a run, whatever
the order of the steps, a container is on the path of the row of a job that was delivered, and the
file of that row has exactly the bytes that came with the request of its user. -/
theorem container_runs_upload {σ : (services C).Sys}
    (h : Service.Reaches Service.anyEvent (start C) σ) :
    ∀ c ∈ σ.shared.containers, ∃ row ∈ σ.shared.jobs, ∃ file, RunsUpload C σ.shared c row file := by
  intro c hc
  obtain ⟨hreg, hr⟩ := regular_of_reaches h
  obtain ⟨views, hab⟩ := Typestate.abides_of_reaches kept_mountTypestate
    (Typestate.abides_start mounted_initial) hr
  obtain ⟨k, hk, hpath, hdel⟩ := hab.shared.containers c hc
  obtain ⟨row, hrow, rfl⟩ := List.mem_map.mp hk
  obtain ⟨p, file, hcall, hown, -, hfile⟩ := hreg.2.1.origin _ hk
  exact ⟨row, hrow, file, hpath, hdel, ⟨p, hcall, hown⟩, hfile⟩

theorem container_runs_upload_late_execution :
    ∃ (σ : (services Config.plain).Sys) (c : Container),
      Service.run (start Config.plain) (firstUpload ++ lateExecution) = some σ ∧
        c ∈ σ.shared.containers ∧
        ∃ row ∈ σ.shared.jobs, ∃ file, RunsUpload Config.plain σ.shared c row file := by
  have hone : (Service.run (start Config.plain) (firstUpload ++ lateExecution)).map
      (fun σ => σ.shared.containers.length) = some 1 := by decide +kernel
  obtain ⟨σ, hσ, hlen⟩ := Option.map_eq_some_iff.mp hone
  obtain ⟨c, hc⟩ := List.length_eq_one_iff.mp hlen
  have hmem : c ∈ σ.shared.containers := by
    rw [hc]
    exact List.mem_singleton_self _
  exact ⟨σ, c, hσ, hmem,
    container_runs_upload (Service.reaches_of_run hσ fun _ _ _ => trivial) c hmem⟩

end FullstackSvc.Execution
