import FullstackSvc.Execution.Publication

/-!
# What holds in every state of the execution services

The outline of the two services is coherent, so what it says holds in every
state that a run reaches, whatever the order of the steps, whichever calls fail
and however often an entry is delivered.

* `holds_of_reaches`: the tables, the volume and the queue agree.
* `publish_after_commit`: an entry of the queue has a committed row with its
  first log entry and the complete file, which no later step changes.
-/

namespace FullstackSvc.Execution

open Text Async

variable {C : Config} {strict : Prop}

/-! ### The record of requests -/

theorem calls_performDone {pid : Nat} {c : Cmd} {s s' : World} {x : Except JsError (sig.Res c)}
    (h : performDone pid c s = some (x, s')) : s'.calls = s.calls := by
  cases c with
  | insertJob _ | insertStatusLog _ | saveStatusLog _ | updateJob _ _ | access _
  | containerLogs _ =>
    rw [performDone] at h
    split at h
    · obtain ⟨-, rfl⟩ := Prod.mk.inj (Option.some.inj h)
      rfl
    · obtain ⟨-, rfl⟩ := Prod.mk.inj (Option.some.inj h)
      rfl
  | waitOrTimeout n =>
    rw [performDone] at h
    split at h
    · obtain ⟨-, rfl⟩ := Prod.mk.inj (Option.some.inj h)
      rfl
    · obtain ⟨code, -, he⟩ := Option.map_eq_some_iff.mp h
      obtain ⟨-, rfl⟩ := Prod.mk.inj he
      rfl
  | _ =>
    obtain ⟨-, rfl⟩ := Prod.mk.inj (Option.some.inj h)
    rfl

theorem calls_perform {pid : Nat} {c : Cmd} {r : Reply} {s s' : World}
    {x : Except JsError (sig.Res c)} (h : perform pid c r s = some (x, s')) :
    s'.calls = s.calls := by
  rcases perform_cases h with ⟨-, h⟩ | ⟨-, e, -, -, rfl⟩ | ⟨path, bytes, n, e, -, -, -, -, rfl⟩
  · exact calls_performDone h
  · rfl
  · rfl

theorem calls_compute (pid : Nat) (o : Op) (s : World) : (compute C pid o s).2.calls = s.calls := by
  cases o <;> rfl

theorem calls_accept {pid : Nat} {c : Request} {s s' : World} (h : World.accept pid c s = some s') :
    s'.calls = s.calls ++ [c] := by
  cases c with
  | createExecutionJob userId file =>
    rw [World.accept] at h
    split at h
    · exact Option.some.inj h ▸ rfl
    · cases h
  | processJob jobId =>
    rw [World.accept] at h
    split at h
    · exact Option.some.inj h ▸ rfl
    · split at h
      · exact Option.some.inj h ▸ rfl
      · cases h

/-- Only a container that has not exited is changed from outside. -/
theorem containersKept_running {s : World} {n : Nat} {c : Container}
    (hn : s.containers[n]? = some c) (hc : c.running = true) {f : Container → Container}
    (hf : ∀ c, (f c).file = c.file) : ContainersKept s (s.modifyContainer n f) := by
  intro m c' hc'
  by_cases hm : n = m
  · subst hm
    obtain rfl := Option.some.inj (hn.symm.trans hc')
    refine ⟨f c, ?_, hf c, fun code he => ?_⟩
    · rw [World.modifyContainer, List.getElem?_modify_eq, hn]
      rfl
    · rw [Container.running, he] at hc
      simp at hc
  · refine ⟨c', ?_, rfl, fun _ he => ⟨he, rfl⟩⟩
    rw [World.modifyContainer, List.getElem?_modify_ne f _ hm]
    exact hc'

theorem quiet_env {e : Env} {s s' : World} (h : World.env e s = some s') : Quiet s s' := by
  cases e with
  | tick ms => exact Option.some.inj h ▸ ⟨⟨rfl, rfl, rfl, rfl, rfl, rfl, rfl⟩, rfl, rfl, .of_eq rfl⟩
  | prints n frame =>
    rw [World.env] at h
    split at h
    · rename_i c hn
      split at h
      · rename_i hrun
        exact Option.some.inj h ▸ ⟨same_modifyContainer s n _, rfl, rfl,
          containersKept_running hn hrun fun _ => rfl⟩
      · cases h
    · cases h
  | exits n code =>
    rw [World.env] at h
    split at h
    · rename_i c hn
      split at h
      · rename_i hrun
        exact Option.some.inj h ▸ ⟨same_modifyContainer s n _, rfl, rfl,
          containersKept_running hn hrun fun _ => rfl⟩
      · cases h
    · cases h

theorem Quiet.rely {s s' : World} (h : Quiet s s') (pid : Nat) : Rely C pid s s' :=
  (h.guar (c := .processJob [])).rely (Nat.succ_ne_self pid)

/-- The record of requests stays that of the processes. -/
theorem linked_step {σ σ' : (services C).Sys} {e : (services C).Event} (h : Linked σ)
    (hs : Service.step σ e = some σ') : Linked σ' := by
  exact Service.map_call_step (P := services C) (f := World.calls) calls_perform
    (fun pid => calls_compute pid) calls_accept (fun he => (quiet_env he).same.calls) h hs

/-! ### Arrivals -/

/-- What the arrival of a request leaves as it is. -/
structure Arrives (c : Request) (s s' : World) : Prop where
  drawnBy : s'.drawnBy = s.drawnBy
  calls : s'.calls = s.calls ++ [c]
  jobs : s'.jobs = s.jobs
  files : s'.files = s.files
  logs : s'.logs = s.logs
  transactions : s'.transactions = s.transactions
  containers : s'.containers = s.containers
  published : ∀ jobId, s'.Published jobId ↔ s.Published jobId

theorem arrives {pid : Nat} {c : Request} {s s' : World} (h : World.accept pid c s = some s') :
    Arrives c s s' := by
  cases c with
  | createExecutionJob userId file =>
    rw [World.accept] at h
    split at h
    · exact Option.some.inj h ▸ ⟨rfl, rfl, rfl, rfl, rfl, rfl, rfl, fun _ => Iff.rfl⟩
    · cases h
  | processJob jobId =>
    rw [World.accept] at h
    split at h
    · rename_i hmem
      refine Option.some.inj h ▸ ⟨rfl, rfl, rfl, rfl, rfl, rfl, rfl, fun j => ?_⟩
      show j ∈ s.waiting.erase jobId ∨ (Function.update s.taken jobId (some pid) j).isSome = true ↔
        j ∈ s.waiting ∨ (s.taken j).isSome = true
      by_cases hj : j = jobId
      · subst hj
        simp [hmem]
      · rw [Function.update_of_ne hj, List.mem_erase_of_ne hj]
    · split at h
      · rename_i htaken
        refine Option.some.inj h ▸ ⟨rfl, rfl, rfl, rfl, rfl, rfl, rfl, fun j => ?_⟩
        show j ∈ s.waiting ∨ (Function.update s.taken jobId (some pid) j).isSome = true ↔
          j ∈ s.waiting ∨ (s.taken j).isSome = true
        by_cases hj : j = jobId
        · subst hj
          simp [htaken]
        · rw [Function.update_of_ne hj]
      · cases h

namespace Arrives

variable {c : Request} {s s' : World}

theorem owns (h : Arrives c s s') {pid : Nat} {id : JsString} :
    s'.Owns C pid id ↔ s.Owns C pid id := by
  rw [World.Owns, World.Owns, h.drawnBy]

theorem keys (h : Arrives c s s') : s'.keys = s.keys := by rw [World.keys, h.jobs, World.keys]

theorem sound (h : Arrives c s s') (hs : Sound C s) : Sound C s' where
  drawers p hp := by
    have := hs.drawers p (h.drawnBy ▸ hp)
    rw [h.calls, List.length_append]
    omega
  unwritten n hn := by
    rw [h.files]
    exact hs.unwritten n (h.drawnBy ▸ hn)
  origin k hk := by
    rw [h.keys] at hk
    obtain ⟨pid, file, hcall, hid, ⟨id, hfid, hpath⟩, hfile⟩ := hs.origin k hk
    refine ⟨pid, file, ?_, h.owns.mpr hid, ⟨id, h.owns.mpr hfid, hpath⟩, ?_⟩
    · rw [h.calls, List.getElem?_append_left (List.getElem?_eq_some_iff.mp hcall).1]
      exact hcall
    · rw [h.files]
      exact hfile
  nodup := by
    rw [h.keys]
    exact hs.nodup
  logged log hlog := by
    rw [h.keys]
    exact hs.logged log (h.logs ▸ hlog)
  queued k hk := by
    rw [World.logsOf, h.logs]
    exact hs.queued k (h.keys ▸ hk)
  published j hj := by
    rw [h.keys]
    exact hs.published j ((h.published j).mp hj)

theorem rely (h : Arrives c s s') (pid : Nat) : Rely C pid s s' where
  drawn := ⟨[], by simp [h.drawnBy]⟩
  calls := ⟨[c], h.calls⟩
  keys := ⟨[], by simp [h.keys]⟩
  files _ _ := by rw [h.files]
  transactions := by rw [h.transactions]
  published j hj := (h.published j).mpr hj
  containers := .of_eq h.containers

end Arrives

/-! ### The outline is coherent -/

theorem Achieved.rely {pid : Nat} {c : Request} {x : Except JsError ((services C).Ret c)}
    {s s' : World} (h : Achieved C strict pid c x s) (hr : Rely C pid s s') :
    Achieved C strict pid c x s' := by
  cases c with
  | createExecutionJob userId file => exact fun hst => (h hst).rely hr
  | processJob jobId => exact h

/-- The number of a request that arrives is the next one of the record. -/
theorem calls_of_accept {σ : (services C).Sys} {c : Request} {s : World} (hl : Linked σ)
    (h : World.accept σ.procs.length c σ.shared = some s) :
    σ.shared.calls.length = σ.procs.length ∧ s.calls[σ.procs.length]? = some c := by
  have hlen : σ.shared.calls.length = σ.procs.length := by
    rw [hl]
    exact List.length_map _
  refine ⟨hlen, ?_⟩
  rw [(arrives h).calls, ← hlen, List.getElem?_concat_length]

/-- An upload that arrives is a Dart file, and nothing is there of it yet. -/
theorem creating_of_accept {σ : (services C).Sys} {userId : JsString} {file : UploadedFile}
    {s : World} (hl : Linked σ) (hi : Sound C σ.shared)
    (h : World.accept σ.procs.length (.createExecutionJob userId file) σ.shared = some s) :
    fileFilter file.originalname = true ∧ Creating C σ.procs.length userId file s := by
  obtain ⟨hlen, hcall⟩ := calls_of_accept hl h
  refine ⟨?_, hcall, fun k _ hown => ?_⟩
  · rw [World.accept] at h
    split at h
    · assumption
    · cases h
  · -- the number of the process is new, and no id was drawn under it
    obtain ⟨n, hn, -⟩ := (arrives h).owns.mp hown
    have := hi.drawers _ (List.mem_of_getElem? hn)
    omega

theorem taken_creation {pid : Nat} {userId : JsString} {file : UploadedFile} {s s' : World}
    (h : World.accept pid (.createExecutionJob userId file) s = some s') : s'.taken = s.taken := by
  rw [World.accept] at h
  split at h
  · exact Option.some.inj h ▸ rfl
  · cases h

theorem taken_process {pid : Nat} {jobId : JsString} {s s' : World}
    (h : World.accept pid (.processJob jobId) s = some s') :
    s'.taken = Function.update s.taken jobId (some pid) := by
  rw [World.accept] at h
  split at h
  · exact Option.some.inj h ▸ rfl
  · split at h
    · exact Option.some.inj h ▸ rfl
    · cases h

/-- A worker that takes an entry holds it. -/
theorem working_of_accept {σ : (services C).Sys} {jobId : JsString} {s : World} (hl : Linked σ)
    (h : World.accept σ.procs.length (.processJob jobId) σ.shared = some s) :
    Working σ.procs.length jobId s ∧ s.taken jobId = some σ.procs.length := by
  have htaken : s.taken jobId = some σ.procs.length := by
    rw [taken_process h, Function.update_self]
  refine ⟨⟨pid_lt_of_calls (calls_of_accept hl h).2, Or.inr ?_⟩, htaken⟩
  rw [htaken]
  rfl

/-- A request that has arrived meets its goal. -/
theorem goal_of_accept {σ : (services C).Sys} {c : Request} {s : World} (hl : Linked σ)
    (hi : Sound C σ.shared) (h : World.accept σ.procs.length c σ.shared = some s) :
    ((services C).body c).wp (host C) σ.procs.length ((outline C strict).ctx σ.procs.length c)
      ((outline C strict).goal σ.procs.length c) s s := by
  cases c with
  | createExecutionJob userId file =>
    obtain ⟨hext, hc⟩ := creating_of_accept hl hi h
    exact Outline.goal_of_triple (O := outline C strict) closed_context
      (proves_createExecutionJob hext) ((arrives h).sound hi) hc
  | processJob jobId =>
    have hp : Proves C strict σ.procs.length (.processJob jobId) _ _ _ _ := proves_processJob
    refine Outline.goal_of_triple (O := outline C strict) closed_context
      (hp.mono (fun _ h => h) ?_ ?_) ((arrives h).sound hi) (working_of_accept hl h).1
    · rintro a s - e ⟨⟩
    · rintro e s ⟨he, -⟩ e' ⟨⟩
      exact he

theorem Grows.of_rely {pid : Nat} {s s' : World} (h : Rely C pid s s') : Grows s s' :=
  ⟨h.drawn.imp fun _ h => h.1, h.calls, h.keys.imp fun _ h => h.1⟩

theorem Grows.trans {s s' s'' : World} (h : Grows s s') (h' : Grows s' s'') : Grows s s'' := by
  obtain ⟨⟨l, hl⟩, ⟨m, hm⟩, n, hn⟩ := h
  obtain ⟨⟨l', hl'⟩, ⟨m', hm'⟩, n', hn'⟩ := h'
  exact ⟨⟨l ++ l', by rw [hl', hl, List.append_assoc]⟩,
    ⟨m ++ m', by rw [hm', hm, List.append_assoc]⟩, n ++ n', by rw [hn', hn, List.append_assoc]⟩

/-- **The outline is coherent.** -/
theorem valid_outline : (outline C strict).Valid where
  rely_refl := Rely.refl
  rely_trans := Rely.trans
  cmdOk_of_ok := fun hok hp hst jobId he => by
    subst he
    exact hok.2 hst _ _ _ rfl (Service.pending_of_await hp)
  guar_inv hi hg := hg.sound hi
  guar_rely hne _ hg := hg.rely hne
  change_refl {s} := .of_rely (.refl : Rely C 0 s s)
  change_trans := .trans
  guar_change {pid _ _ _} _ hg := .of_rely (hg.rely (Nat.ne_of_lt (Nat.lt_succ_self pid)))
  guar_done hne _ hg hd := hd.rely (hg.rely hne)
  accept h hok ha :=
    have hr := fun pid => (arrives ha).rely (C := C) pid
    ⟨(arrives ha).sound h.1, .of_rely (hr 0),
      fun pid _ _ => ⟨fun _ => hr pid, fun _ hd => hd.rely (hr pid)⟩, goal_of_accept hok.1 h.1 ha⟩
  env h _ he :=
    have hr := fun pid : Nat => (quiet_env he).rely (C := C) pid
    ⟨(quiet_env he).same.sound h.1, .of_rely (hr 0),
      fun pid _ _ => ⟨fun _ => hr pid, fun _ hd => hd.rely (hr pid)⟩⟩

/-! ### Runs -/

theorem sound_initial : Sound C World.initial where
  drawers p hp := by cases hp
  unwritten _ _ := rfl
  origin k hk := by cases hk
  nodup := List.nodup_nil
  logged log hlog := by cases hlog
  queued k hk := by cases hk
  published jobId hj := by
    rcases hj with hj | hj
    · cases hj
    · cases hj

/-- The events of the outline are all events, but for the failures that `strict`
rules out. -/
theorem reaches_outline {σ σ' : (services C).Sys} (hl : Linked σ)
    (h : Service.Reaches (fun σ e => strict → AddsToQueue σ e) σ σ') :
    Linked σ' ∧ Service.Reaches (outline C strict).ok σ σ' :=
  h.strengthen (fun _ _ _ => linked_step) hl

theorem linked_start : Linked (start C) := rfl

theorem holds_of_reaches {σ : (services C).Sys}
    (h : Service.Reaches (fun σ e => strict → AddsToQueue σ e) (start C) σ) :
    Linked σ ∧ (outline C strict).Holds σ :=
  have hr := reaches_outline linked_start h
  ⟨hr.1, Outline.holds_of_reaches valid_outline (Outline.holds_of_inv sound_initial) hr.2⟩

/-- Any run is one in which nothing is ruled out. -/
theorem reaches_lax {σ σ' : (services C).Sys} (h : Service.Reaches Service.anyEvent σ σ') :
    Service.Reaches (fun σ e => False → AddsToQueue σ e) σ σ' :=
  h.mono fun _ _ _ hf => hf.elim

/-! ### Publish after commit -/

/-- A job whose row is committed, whose first entry is `QUEUED`, and whose file
holds all of the bytes that the call which drew its id was given. -/
structure Backed (C : Config) (s : World) (jobId : JsString) (row : ExecutionJob)
    (file : UploadedFile) : Prop where
  found : s.job? jobId = some row
  queued : ∃ log, (s.logsOf jobId).head? = some log ∧ log.status = .QUEUED
  upload : ∃ pid, s.Owns C pid jobId ∧ s.calls[pid]? = some (.createExecutionJob row.userId file)
  written : s.files (join C.basePath row.filePath) = some file.buffer

theorem backed_of_published {s : World} (hs : Sound C s) {jobId : JsString}
    (h : s.Published jobId) : ∃ row file, Backed C s jobId row file := by
  obtain ⟨row, hrow⟩ := job?_of_published hs h
  obtain ⟨hk, rfl⟩ := mem_keys_of_job? hrow
  obtain ⟨pid, file, hcall, hown, -, hfile⟩ := hs.origin _ hk
  exact ⟨row, file, hrow, hs.queued _ hk, ⟨pid, hown, hcall⟩, hfile⟩

/-- The file of a job stays the one that was uploaded for it. -/
theorem Backed.file_of_grows {s s' : World} {jobId : JsString} {row : ExecutionJob}
    {file : UploadedFile} (h : Backed C s jobId row file) (hs' : Sound C s') (hg : Grows s s') :
    s'.files (join C.basePath row.filePath) = some file.buffer := by
  obtain ⟨hk, rfl⟩ := mem_keys_of_job? h.found
  obtain ⟨⟨l, hl⟩, ⟨m, hm⟩, n, hn⟩ := hg
  obtain ⟨pid, hown, hcall⟩ := h.upload
  have hk' : row.key ∈ s'.keys := hn ▸ List.mem_append_left _ hk
  obtain ⟨pid', file', hcall', hown', -, hfile'⟩ := hs'.origin _ hk'
  obtain rfl := owner_unique (owns_mono hl hown) hown'
  have hlt := (List.getElem?_eq_some_iff.mp hcall).1
  rw [hm, List.getElem?_append_left hlt, hcall] at hcall'
  cases hcall'
  exact hfile'

/-- **Publish after commit.**  Whatever is in the queue, or was taken from it,
has its row, its first log entry and its whole file, and no later step changes
that file.  So a worker that looks up the row or checks the file finds it, and
its run never ends with one of the two errors. -/
theorem publish_after_commit {σ : (services C).Sys}
    (h : Service.Reaches Service.anyEvent (start C) σ) :
    (∀ jobId, σ.shared.Published jobId → ∃ row file, Backed C σ.shared jobId row file ∧
      ∀ σ', Service.Reaches Service.anyEvent σ σ' →
        σ'.shared.files (join C.basePath row.filePath) = some file.buffer) ∧
    (∀ (pid : Nat) (jobId id : JsString) k, σ.procs[pid]? = some ⟨.processJob jobId, .await (.findJob id) k, true⟩ →
      ∃ row, σ.shared.job? id = some row) ∧
    (∀ (pid : Nat) (jobId path : JsString) k, σ.procs[pid]? = some ⟨.processJob jobId, .await (.access path) k, true⟩ →
      ∃ bytes, σ.shared.files path = some bytes) ∧
    ∀ (pid : Nat) (jobId : JsString) (e : JsError) alive, σ.procs[pid]? = some ⟨.processJob jobId, .fail e, alive⟩ → e.Ordinary := by
  obtain ⟨hl, hh⟩ := holds_of_reaches (reaches_lax h)
  refine ⟨fun jobId hj => ?_, fun pid jobId id k hp => ?_, fun pid jobId path k hp => ?_,
    fun pid jobId e alive hp => ?_⟩
  · obtain ⟨row, file, hb⟩ := backed_of_published hh.1 hj
    refine ⟨row, file, hb, fun σ' hr => ?_⟩
    have hr' := (reaches_outline hl (reaches_lax hr)).2
    have hh' := Outline.holds_of_reaches valid_outline hh hr'
    exact hb.file_of_grows hh'.1 (Outline.change_of_reaches valid_outline hh hr')
  · exact hh.need valid_outline hp
  · exact hh.need valid_outline hp
  · exact hh.done_of_fail hp e rfl

/-- One upload, and nothing fails. -/
def firstUpload : List (services Config.plain).Event :=
  .call (.createExecutionJob (js "ann") ⟨js "main.dart", [118]⟩) ::
    List.replicate 8 (.resume 0 .done)

theorem publish_after_commit_first_upload :
    ∃ σ : (services Config.plain).Sys, Service.run (start Config.plain) firstUpload = some σ ∧
      ∃ row file, Backed Config.plain σ.shared (js "1") row file := by
  have hwaiting : (Service.run (start Config.plain) firstUpload).map
      (fun σ => decide (js "1" ∈ σ.shared.waiting)) = some true := by decide +kernel
  obtain ⟨σ, hσ, hj⟩ := Option.map_eq_some_iff.mp hwaiting
  obtain ⟨row, file, hb, -⟩ :=
    (publish_after_commit (Service.reaches_of_run hσ fun _ _ _ => trivial)).1 (js "1")
      (Or.inl (of_decide_eq_true hj))
  exact ⟨σ, hσ, row, file, hb⟩

end FullstackSvc.Execution
