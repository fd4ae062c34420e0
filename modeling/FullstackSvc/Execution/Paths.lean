import FullstackSvc.Async.Trace
import FullstackSvc.Execution.Reachable

/-!
# The paths of code files

`createExecutionJob` makes the name of a file of a fresh id and the extension of
the upload, and puts it into the row.  `processJob` reads it from the row, on
another machine, and builds two paths of it.

* `traced_of_reaches`: the ids in a trace are drawn ids, and the rows in it are
  committed rows.
* `asks_createExecutionJob`, `asks_processJob`: the paths in the two programs.
* `names_code_file`: **whatever a process is about to open is a code file**.
-/

namespace FullstackSvc.Execution

open Text Async

variable {C : Config} {s s' : World} {pid : Nat} {userId jobId : JsString} {file : UploadedFile}

/-! ### What is known of a trace -/

/-- An id that was drawn is one of the source, and a row that was found is one of the table. -/
def Recorded (C : Config) (_pid : Nat) (h : Happening sig JsError) (s : World) : Prop :=
  match h with
  | .op .ulid id => ∃ n, C.ulid.text n = id
  | .op .now _ => True
  | .call (.findJob _) (.ok (some row)) => row.key ∈ s.keys
  | .call _ _ => True

theorem recorded_mono {h : Happening sig JsError} (hr : Recorded C pid h s)
    (hk : ∃ l, s'.keys = s.keys ++ l) : Recorded C pid h s' := by
  obtain ⟨l, hl⟩ := hk
  unfold Recorded at hr ⊢
  split at hr
  · exact hr
  · trivial
  · rw [hl]
    exact List.mem_append_left _ hr
  · trivial

theorem keys_of_job? {row : ExecutionJob} (h : s.job? jobId = some row) : row.key ∈ s.keys :=
  List.mem_map.mpr ⟨row, List.mem_of_find?_eq_some h, rfl⟩

theorem keys_compute (pid : Nat) (o : Op) (s : World) : (compute C pid o s).2.keys = s.keys := by
  cases o <;> rfl

theorem witnessed_recorded : Witnessed (host C) (Recorded C) where
  call {pid c r s x s'} h := by
    cases c with
    | findJob jobId =>
      cases x with
      | error e => trivial
      | ok found =>
        cases found with
        | none => trivial
        | some row =>
          rcases perform_cases h with ⟨-, hd⟩ | ⟨-, e, he, -⟩ | ⟨_, _, _, _, hc, -⟩
          · obtain ⟨hfound, rfl⟩ := Prod.mk.inj (Option.some.inj hd)
            exact keys_of_job? (Except.ok.inj hfound)
          · cases he
          · cases hc
    | _ => trivial
  op {pid o s} := by
    cases o with
    | ulid => exact ⟨s.drawnBy.length, rfl⟩
    | now => trivial
  compute {pid pid' h o s} hr :=
    recorded_mono hr ⟨[], (keys_compute pid' o s).trans (List.append_nil _).symm⟩

/-- Every process has a trace of which this is known. -/
theorem traced_of_reaches {σ : (services C).Sys}
    (h : Service.Reaches Service.anyEvent (start C) σ) : Traced (Recorded C) σ := by
  induction h with
  | refl =>
    intro pid p hp
    cases hp
  | tail hr hstep ih =>
    obtain ⟨hl, hh⟩ := holds_of_reaches (reaches_lax hr)
    have hone := (reaches_outline hl (reaches_lax (.single hstep))).2
    obtain ⟨e, -, hs⟩ := hstep
    have hgrows := Outline.change_of_reaches valid_outline hh hone
    exact traced_step witnessed_recorded ih hs fun pid h hq => recorded_mono hq hgrows.keys

/-! ### The paths in the programs -/

/-- The path is that of a code file, where the services see it. -/
def IsCodeFile (C : Config) (path : JsString) : Prop :=
  ∃ n, path = join C.basePath (codeFile (C.ulid.text n))

/-- The path is that of a code file, where a container sees it. -/
def IsMountedCodeFile (C : Config) (path : JsString) : Prop :=
  ∃ n, path = js "/code-files/" ++ codeFile (C.ulid.text n)

/-- Every file that a call names is a code file. -/
def NamesCodeFile (C : Config) : Cmd → Prop
  | .openFile path => IsCodeFile C path
  | .writeBytes path _ => IsCodeFile C path
  | .access path => IsCodeFile C path
  | .createContainer path => IsMountedCodeFile C path
  | _ => True

theorem names_createStatusLog (jobId : JsString) (status : ExecutionJobStatus) :
    (createStatusLog jobId status).Makes (A := sig) (NamesCodeFile C) :=
  Prog.makes_bind (Prog.makes_op _) fun _ => Prog.makes_bind (Prog.makes_op _) fun _ =>
    Prog.makes_call trivial

theorem names_updateResult (jobId : JsString) (output error : Option JsString) (exitCode : Int) :
    (updateResult jobId output error exitCode).Makes (A := sig) (NamesCodeFile C) :=
  Prog.makes_bind (Prog.makes_op _) fun _ => Prog.makes_call trivial

theorem names_saveResult (jobId output : JsString) (exitCode : Int) :
    (saveResult jobId output exitCode).Makes (A := sig) (NamesCodeFile C) := by
  rw [saveResult]
  split
  · exact Prog.makes_bind (names_updateResult _ _ _ _) fun _ => names_createStatusLog _ _
  · exact Prog.makes_bind (names_updateResult _ _ _ _) fun _ => names_createStatusLog _ _

theorem names_raceWithTimeout (jobId : JsString) (n : Nat) :
    (raceWithTimeout jobId n).Makes (A := sig) (NamesCodeFile C) := by
  refine Prog.makes_handle (Prog.makes_call trivial) fun e => ?_
  refine Prog.makes_bind (Prog.makes_handle (Prog.makes_call trivial) fun _ => trivial) fun _ => ?_
  refine Prog.makes_bind (Prog.makes_handle (Prog.makes_call trivial) fun _ => trivial) fun _ => ?_
  refine Prog.makes_bind (names_updateResult _ _ _ _) fun _ => ?_
  exact Prog.makes_bind (names_createStatusLog _ _) fun _ => trivial

theorem names_runContainer (jobId : JsString) {row : ExecutionJob}
    (h : IsMountedCodeFile C (js "/code-files/" ++ row.filePath)) :
    (runContainer jobId row).Makes (A := sig) (NamesCodeFile C) := by
  refine Prog.makes_bind (Prog.makes_call h) fun n => ?_
  refine Prog.makes_bind (Prog.makes_call trivial) fun _ => ?_
  refine Prog.makes_bind (names_raceWithTimeout _ _) fun _ => ?_
  refine Prog.makes_bind (Prog.makes_call trivial) fun _ => ?_
  exact Prog.makes_bind (Prog.makes_call trivial) fun _ => names_saveResult _ _ _

theorem names_transaction {α : Type} {body : Program α}
    (h : body.Makes (A := sig) (NamesCodeFile C)) :
    (transaction body).Makes (A := sig) (NamesCodeFile C) := by
  refine Prog.makes_handle (Prog.makes_bind (Prog.makes_call trivial) fun _ =>
    Prog.makes_bind h fun _ => Prog.makes_bind (Prog.makes_call trivial) fun _ => trivial)
    fun err => ?_
  exact Prog.makes_bind (Prog.makes_handle (Prog.makes_call trivial) fun _ => trivial)
    fun _ => trivial

theorem names_insertNewJob (userId name : JsString) :
    (insertNewJob userId name).Makes (A := sig) (NamesCodeFile C) := by
  refine Prog.makes_bind (Prog.makes_op _) fun _ => Prog.makes_bind (Prog.makes_op _) fun _ => ?_
  refine Prog.makes_bind (Prog.makes_call trivial) fun _ => ?_
  exact Prog.makes_bind (Prog.makes_op _) fun _ =>
    Prog.makes_bind (Prog.makes_call trivial) fun _ => trivial

/-- **An upload** that has passed the filter writes to a code file. -/
theorem asks_createExecutionJob (hext : fileFilter file.originalname = true) (s : World) :
    (createExecutionJob C userId file).Asks (fun h => Recorded C pid h s) (NamesCodeFile C) := by
  have hdart : fileExtension file.originalname = js ".dart" := of_decide_eq_true hext
  refine Prog.asks_op_bind fun id hid => Prog.asks_of_makes ?_
  obtain ⟨n, rfl⟩ := hid
  have hfile : IsCodeFile C
      (join C.basePath (C.ulid.text n ++ fileExtension file.originalname)) := by
    rw [hdart]
    exact ⟨n, rfl⟩
  refine Prog.makes_bind (Prog.makes_call trivial) fun _ => ?_
  refine Prog.makes_bind (Prog.makes_bind (Prog.makes_call hfile) fun _ => Prog.makes_call hfile)
    fun _ => ?_
  refine Prog.makes_bind (names_transaction (names_insertNewJob _ _)) fun _ => ?_
  exact Prog.makes_bind (Prog.makes_call trivial) fun _ => trivial

/-- The name in a row is that of a code file. -/
theorem filePath_of_key (hs : Sound C s) {k : JobKey} (hk : k ∈ s.keys) :
    ∃ n, k.filePath = codeFile (C.ulid.text n) := by
  obtain ⟨p, file, -, -, ⟨id, ⟨n, -, rfl⟩, hpath⟩, -⟩ := hs.origin k hk
  exact ⟨n, hpath⟩

/-- **The worker** looks for a code file and mounts one. -/
theorem asks_processJob (hs : Sound C s) :
    (processJob C jobId).Asks (fun h => Recorded C pid h s) (NamesCodeFile C) := by
  refine Prog.asks_handle (Prog.asks_call_bind trivial fun found hfound => ?_) fun error => ?_
  · cases found with
    | none => trivial
    | some row =>
      obtain ⟨n, hpath⟩ := filePath_of_key hs hfound
      have hrow : row.filePath = codeFile (C.ulid.text n) := hpath
      refine Prog.asks_of_makes ?_
      refine Prog.makes_bind (names_createStatusLog _ _) fun _ => ?_
      refine Prog.makes_bind (Prog.makes_call ⟨n, by rw [hrow]⟩) fun _ => ?_
      refine Prog.makes_bind (names_createStatusLog _ _) fun _ => ?_
      exact names_runContainer jobId ⟨n, by rw [hrow]⟩
  · refine Prog.asks_of_makes (Prog.makes_bind (names_updateResult _ _ _ _) fun _ => ?_)
    exact Prog.makes_bind (names_createStatusLog _ _) fun _ => trivial

/-! ### The paths in a run -/

/-- Every request that has come in has passed the filter. -/
def Filtered (σ : (services C).Sys) : Prop :=
  ∀ userId file, Request.createExecutionJob userId file ∈ σ.procs.map Service.Proc.call →
    fileFilter file.originalname = true

theorem filtered_step {σ σ' : (services C).Sys} {e : (services C).Event} (h : Filtered σ)
    (hs : Service.step σ e = some σ') : Filtered σ' := by
  intro userId file hm
  cases e with
  | call c =>
    obtain ⟨s, ha, rfl⟩ := Service.step_call hs
    rw [← Service.map_call_launch, List.mem_append, List.mem_singleton] at hm
    rcases hm with hm | rfl
    · exact h userId file hm
    · have ha' : World.accept σ.procs.length (.createExecutionJob userId file) σ.shared = some s := ha
      rw [World.accept] at ha'
      split at ha'
      · assumption
      · cases ha'
  | resume pid r =>
    obtain ⟨c, d, k, x, s, hget, -, rfl⟩ := Service.step_resume hs
    have hsame := Service.map_call_set (q := ⟨c, ((k x).settle (host C) pid s).1, true⟩) hget rfl
    exact h userId file (hsame.symm ▸ hm)
  | env e =>
    obtain ⟨s, -, rfl⟩ := Service.step_env hs
    exact h userId file hm
  | kill pid =>
    obtain ⟨p, hget, -, rfl⟩ := Service.step_kill hs
    have hsame := Service.map_call_set (q := { p with alive := false }) hget rfl
    exact h userId file (hsame.symm ▸ hm)

theorem filtered_of_reaches {σ : (services C).Sys}
    (h : Service.Reaches Service.anyEvent (start C) σ) : Filtered σ := by
  induction h with
  | refl =>
    intro userId file hm
    cases hm
  | tail _ hstep ih =>
    obtain ⟨e, -, hs⟩ := hstep
    exact filtered_step ih hs

/-- **Whatever a process is about to open is a code file.** -/
theorem names_code_file {σ : (services C).Sys}
    (h : Service.Reaches Service.anyEvent (start C) σ) {pid : Nat} {c : Cmd}
    (hp : σ.pending pid = some c) : NamesCodeFile C c := by
  obtain ⟨call, k, hk⟩ := Service.await_of_pending hp
  have hcall : (σ.procs[pid]?).map Service.Proc.call = some call := by rw [hk]; rfl
  refine Traced.pending (traced_of_reaches h) hcall ?_ hp
  cases call with
  | createExecutionJob userId file =>
    refine asks_createExecutionJob (filtered_of_reaches h userId file ?_) σ.shared
    exact List.mem_map.mpr ⟨_, List.mem_of_getElem? hk, rfl⟩
  | processJob jobId => exact asks_processJob (holds_of_reaches (reaches_lax h)).2.1

end FullstackSvc.Execution
