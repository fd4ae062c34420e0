import FullstackSvc.Async.Triple
import FullstackSvc.Execution.Calls

/-!
# The proof outline of `processJob`

`Stages` names what holds at the points of `processJob`, for any context of the
run: from the start, over the row that is found, the container and its exit, to
the two handlers.  `Stages.Valid` has one condition for each call or each small
program between two of these points, and `triple_processJob` puts them together
along the text.

What is proved of a run of the worker is proved by naming the stages.
-/

namespace FullstackSvc.Execution

open Text Async

variable {C : Config} {pid : Nat} {L : Ctx sig World Reply}

/-- Drawing an id is within the guarantee and leaves `K` as it is. -/
def Draws (pid : Nat) (L : Ctx sig World Reply) (K : World → Prop) : Prop :=
  ∀ s, L.inv s → K s → L.guar s { s with drawnBy := s.drawnBy ++ [pid] } ∧
    K { s with drawnBy := s.drawnBy ++ [pid] }

theorem triple_ulid {K : World → Prop} {err : JsError → World → Prop} (hL : L.Closed)
    (hd : Draws pid L K) : Prog.Triple (host C) pid L K ulid (fun _ => K) err :=
  Prog.Triple.op hL hd

theorem triple_newDate {K : World → Prop} {err : JsError → World → Prop} (hL : L.Closed) :
    Prog.Triple (host C) pid L K newDate (fun _ => K) err :=
  Prog.Triple.op hL fun s _ hs => ⟨hL.refl s, hs⟩

theorem triple_createStatusLog {K : World → Prop} {ok : Unit → World → Prop}
    {err : JsError → World → Prop} {jobId : JsString} {status : ExecutionJobStatus}
    (hL : L.Closed) (hd : Draws pid L K)
    (h : ∀ id createdAt, Prog.Triple (host C) pid L K
      (await (.saveStatusLog ⟨id, jobId, status, createdAt⟩)) ok err) :
    Prog.Triple (host C) pid L K (createStatusLog jobId status) ok err :=
  .bind _ (triple_ulid hL hd) fun id => .bind _ (triple_newDate hL) fun createdAt =>
    h id createdAt

theorem triple_updateResult {K : World → Prop} {ok : Unit → World → Prop}
    {err : JsError → World → Prop} {jobId : JsString} {output error : Option JsString}
    {exitCode : Int} (hL : L.Closed)
    (h : ∀ completedAt, Prog.Triple (host C) pid L K
      (await (.updateJob jobId ⟨output, error, exitCode, completedAt⟩)) ok err) :
    Prog.Triple (host C) pid L K (updateResult jobId output error exitCode) ok err :=
  .bind _ (triple_newDate hL) h

/-- What holds at the points of `processJob`. -/
structure Stages where
  begun : World → Prop
  found : ExecutionJob → World → Prop
  created : ExecutionJob → Nat → World → Prop
  exited : ExecutionJob → Nat → Int → World → Prop
  collected : ExecutionJob → Int → Bytes → World → Prop
  /-- The race is lost, with this error. -/
  late : JsError → World → Prop
  lateSaved : JsError → World → Prop
  /-- The row has the output, or the error, of the container. -/
  succeeded : World → Prop
  errored : World → Prop
  finished : World → Prop
  /-- The outer handler has this error. -/
  caught : JsError → World → Prop
  caughtSaved : JsError → World → Prop
  failed : JsError → World → Prop

/-- What the looked up row has to be. -/
def Stages.lookedUp (S : Stages) (jobId : JsString) : Option ExecutionJob → World → Prop
  | none => S.caught (.jobNotFound jobId)
  | some row => S.found row

/-- Each step leads from one stage to the next. -/
structure Stages.Valid (C : Config) (pid : Nat) (L : Ctx sig World Reply) (jobId : JsString)
    (S : Stages) : Prop where
  find : Prog.Triple (host C) pid L S.begun (await (.findJob jobId)) (S.lookedUp jobId) S.caught
  ready : ∀ row, Prog.Triple (host C) pid L (S.found row) (createStatusLog jobId .READY)
    (fun _ => S.found row) S.caught
  access : ∀ row, Prog.Triple (host C) pid L (S.found row)
    (await (.access (join C.basePath row.filePath))) (fun _ => S.found row) S.caught
  run : ∀ row, Prog.Triple (host C) pid L (S.found row) (createStatusLog jobId .RUNNING)
    (fun _ => S.found row) S.caught
  create : ∀ row, Prog.Triple (host C) pid L (S.found row)
    (await (.createContainer (js "/code-files/" ++ row.filePath))) (S.created row) S.caught
  start : ∀ row n, Prog.Triple (host C) pid L (S.created row n) (await (.startContainer n))
    (fun _ => S.created row n) S.caught
  wait : ∀ row n, Prog.Triple (host C) pid L (S.created row n) (await (.waitOrTimeout n))
    (S.exited row n) S.late
  kill : ∀ n e, Prog.Triple (host C) pid L (S.late e) (await (.killContainer n))
    (fun _ => S.late e) fun _ => S.late e
  removeLate : ∀ n e, Prog.Triple (host C) pid L (S.late e) (await (.removeContainer n))
    (fun _ => S.late e) fun _ => S.late e
  saveLate : ∀ e, Prog.Triple (host C) pid L (S.late e)
    (updateResult jobId none (some (js "Execution timeout (30s)")) (-1))
    (fun _ => S.lateSaved e) S.caught
  logLate : ∀ e, Prog.Triple (host C) pid L (S.lateSaved e)
    (createStatusLog jobId .FINISHED_WITH_ERROR) (fun _ => S.caught e) S.caught
  logs : ∀ row n code, Prog.Triple (host C) pid L (S.exited row n code)
    (await (.containerLogs n)) (S.collected row code) S.caught
  remove : ∀ row n code logs, Prog.Triple (host C) pid L (S.collected row code logs)
    (await (.removeContainer n)) (fun _ => S.collected row code logs) S.caught
  saveOutput : ∀ row logs, Prog.Triple (host C) pid L (S.collected row 0 logs)
    (updateResult jobId (some (utf8Decode logs)) none 0) (fun _ => S.succeeded) S.caught
  logSuccess : Prog.Triple (host C) pid L S.succeeded
    (createStatusLog jobId .FINISHED_WITH_SUCCESS) (fun _ => S.finished) S.caught
  saveError : ∀ row code logs, code ≠ 0 → Prog.Triple (host C) pid L (S.collected row code logs)
    (updateResult jobId none (some (utf8Decode logs)) code) (fun _ => S.errored) S.caught
  logError : Prog.Triple (host C) pid L S.errored
    (createStatusLog jobId .FINISHED_WITH_ERROR) (fun _ => S.finished) S.caught
  saveCaught : ∀ e, Prog.Triple (host C) pid L (S.caught e)
    (updateResult jobId none (some (errorText e)) (-1)) (fun _ => S.caughtSaved e) S.failed
  logCaught : ∀ e, Prog.Triple (host C) pid L (S.caughtSaved e) (createStatusLog jobId .FAILED)
    (fun _ => S.failed e) S.failed

variable {jobId : JsString} {S : Stages}

/-- The race and its handler, which always throws on. -/
theorem triple_raceWithTimeout (V : S.Valid C pid L jobId) (row : ExecutionJob) (n : Nat) :
    Prog.Triple (host C) pid L (S.created row n) (raceWithTimeout jobId n) (S.exited row n)
      S.caught := by
  refine .handle S.late (V.wait row n) fun e => ?_
  have hkill : Prog.Triple (host C) pid L (S.late e)
      ((await (.killContainer n)).handle fun _ => .ret ()) (fun _ => S.late e) S.caught :=
    .handle (fun _ => S.late e) (V.kill n e) fun _ => .ret fun _ h => h
  have hremove : Prog.Triple (host C) pid L (S.late e)
      ((await (.removeContainer n)).handle fun _ => .ret ()) (fun _ => S.late e) S.caught :=
    .handle (fun _ => S.late e) (V.removeLate n e) fun _ => .ret fun _ h => h
  refine .bind _ hkill fun _ => .bind _ hremove fun _ => .bind _ (V.saveLate e) fun _ => ?_
  exact .bind _ (V.logLate e) fun _ => .fail fun _ h => h

theorem triple_saveResult (V : S.Valid C pid L jobId) (row : ExecutionJob) (code : Int)
    (logs : Bytes) : Prog.Triple (host C) pid L (S.collected row code logs)
      (saveResult jobId (utf8Decode logs) code) (fun _ => S.finished) S.caught := by
  rw [saveResult]
  split
  · rename_i hcode
    subst hcode
    exact .bind _ (V.saveOutput row logs) fun _ => V.logSuccess
  · rename_i hcode
    exact .bind _ (V.saveError row code logs hcode) fun _ => V.logError

theorem triple_runContainer (V : S.Valid C pid L jobId) (row : ExecutionJob) :
    Prog.Triple (host C) pid L (S.found row) (runContainer jobId row) (fun _ => S.finished)
      S.caught := by
  refine .bind _ (V.create row) fun n => .bind _ (V.start row n) fun _ => ?_
  refine .bind _ (triple_raceWithTimeout V row n) fun code => ?_
  refine .bind _ (V.logs row n code) fun logs => .bind _ (V.remove row n code logs) fun _ => ?_
  exact triple_saveResult V row code logs

theorem triple_executeJob (V : S.Valid C pid L jobId) :
    Prog.Triple (host C) pid L S.begun (executeJob C jobId) (fun _ => S.finished) S.caught := by
  refine .bind _ V.find fun found => ?_
  cases found with
  | none => exact .fail fun _ h => h
  | some row =>
    refine .bind _ (V.ready row) fun _ => .bind _ (V.access row) fun _ => ?_
    exact .bind _ (V.run row) fun _ => triple_runContainer V row

/-- **A run of the worker goes through the stages.** -/
theorem triple_processJob (V : S.Valid C pid L jobId) :
    Prog.Triple (host C) pid L S.begun (processJob C jobId) (fun _ => S.finished) S.failed := by
  refine .handle S.caught (triple_executeJob V) fun e => ?_
  exact .bind _ (V.saveCaught e) fun _ => .bind _ (V.logCaught e) fun _ => .fail fun _ h => h

end FullstackSvc.Execution
