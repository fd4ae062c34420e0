import Mathlib.Logic.Function.Basic
import FullstackSvc.Async.Pool
import FullstackSvc.Text.Path
import FullstackSvc.Text.Ulid

/-!
# What the execution of code works on

The tables `ExecutionJob` and `ExecutionJobStatusLog`, the volume of code files,
the queue and the Docker containers, as one state `World`, with the calls that
`ExecutionService` and `ExecutionProcessor` make on it.

Every awaited call may fail (`Reply.fails`), and then has done nothing; only a
file that is being written may be left with a part of its bytes.  A statement
outside a transaction is atomic, and a transaction is invisible until its
commit.  The only waits that the world decides are when a container exits and
whether the timer is faster.

`World.calls` and `World.drawnBy` record which requests have come in and which
process drew which id; no program reads them.
-/

namespace FullstackSvc.Execution

open Text Async

/-! ### Rows -/

inductive ExecutionJobStatus
  | QUEUED
  | READY
  | RUNNING
  | FINISHED_WITH_SUCCESS
  | FINISHED_WITH_ERROR
  | FAILED
  deriving DecidableEq

structure ExecutionJob where
  id : JsString
  userId : JsString
  filePath : JsString
  createdAt : Nat
  output : Option JsString
  error : Option JsString
  exitCode : Option Int
  completedAt : Option Nat
  deriving DecidableEq

structure ExecutionJobStatusLog where
  id : JsString
  jobId : JsString
  status : ExecutionJobStatus
  createdAt : Nat
  deriving DecidableEq

/-- The columns that an `update` sets. -/
structure JobUpdate where
  output : Option JsString
  error : Option JsString
  exitCode : Int
  completedAt : Nat
  deriving DecidableEq

/-- A column of type `TEXT` in strict mode. -/
def FitsText (value : Option JsString) : Prop :=
  (value.map fun s => (utf8Encode s).length).getD 0 ≤ 65535

instance (value : Option JsString) : Decidable (FitsText value) :=
  inferInstanceAs (Decidable (_ ≤ _))

def ExecutionJob.update (row : ExecutionJob) (changes : JobUpdate) : ExecutionJob :=
  { row with
    output := changes.output <|> row.output
    error := changes.error <|> row.error
    exitCode := some changes.exitCode
    completedAt := some changes.completedAt }

/-! ### Containers -/

/-- A frame of the log of a container without a terminal. -/
structure LogFrame where
  stderr : Bool
  payload : Bytes
  deriving DecidableEq

/-- Eight bytes of header and the payload. -/
def LogFrame.bytes (f : LogFrame) : Bytes :=
  [if f.stderr then 2 else 1, 0, 0, 0, UInt8.ofNat (f.payload.length / 16777216),
    UInt8.ofNat (f.payload.length / 65536), UInt8.ofNat (f.payload.length / 256),
    UInt8.ofNat f.payload.length] ++ f.payload

/-- A container that runs one file; its record stays when it is removed. -/
structure Container where
  file : JsString
  started : Bool
  exited : Option Int
  log : List LogFrame
  removed : Bool
  deriving DecidableEq

/-- What the logs endpoint answers. -/
def Container.logs (c : Container) : Bytes := (c.log.map LogFrame.bytes).flatten

/-! ### Errors -/

inductive JsError
  | failure (name message : JsString)
  | jobNotFound (jobId : JsString)
  | noEntry (path : JsString)
  | timeout
  deriving DecidableEq

def JsError.message : JsError → JsString
  | .failure _ message => message
  | .jobNotFound jobId => js "Execution job " ++ jobId ++ js " not found"
  | .noEntry path => js "ENOENT: no such file or directory, access '" ++ path ++ js "'"
  | .timeout => js "Execution timeout (30s)"

/-- `String(error)`. -/
def JsError.toString : JsError → JsString
  | .failure name message => if message = [] then name else name ++ js ": " ++ message
  | e => js "Error: " ++ e.message

/-! ### The state -/

/-- A file as multer hands it over. -/
structure UploadedFile where
  originalname : JsString
  buffer : Bytes
  deriving DecidableEq

inductive Request
  | createExecutionJob (userId : JsString) (file : UploadedFile)
  | processJob (jobId : JsString)
  deriving DecidableEq

/-- The rows of an open transaction. -/
structure Transaction where
  jobs : List ExecutionJob
  logs : List ExecutionJobStatusLog

structure World where
  now : Nat
  drawnBy : List Nat
  calls : List Request
  directories : JsString → Bool
  files : JsString → Option Bytes
  jobs : List ExecutionJob
  logs : List ExecutionJobStatusLog
  transactions : Nat → Transaction
  waiting : List JsString
  /-- Who took the entry of a job last. -/
  taken : JsString → Option Nat
  containers : List Container

/-- Nothing has happened yet. -/
def World.initial : World where
  now := 0
  drawnBy := []
  calls := []
  directories := fun _ => false
  files := fun _ => none
  jobs := []
  logs := []
  transactions := fun _ => ⟨[], []⟩
  waiting := []
  taken := fun _ => none
  containers := []

/-- The environment of the two services. -/
structure Config where
  ulid : UlidSource
  /-- `process.env.CODE_FILES_PATH`. -/
  codeFilesPath : Option JsString

/-- `process.env.CODE_FILES_PATH || '/code-files'`. -/
def Config.basePath (C : Config) : JsString :=
  match C.codeFilesPath with
  | none => js "/code-files"
  | some path => if path = [] then js "/code-files" else path

theorem Config.basePath_ne_nil (C : Config) : C.basePath ≠ [] := by
  rw [basePath]
  split
  · decide
  · split
    · decide
    · assumption

/-- The default path and numerals for ids, for runs on concrete inputs. -/
def Config.plain : Config := ⟨decimalUlids, none⟩

/-! ### Calls -/

inductive Cmd
  | mkdir (path : JsString)
  | openFile (path : JsString)
  | writeBytes (path : JsString) (bytes : Bytes)
  | startTransaction
  | insertJob (row : ExecutionJob)
  | insertStatusLog (row : ExecutionJobStatusLog)
  | commitTransaction
  | rollbackTransaction
  | addToQueue (jobId : JsString)
  | findJob (jobId : JsString)
  | saveStatusLog (row : ExecutionJobStatusLog)
  | updateJob (jobId : JsString) (changes : JobUpdate)
  | access (path : JsString)
  | createContainer (containerFilePath : JsString)
  | startContainer (container : Nat)
  | waitOrTimeout (container : Nat)
  | killContainer (container : Nat)
  | removeContainer (container : Nat)
  | containerLogs (container : Nat)

inductive Op
  | ulid
  | now

/-- The calls and what they answer. -/
@[reducible] def sig : Sig where
  Cmd := Cmd
  Res
    | .findJob _ => Option ExecutionJob
    | .createContainer _ => Nat
    | .waitOrTimeout _ => Int
    | .containerLogs _ => Bytes
    | _ => Unit
  Op := Op
  Val
    | .ulid => JsString
    | .now => Nat

/-- What becomes of an awaited call. -/
inductive Reply
  | done
  | fails (name message : JsString)
  | failsAfter (bytes : Nat) (name message : JsString)
  | timeout
  deriving DecidableEq

abbrev Answer (c : Cmd) := Except JsError (sig.Res c) × World

def duplicateEntry : JsError := .failure (js "QueryFailedError") (js "Duplicate entry")

def foreignKeyFails : JsError :=
  .failure (js "QueryFailedError") (js "Cannot add or update a child row")

def dataTooLong : JsError := .failure (js "QueryFailedError") (js "Data too long for column")

def noContainer : JsError := .failure (js "Error") (js "No such container")

def World.job? (s : World) (jobId : JsString) : Option ExecutionJob :=
  s.jobs.find? fun row => row.id = jobId

/-- Add a row to the open transaction of a process. -/
def World.insertPending (s : World) (pid : Nat) (jobs : List ExecutionJob)
    (logs : List ExecutionJobStatusLog) : World :=
  { s with transactions := (Function.update s.transactions pid
      ⟨(s.transactions pid).jobs ++ jobs, (s.transactions pid).logs ++ logs⟩) }

def World.modifyContainer (s : World) (container : Nat) (f : Container → Container) : World :=
  { s with containers := s.containers.modify container f }

/-- A call that succeeds, as far as the state lets it. -/
def performDone (pid : Nat) : (c : Cmd) → World → Option (Answer c)
  | .mkdir path, s => some (.ok (), { s with directories := Function.update s.directories path true })
  | .openFile path, s => some (.ok (), { s with files := Function.update s.files path (some []) })
  | .writeBytes path bytes, s =>
    some (.ok (), { s with files := Function.update s.files path (some bytes) })
  | .startTransaction, s =>
    some (.ok (), { s with transactions := Function.update s.transactions pid ⟨[], []⟩ })
  | .insertJob row, s =>
    if row.id ∈ (s.jobs ++ (s.transactions pid).jobs).map ExecutionJob.id then
      some (.error duplicateEntry, s)
    else some (.ok (), s.insertPending pid [row] [])
  | .insertStatusLog row, s =>
    if row.jobId ∈ (s.jobs ++ (s.transactions pid).jobs).map ExecutionJob.id then
      some (.ok (), s.insertPending pid [] [row])
    else some (.error foreignKeyFails, s)
  | .commitTransaction, s =>
    some (.ok (), { s with
      jobs := s.jobs ++ (s.transactions pid).jobs
      logs := s.logs ++ (s.transactions pid).logs
      transactions := Function.update s.transactions pid ⟨[], []⟩ })
  | .rollbackTransaction, s =>
    some (.ok (), { s with transactions := Function.update s.transactions pid ⟨[], []⟩ })
  | .addToQueue jobId, s => some (.ok (), { s with waiting := s.waiting ++ [jobId] })
  | .findJob jobId, s => some (.ok (s.job? jobId), s)
  | .saveStatusLog row, s =>
    if row.jobId ∈ s.jobs.map ExecutionJob.id then
      some (.ok (), { s with logs := s.logs ++ [row] })
    else some (.error foreignKeyFails, s)
  | .updateJob jobId changes, s =>
    if FitsText changes.output ∧ FitsText changes.error then
      some (.ok (), { s with
        jobs := s.jobs.map fun row => if row.id = jobId then row.update changes else row })
    else some (.error dataTooLong, s)
  | .access path, s =>
    match s.files path with
    | some _ => some (.ok (), s)
    | none => some (.error (.noEntry path), s)
  | .createContainer file, s =>
    some (.ok s.containers.length,
      { s with containers := s.containers ++ [⟨file, false, none, [], false⟩] })
  | .startContainer n, s =>
    some (.ok (), s.modifyContainer n fun c => { c with started := true })
  | .waitOrTimeout n, s =>
    match s.containers[n]? with
    | none => some (.error noContainer, s)
    | some c => c.exited.map fun code => (.ok code, s)
  | .killContainer n, s =>
    some (.ok (), s.modifyContainer n fun c => { c with exited := c.exited <|> some 137 })
  | .removeContainer n, s =>
    some (.ok (), s.modifyContainer n fun c => { c with removed := true })
  | .containerLogs n, s =>
    match s.containers[n]? with
    | none => some (.error noContainer, s)
    | some c => some (.ok c.logs, s)

def perform (pid : Nat) (c : Cmd) (r : Reply) (s : World) : Option (Answer c) :=
  match r with
  | .done => performDone pid c s
  | .fails name message => some (.error (.failure name message), s)
  | .failsAfter n name message =>
    match c with
    | .writeBytes path bytes => some (.error (.failure name message),
        { s with files := Function.update s.files path (some (bytes.take n)) })
    | _ => none
  | .timeout =>
    match c with
    | .waitOrTimeout _ => some (.error .timeout, s)
    | _ => none

def compute (C : Config) (pid : Nat) : (o : Op) → World → sig.Val o × World
  | .ulid, s => (C.ulid.text s.drawnBy.length, { s with drawnBy := s.drawnBy ++ [pid] })
  | .now, s => (s.now, s)

/-- The machine that the two services run on. -/
def host (C : Config) : Host sig JsError World Reply where
  perform := perform
  compute := compute C

/-- A program of one of the services. -/
abbrev Program := Prog sig JsError

def ulid : Program JsString := Prog.op (A := sig) Op.ulid
def newDate : Program Nat := Prog.op (A := sig) Op.now
def await (c : Cmd) : Program (sig.Res c) := Prog.call (A := sig) c

end FullstackSvc.Execution
