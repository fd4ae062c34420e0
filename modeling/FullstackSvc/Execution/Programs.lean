import FullstackSvc.Execution.World

/-!
# The programs of code execution

`createExecutionJob` of `execution.service.ts`, `processJob` of
`execution.processor.ts`, what `getExecutionJob` of the controller makes of a
row and its log, and the poll of the client.  `services` puts the two services
together: requests arrive at any time, the worker takes entries of the queue,
also ones that were taken before, and it may die.
-/

namespace FullstackSvc.Execution

open Text Async

/-! ### `execution.service.ts` -/

/-- `s.substring(s.lastIndexOf('.'))`; without a dot all of `s`. -/
def fileExtension (originalname : JsString) : JsString :=
  if (46 : UInt16) ∈ originalname then
    46 :: (originalname.reverse.takeWhile (· ≠ 46)).reverse
  else originalname

/-- `fs.writeFile` opens the file, which empties it, and writes. -/
def writeFile (path : JsString) (bytes : Bytes) : Program Unit := do
  await (.openFile path)
  await (.writeBytes path bytes)

/-- `dataSource.transaction`: commit what `body` did, or roll back and throw on. -/
def transaction {α : Type} (body : Program α) : Program α :=
  tryCatch (do
    await .startTransaction
    let result ← body
    await .commitTransaction
    pure result)
  fun err => do
    tryCatch (await .rollbackTransaction) fun _ => pure ()
    throw err

section Service

variable (C : Config)

/-- The body of the transaction of `createExecutionJob`. -/
def insertNewJob (userId relativeFilePath : JsString) : Program ExecutionJob := do
  let jobId ← ulid
  let now ← newDate
  let newJob : ExecutionJob :=
    { id := jobId, userId := userId, filePath := relativeFilePath, createdAt := now,
      output := none, error := none, exitCode := none, completedAt := none }
  await (.insertJob newJob)
  let logId ← ulid
  await (.insertStatusLog { id := logId, jobId := jobId, status := .QUEUED, createdAt := now })
  pure newJob

def createExecutionJob (userId : JsString) (file : UploadedFile) : Program ExecutionJob := do
  let id ← ulid
  let fileName := id ++ fileExtension file.originalname
  await (.mkdir C.basePath)
  let fullPath := join C.basePath fileName
  writeFile fullPath file.buffer
  let newJob ← transaction (insertNewJob userId fileName)
  await (.addToQueue newJob.id)
  pure newJob

/-! ### `execution.processor.ts` -/

def createStatusLog (jobId : JsString) (status : ExecutionJobStatus) : Program Unit := do
  let id ← ulid
  let createdAt ← newDate
  await (.saveStatusLog { id := id, jobId := jobId, status := status, createdAt := createdAt })

/-- `error.message || String(error)`. -/
def errorText (error : JsError) : JsString :=
  if error.message = [] then error.toString else error.message

/-- The three updates of the row: an exit code, and output or an error. -/
def updateResult (jobId : JsString) (output error : Option JsString) (exitCode : Int) :
    Program Unit := do
  let completedAt ← newDate
  await (.updateJob jobId
    { output := output, error := error, exitCode := exitCode, completedAt := completedAt })

/-- `Promise.race` of `container.wait()` and the timer, with its handler. -/
def raceWithTimeout (jobId : JsString) (container : Nat) : Program Int :=
  tryCatch (await (.waitOrTimeout container)) fun timeoutError => do
    tryCatch (await (.killContainer container)) fun _ => pure ()
    tryCatch (await (.removeContainer container)) fun _ => pure ()
    updateResult jobId none (some (js "Execution timeout (30s)")) (-1)
    createStatusLog jobId .FINISHED_WITH_ERROR
    throw timeoutError

/-- The end of the `try` block: the result of the container, by its exit code. -/
def saveResult (jobId output : JsString) (exitCode : Int) : Program Unit := do
  if exitCode = 0 then
    updateResult jobId (some output) none exitCode
    createStatusLog jobId .FINISHED_WITH_SUCCESS
  else
    updateResult jobId none (some output) exitCode
    createStatusLog jobId .FINISHED_WITH_ERROR

/-- From the container on. -/
def runContainer (jobId : JsString) (executionJob : ExecutionJob) : Program Unit := do
  let container ← await (.createContainer (js "/code-files/" ++ executionJob.filePath))
  await (.startContainer container)
  let exitCode ← raceWithTimeout jobId container
  let logs ← await (.containerLogs container)
  let output := utf8Decode logs
  await (.removeContainer container)
  saveResult jobId output exitCode

/-- The `try` block of `processJob`. -/
def executeJob (jobId : JsString) : Program Unit := do
  let found ← await (.findJob jobId)
  match found with
  | none => throw (.jobNotFound jobId)
  | some executionJob => do
    createStatusLog jobId .READY
    let fullPath := join C.basePath executionJob.filePath
    await (.access fullPath)
    createStatusLog jobId .RUNNING
    runContainer jobId executionJob

def processJob (jobId : JsString) : Program Unit :=
  tryCatch (executeJob C jobId) fun error => do
    updateResult jobId none (some (errorText error)) (-1)
    createStatusLog jobId .FAILED
    throw error

/-! ### The controller and the client -/

/-- The filter of the upload: only `.dart`. -/
def fileFilter (originalname : JsString) : Bool := fileExtension originalname = js ".dart"

end Service

/-- The latest entry, in the stable order of `createdAt`; the database gives the
entries in any order. -/
def latestStatus (statuses : List ExecutionJobStatusLog) : Option ExecutionJobStatusLog :=
  (statuses.mergeSort fun a b => a.createdAt ≤ b.createdAt).getLast?

/-- What `getExecutionJob` reports; `none` stands for `UNKNOWN`. -/
def reportedStatus (statuses : List ExecutionJobStatusLog) : Option ExecutionJobStatus :=
  (latestStatus statuses).map ExecutionJobStatusLog.status

/-- `ExecutionJob.isTerminal` of the client. -/
def ExecutionJobStatus.isTerminal : ExecutionJobStatus → Bool
  | .FINISHED_WITH_SUCCESS => true
  | .FINISHED_WITH_ERROR => true
  | .FAILED => true
  | _ => false

def isTerminal (status : Option ExecutionJobStatus) : Bool :=
  status.any ExecutionJobStatus.isTerminal

/-- `pollUntilComplete` of the client, by the statuses that its requests are answered with:
the first terminal one within the attempts.  `Cli.pollUntilComplete` is the loop itself. -/
def pollUntilComplete (maxAttempts : Nat) (snapshots : List (Option ExecutionJobStatus)) :
    Option (Option ExecutionJobStatus) :=
  (snapshots.take maxAttempts).find? isTerminal

/-! ### The two services together -/

/-- What happens outside the two programs. -/
inductive Env
  | tick (milliseconds : Nat)
  | prints (container : Nat) (frame : LogFrame)
  | exits (container : Nat) (code : Int)

/-- A container that runs. -/
def Container.running (c : Container) : Bool := c.started && c.exited.isNone && !c.removed

def World.env : Env → World → Option World
  | .tick ms, s => some { s with now := s.now + ms }
  | .prints n frame, s =>
    match s.containers[n]? with
    | some c => if c.running then
        some (s.modifyContainer n fun c => { c with log := c.log ++ [frame] }) else none
    | none => none
  | .exits n code, s =>
    match s.containers[n]? with
    | some c => if c.running then
        some (s.modifyContainer n fun c => { c with exited := some code }) else none
    | none => none

/-- The record of a request. -/
def World.record (s : World) (c : Request) : World := { s with calls := s.calls ++ [c] }

/-- An upload passes the filter; an entry is taken from the queue, or again. -/
def World.accept (pid : Nat) : Request → World → Option World
  | .createExecutionJob userId file, s =>
    if fileFilter file.originalname then some (s.record (.createExecutionJob userId file))
    else none
  | .processJob jobId, s =>
    if jobId ∈ s.waiting then
      some { s.record (.processJob jobId) with
        waiting := s.waiting.erase jobId
        taken := (Function.update s.taken jobId (some pid)) }
    else if (s.taken jobId).isSome then
      some { s.record (.processJob jobId) with
        taken := (Function.update s.taken jobId (some pid)) }
    else none

@[reducible] def services (C : Config) : Service (host C) where
  Call := Request
  Ret
    | .createExecutionJob _ _ => ExecutionJob
    | .processJob _ => Unit
  body
    | .createExecutionJob userId file => createExecutionJob C userId file
    | .processJob jobId => processJob C jobId
  accept := World.accept
  Env := Env
  env := World.env
  mortal
    | .createExecutionJob _ _ => false
    | .processJob _ => true

/-- Both services, idle. -/
def start (C : Config) : (services C).Sys := ⟨World.initial, []⟩

end FullstackSvc.Execution
