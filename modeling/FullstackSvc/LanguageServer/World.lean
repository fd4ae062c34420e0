import Mathlib.Data.List.AList
import Mathlib.Logic.Function.Basic
import FullstackSvc.Async.Pool
import FullstackSvc.Lsp.ClientChannel
import FullstackSvc.Lsp.ContainerChannel
import FullstackSvc.Store.JsMap
import FullstackSvc.Text.Path

/-!
# What the language-server sessions work on

The records `lsp:session:<id>` in Redis, the volume of uploaded files, the
Docker containers, the map of the worker and the registry of the gateway, as
one state `World`, with the calls that `LanguageServerService`,
`LanguageServerManager` and `LanguageServerGateway` make on it.

Time is in milliseconds.  A record is there up to the millisecond in which it
expires, and `TTL` answers in seconds, rounded.  A record is written as JSON and
read back with `JSON.parse`; here it is the parsed value, for its keys are fixed
and its values are strings and lists of strings.  A date is its milliseconds.

An awaited call is refused where the state forbids it (`World.refuses`), and any
call may fail for a reason of its own (`Reply.fails`); then it has done nothing,
but a file that is being written may be left with a part of its bytes.  `KEYS`
gives the keys in any order.  A worker that has exited makes no more calls, and
after `quit` it has no connection to Redis.

What has happened is recorded beside the state: which requests came in and which
process drew which id, what a process last read, every call with its outcome,
who created and who stopped a container, and whether a process is inside
`startContainer` or `stopContainer`.  No program reads this.
-/

namespace FullstackSvc.LanguageServer

open Text Async FullstackSvc.Stream FullstackSvc.Lsp FullstackSvc.Store

/-! ### Sessions -/

/-- `SessionData`.  Docker's id of a container is its number. -/
structure SessionData where
  userId : JsString
  containerId : Option Nat
  containerName : Option JsString
  createdAt : Nat
  lastActivity : Option Nat
  uploadedFiles : Option (List JsString)
  workspaceRoot : Option JsString
  deriving DecidableEq

structure RedisEntry where
  value : SessionData
  expiresAt : Nat
  deriving DecidableEq

def sessionKey (sessionId : JsString) : JsString := js "lsp:session:" ++ sessionId

/-- `SESSION_TTL`, in seconds. -/
def sessionTtl : Nat := 600

/-- A container of which the server has ended by itself has `exited`. -/
inductive ContainerPhase
  | created
  | running
  | exited
  | stopped
  | removed
  deriving DecidableEq

/-- The container exists and nobody has stopped it. -/
def ContainerPhase.Standing (phase : ContainerPhase) : Prop :=
  phase = .created ∨ phase = .running ∨ phase = .exited

instance (phase : ContainerPhase) : Decidable phase.Standing :=
  inferInstanceAs (Decidable (_ ∨ _ ∨ _))

/-- A container; its record stays when it is removed.  `registered` says that its
creator has put it into the map of the worker, `stopper` who stopped it first. -/
structure Container where
  name : JsString
  phase : ContainerPhase
  creator : Nat
  stopper : Option Nat
  registered : Bool
  deriving DecidableEq

/-! ### The gateway -/

/-- A client that has been authenticated; it is known by its number. -/
structure Client where
  userId : JsString
  connected : Bool
  deriving DecidableEq

structure ClientSession where
  sessionId : JsString
  userId : JsString
  stream : Nat
  workspaceRoot : JsString
  deriving DecidableEq

inductive Phase
  | connecting
  | connected
  | closed
  deriving DecidableEq

/-- A socket to a container, with what its listeners close over: the client and
the constants of `handleLSPConnect`, and its `LspResponseBuffer`. -/
structure TcpSocket where
  client : Nat
  sessionId : JsString
  userId : JsString
  workspaceRoot : JsString
  container : Nat
  phase : Phase
  ended : Bool
  buffer : Bytes
  deriving DecidableEq

/-- What a client is sent, other than `lsp-message`. -/
inductive ServerMessage
  | lspConnected (sessionId : JsString)
  | lspError (error : JsString) (code : Nat)
  | lspDisconnected (reason : JsString)
  deriving DecidableEq

/-- One `lsp-message`: the frame it was made of, the socket that the frame came
from, and what the client had in the registry. -/
structure Delivery where
  client : Nat
  socket : Nat
  rawMessage : Bytes
  message : JsString
  currentSession : Option ClientSession
  deriving DecidableEq

/-- Bytes that a process wrote to a socket. -/
structure StreamWrite where
  pid : Nat
  stream : Nat
  bytes : Bytes
  deriving DecidableEq

/-! ### Errors, requests and calls -/

inductive JsError
  | failure (name message : JsString)
  | notFound (message : JsString)
  | forbidden (message : JsString)
  deriving DecidableEq

structure UploadedFile where
  originalname : JsString
  buffer : Bytes
  deriving DecidableEq

/-- A run of the cleanup goes around its loop at most `turns` times, and then
makes no more steps; a stop task is one call of `stopAllContainers`. -/
inductive Request
  | createSession (userId : JsString)
  | renewSession (sessionId userId : JsString)
  | uploadFile (sessionId userId : JsString) (file : UploadedFile)
  | handleLSPConnect (client : Nat) (sessionId : JsString)
  | handleLSPMessage (client : Nat) (message : JsString)
  | scanAndCreateContainers
  | cleanupExpiredSessions (turns : Nat)
  | onModuleDestroy
  | stopTask (containerId : Nat) (sessionId : JsString)
  deriving DecidableEq

/-- A call of the worker. -/
def Request.ofWorker : Request → Bool
  | .scanAndCreateContainers => true
  | .cleanupExpiredSessions _ => true
  | .onModuleDestroy => true
  | .stopTask _ _ => true
  | _ => false

inductive Cmd
  | redisGet (key : JsString)
  | redisSetex (key : JsString) (seconds : Nat) (value : SessionData)
  | redisExpire (key : JsString) (seconds : Nat)
  | redisTtl (key : JsString)
  | redisExists (key : JsString)
  | redisKeys (start : JsString)
  | redisQuit
  | mkdir (path : JsString)
  | openFile (path : JsString)
  | writeBytes (path : JsString) (bytes : Bytes)
  | rm (path : JsString)
  | createContainer (name : JsString)
  | startContainer (container : Nat)
  | stopContainer (container : Nat)
  | removeContainer (container : Nat)
  | inspect (container : Nat)
  | joinStops
  | never
  deriving DecidableEq

def Cmd.ofRedis : Cmd → Bool
  | .redisGet _ => true
  | .redisSetex _ _ _ => true
  | .redisExpire _ _ => true
  | .redisTtl _ => true
  | .redisExists _ => true
  | .redisKeys _ => true
  | .redisQuit => true
  | _ => false

/-- The part of the worker that a process is in. -/
inductive Section
  | start (sessionId : JsString)
  | stop (sessionId : JsString)
  deriving DecidableEq

inductive Op
  | ulid
  | now
  | userIdOf (client : Nat)
  | clientSession (client : Nat)
  | emit (client : Nat) (message : ServerMessage)
  | connect (client : Nat) (sessionId userId workspaceRoot : JsString) (container : Nat)
  | write (stream : Nat) (bytes : Bytes)
  | containerMapHas (sessionId : JsString)
  | containerMapSet (sessionId : JsString) (container : Nat)
  | containerMapDelete (sessionId : JsString)
  | containerMapNext (place : Nat)
  | containerMapClear
  | clearCleanupInterval
  | spawnStops
  | stopDone
  | enter (part : Section)
  | leave

/-- The calls and what they answer.  `inspect` answers which container the
address in the network `backend` belongs to. -/
@[reducible] def sig : Sig where
  Cmd := Cmd
  Res
    | .redisGet _ => Option SessionData
    | .redisTtl _ => Int
    | .redisExists _ => Bool
    | .redisKeys _ => List JsString
    | .createContainer _ => Nat
    | .inspect _ => Option Nat
    | _ => Unit
  Op := Op
  Val
    | .ulid => JsString
    | .now => Nat
    | .userIdOf _ => JsString
    | .clientSession _ => Option ClientSession
    | .containerMapHas _ => Bool
    | .containerMapNext _ => Option (Nat × JsString × Nat)
    | _ => Unit

/-! ### What is recorded -/

/-- How a call ended; `missed` when it found nothing, or nothing left. -/
inductive Outcome
  | done
  | missed
  | failed
  deriving DecidableEq

/-- One call: who made it, how it ended, when, and in which part of the worker. -/
structure LogEntry where
  pid : Nat
  cmd : Cmd
  outcome : Outcome
  time : Nat
  part : Option Section
  deriving DecidableEq

/-- When a process saw a record, and until when it was to be there. -/
structure Sighting where
  key : JsString
  time : Nat
  expiresAt : Nat
  deriving DecidableEq

/-! ### The state -/

structure World where
  now : Nat
  drawnBy : List Nat
  calls : List Request
  directories : JsString → Bool
  files : JsString → Option Bytes
  redis : AList fun _ : JsString => RedisEntry
  containers : List Container
  containerMap : JsMap JsString Nat
  /-- The worker runs. -/
  workerUp : Bool
  /-- The interval of the cleanup is set. -/
  cleanupInterval : Bool
  /-- The worker has closed its connection to Redis. -/
  workerQuit : Bool
  /-- The processes of the worker before this one have died with it. -/
  workerBirth : Nat
  /-- The calls of `stopContainer` that `stopAllContainers` has still to make. -/
  stopTasks : List (Nat × JsString)
  /-- How many of its calls have not returned. -/
  stopsOpen : Nat
  clients : List Client
  clientSessions : Nat → Option ClientSession
  sockets : List TcpSocket
  emitted : List (Nat × ServerMessage)
  delivered : List Delivery
  writes : List StreamWrite
  /-- What the last `GET` of a process found. -/
  lastGet : Nat → Option (JsString × SessionData)
  /-- The record that the last call of a process saw. -/
  sighted : Nat → Option Sighting
  log : List LogEntry
  inside : Nat → Option Section

/-- Nothing has happened yet. -/
def World.initial : World where
  now := 0
  drawnBy := []
  calls := []
  directories := fun _ => false
  files := fun _ => none
  redis := ∅
  containers := []
  containerMap := .empty
  workerUp := true
  cleanupInterval := true
  workerQuit := false
  workerBirth := 0
  stopTasks := []
  stopsOpen := 0
  clients := []
  clientSessions := fun _ => none
  sockets := []
  emitted := []
  delivered := []
  writes := []
  lastGet := fun _ => none
  sighted := fun _ => none
  log := []
  inside := fun _ => none

/-- The environment of the two services. -/
structure Config (N : Type) where
  ulid : UlidSource
  /-- The numbers of `JSON` here and in the client. -/
  numbers : NumText N
  /-- `TokenManager.verify`: the `userId` of a valid token. -/
  verify : JsString → Option JsString
  /-- `process.env.LSP_FILES_PATH`. -/
  lspFilesPath : Option JsString

/-- `process.env.LSP_FILES_PATH || '/lsp-files'`. -/
def Config.basePath {N : Type} (C : Config N) : JsString :=
  match C.lspFilesPath with
  | none => js "/lsp-files"
  | some path => if path = [] then js "/lsp-files" else path

/-- The default path, numerals for ids, and users for their own tokens, for runs
on concrete inputs. -/
def Config.plain : Config Int := ⟨decimalUlids, intText, some, none⟩

/-- The record of a key, while it has not expired. -/
def World.record? (s : World) (key : JsString) : Option RedisEntry :=
  (s.redis.lookup key).filter fun e => s.now ≤ e.expiresAt

/-- The keys with a prefix that have not expired. -/
def World.liveKeys (s : World) (start : JsString) : List JsString :=
  s.redis.keys.filter fun key => startsWith key start && (s.record? key).isSome

/-! ### What calls do -/

/-- What becomes of an awaited call. -/
inductive Reply
  | done
  | fails (name message : JsString)
  | failsAfter (bytes : Nat) (name message : JsString)
  | keys (found : List JsString)
  | unattached
  deriving DecidableEq

abbrev Answer (c : Cmd) := Except JsError (sig.Res c) × World

def invalidExpire : JsError := .failure (js "ReplyError") (js "ERR invalid expire time")

def noEntry : JsError := .failure (js "Error") (js "ENOENT: no such file or directory")

def nameConflict : JsError := .failure (js "Error") (js "Conflict. The container name is already in use")

def noContainer : JsError := .failure (js "Error") (js "No such container")

/-- Starting what runs, or stopping what does not. -/
def notModified : JsError := .failure (js "Error") (js "container already started or stopped")

def stillRunning : JsError := .failure (js "Error") (js "cannot remove a running container")

/-- What `TTL` answers of a record that it sees. -/
def Sighting.seconds (f : Sighting) : Nat := (f.expiresAt - f.time + 500) / 1000

def World.sight (s : World) (key : JsString) : Option Sighting :=
  (s.record? key).map fun e => ⟨key, s.now, e.expiresAt⟩

def World.ttl (s : World) (key : JsString) : Int :=
  match s.sight key with
  | none => -2
  | some f => f.seconds

/-- A container of this name exists. -/
def World.nameTaken (s : World) (name : JsString) : Bool :=
  s.containers.any fun k => decide (k.name = name ∧ k.phase ≠ .removed)

/-- The phase of a container that exists. -/
def World.phase? (s : World) (n : Nat) : Option ContainerPhase :=
  ((s.containers[n]?).map Container.phase).filter (· ≠ .removed)

/-- The directory of a path. -/
def dirname (path : JsString) : JsString :=
  ((path.reverse.dropWhile (· ≠ 47)).drop 1).reverse

/-- The error of a call that the state forbids. -/
def World.refuses (s : World) : Cmd → Option JsError
  | .redisSetex _ seconds _ => if seconds = 0 then some invalidExpire else none
  | .openFile path => if s.directories (dirname path) then none else some noEntry
  | .createContainer name => if s.nameTaken name then some nameConflict else none
  | .startContainer n =>
    match s.phase? n with
    | none => some noContainer
    | some phase => if phase = .running then some notModified else none
  | .stopContainer n =>
    match s.phase? n with
    | none => some noContainer
    | some phase => if phase = .running then none else some notModified
  | .removeContainer n =>
    match s.phase? n with
    | none => some noContainer
    | some phase => if phase = .running then some stillRunning else none
  | .inspect n =>
    match s.phase? n with
    | none => some noContainer
    | some _ => none
  | _ => none

/-- What a call answers, where the state alone decides. -/
def World.answer (s : World) : (c : Cmd) → Option (sig.Res c)
  | .redisGet key => some ((s.record? key).map RedisEntry.value)
  | .redisSetex _ _ _ => some ()
  | .redisExpire _ _ => some ()
  | .redisTtl key => some (s.ttl key)
  | .redisExists key => some (s.record? key).isSome
  | .redisKeys _ => none
  | .redisQuit => some ()
  | .mkdir _ => some ()
  | .openFile _ => some ()
  | .writeBytes _ _ => some ()
  | .rm _ => some ()
  | .createContainer _ => some s.containers.length
  | .startContainer _ => some ()
  | .stopContainer _ => some ()
  | .removeContainer _ => some ()
  | .inspect n => some (if s.phase? n = some .running then some n else none)
  | .joinStops => if s.stopsOpen = 0 then some () else none
  | .never => none

/-- A file that is open gets bytes; one that has been deleted is not seen again. -/
def World.writeBytes (s : World) (path : JsString) (bytes : Bytes) : World :=
  if (s.files path).isSome then { s with files := Function.update s.files path (some bytes) } else s

/-- `EXPIRE`: nothing happens to a key that is not there. -/
def World.expire (s : World) (key : JsString) (seconds : Nat) : World :=
  match s.record? key with
  | none => s
  | some e => { s with redis := s.redis.insert key ⟨e.value, s.now + 1000 * seconds⟩ }

/-- The path is the directory or below it. -/
def within (directory path : JsString) : Bool :=
  path = directory || startsWith path (directory ++ js "/")

def World.modifyContainer (s : World) (n : Nat) (f : Container → Container) : World :=
  { s with containers := s.containers.modify n f }

/-- The state after a call that is not refused. -/
def World.after (s : World) (pid : Nat) : Cmd → World
  | .redisGet key =>
    { s with lastGet := Function.update s.lastGet pid ((s.record? key).map fun e => (key, e.value)) }
  | .redisSetex key seconds value =>
    { s with redis := s.redis.insert key ⟨value, s.now + 1000 * seconds⟩ }
  | .redisExpire key seconds => s.expire key seconds
  | .redisQuit => { s with workerQuit := true }
  | .mkdir path => { s with directories := Function.update s.directories path true }
  | .openFile path => { s with files := Function.update s.files path (some []) }
  | .writeBytes path bytes => s.writeBytes path bytes
  | .rm path =>
    { s with
      directories := fun p => s.directories p && !within path p
      files := fun p => if within path p then none else s.files p }
  | .createContainer name =>
    { s with containers := s.containers ++ [⟨name, .created, pid, none, false⟩] }
  | .startContainer n => s.modifyContainer n fun k => { k with phase := .running }
  | .stopContainer n =>
    s.modifyContainer n fun k => { k with phase := .stopped, stopper := k.stopper <|> some pid }
  | .removeContainer n => s.modifyContainer n fun k => { k with phase := .removed }
  | _ => s

/-- The call ends in this way. -/
def performReply (pid : Nat) (c : Cmd) (r : Reply) (s : World) : Option (Answer c) :=
  match r with
  | .done =>
    match s.refuses c with
    | some e => some (.error e, s)
    | none => (s.answer c).map fun a => (.ok a, s.after pid c)
  | .fails name message =>
    if c = .never ∨ c = .joinStops then none else some (.error (.failure name message), s)
  | .failsAfter n name message =>
    match c with
    | .writeBytes path bytes =>
      some (.error (.failure name message), s.writeBytes path (bytes.take n))
    | _ => none
  | .keys found =>
    match c with
    | .redisKeys start => if found.Perm (s.liveKeys start) then some (.ok found, s) else none
    | _ => none
  | .unattached =>
    match c with
    | .inspect n => if (s.phase? n).isSome then some (.ok none, s) else none
    | _ => none

/-- The process is one of the worker's. -/
def World.ofWorker (s : World) (pid : Nat) : Bool := (s.calls[pid]?).any Request.ofWorker

/-- The process has died with the worker. -/
def World.dead (s : World) (pid : Nat) : Bool := s.ofWorker pid && decide (pid < s.workerBirth)

/-- The call does not end in this way. -/
def World.blocked (s : World) (pid : Nat) (c : Cmd) (r : Reply) : Bool :=
  s.dead pid || (s.ofWorker pid && s.workerQuit && c.ofRedis &&
    match r with
    | .fails _ _ => false
    | _ => true)

def outcome : (c : Cmd) → Except JsError (sig.Res c) → Outcome
  | _, .error _ => .failed
  | .redisGet _, .ok found => if found.isSome then .done else .missed
  | .redisTtl _, .ok ttl => if 0 < ttl then .done else .missed
  | .redisExists _, .ok found => if found then .done else .missed
  | _, .ok _ => .done

/-- The record that a call has seen. -/
def World.sees (s : World) : (c : Cmd) → Except JsError (sig.Res c) → Option Sighting
  | .redisGet key, .ok _ => s.sight key
  | .redisTtl key, .ok _ => s.sight key
  | _, _ => none

/-- With the record of a call. -/
def World.note (s : World) (pid : Nat) (c : Cmd) (x : Except JsError (sig.Res c)) : World :=
  { s with
    sighted := Function.update s.sighted pid (s.sees c x)
    log := s.log ++ [⟨pid, c, outcome c x, s.now, s.inside pid⟩] }

def perform (pid : Nat) (c : Cmd) (r : Reply) (s : World) : Option (Answer c) :=
  if s.blocked pid c r then none
  else (performReply pid c r s).map fun a => (a.1, a.2.note pid c a.1)

/-! ### What operations do -/

/-- `new net.Socket()` and `connect`. -/
def newSocket (client : Nat) (sessionId userId workspaceRoot : JsString) (container : Nat) :
    TcpSocket :=
  { client := client, sessionId := sessionId, userId := userId, workspaceRoot := workspaceRoot,
    container := container, phase := .connecting, ended := false, buffer := [] }

/-- `stream.write`: a socket that is closed or ended takes nothing more. -/
def World.write (s : World) (pid stream : Nat) (bytes : Bytes) : World :=
  match s.sockets[stream]? with
  | none => s
  | some t =>
    if t.phase = .connected ∧ t.ended = false then
      { s with writes := s.writes ++ [⟨pid, stream, bytes⟩] }
    else s

/-- `containerMap.set`. -/
def World.register (s : World) (pid : Nat) (sessionId : JsString) (n : Nat) : World :=
  { s with
    containers := s.containers.modify n fun k =>
      { k with registered := k.registered || decide (k.creator = pid) }
    containerMap := s.containerMap.set sessionId n }

def compute {N : Type} (C : Config N) (pid : Nat) : (o : Op) → World → sig.Val o × World
  | .ulid, s => (C.ulid.text s.drawnBy.length, { s with drawnBy := s.drawnBy ++ [pid] })
  | .now, s => (s.now, s)
  | .userIdOf client, s => (((s.clients[client]?).map Client.userId).getD [], s)
  | .clientSession client, s => (s.clientSessions client, s)
  | .emit client message, s => ((), { s with emitted := s.emitted ++ [(client, message)] })
  | .connect client sessionId userId workspaceRoot container, s =>
    ((), { s with
      sockets := s.sockets ++ [newSocket client sessionId userId workspaceRoot container] })
  | .write stream bytes, s => ((), s.write pid stream bytes)
  | .containerMapHas sessionId, s => ((s.containerMap.get sessionId).isSome, s)
  | .containerMapSet sessionId n, s => ((), s.register pid sessionId n)
  | .containerMapDelete sessionId, s =>
    ((), { s with containerMap := s.containerMap.delete sessionId })
  | .containerMapNext place, s => (s.containerMap.next place, s)
  | .containerMapClear, s => ((), { s with containerMap := s.containerMap.clear })
  | .clearCleanupInterval, s => ((), { s with cleanupInterval := false })
  | .spawnStops, s =>
    ((), { s with
      stopTasks := s.stopTasks ++ s.containerMap.slots.reduceOption.map Prod.swap
      stopsOpen := s.stopsOpen + s.containerMap.slots.reduceOption.length })
  | .stopDone, s => ((), { s with stopsOpen := s.stopsOpen - 1 })
  | .enter part, s => ((), { s with inside := Function.update s.inside pid (some part) })
  | .leave, s => ((), { s with inside := Function.update s.inside pid none })

/-- The machine that the services run on. -/
def host {N : Type} (C : Config N) : Host sig JsError World Reply where
  perform := perform
  compute := compute C

/-- A program of one of the services. -/
abbrev Program := Prog sig JsError

def ulid : Program JsString := Prog.op (A := sig) Op.ulid
def newDate : Program Nat := Prog.op (A := sig) Op.now
def sync (o : Op) : Program (sig.Val o) := Prog.op (A := sig) o
def await (c : Cmd) : Program (sig.Res c) := Prog.call (A := sig) c

end FullstackSvc.LanguageServer
