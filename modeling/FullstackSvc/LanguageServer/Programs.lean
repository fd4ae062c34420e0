import FullstackSvc.Execution.Programs
import FullstackSvc.LanguageServer.World

/-!
# The programs of the language-server sessions

`language-server.service.ts`, `language-server-manager.ts` and the two handlers
of `language-server.gateway.ts`.  `services` puts them together with what comes
from outside: the clock, the worker that exits and starts anew, containers that
exit by themselves, clients that connect and disconnect, and the events of the
sockets, whose listeners are synchronous.

The timers of the worker fire at any time (they do not wait for the run before),
and each call that `stopAllContainers` makes is a process of its own.
-/

namespace FullstackSvc.LanguageServer

open Text Async FullstackSvc.Stream FullstackSvc.Lsp

/-- `a || b`. -/
def orElse (a : Option JsString) (b : JsString) : JsString :=
  match a with
  | none => b
  | some s => if s = [] then b else s

/-- `fs.writeFile` opens the file, which empties it, and writes. -/
def writeFile (path : JsString) (bytes : Bytes) : Program Unit := do
  await (.openFile path)
  await (.writeBytes path bytes)

/-! ### `language-server.service.ts` -/

/-- `await this.redis.get(...)` and `JSON.parse`. -/
def getSession (sessionId : JsString) : Program (Option SessionData) :=
  await (.redisGet (sessionKey sessionId))

def createSession (userId : JsString) : Program JsString := do
  let sessionId ← ulid
  let createdAt ← newDate
  let sessionData : SessionData :=
    { userId := userId, containerId := none, containerName := none, createdAt := createdAt,
      lastActivity := none, uploadedFiles := none,
      workspaceRoot := some (sessionRoot sessionId) }
  await (.redisSetex (sessionKey sessionId) sessionTtl sessionData)
  pure sessionId

def sessionNotFound : JsError := .notFound (js "Session not found")

def foreignSession : JsError := .forbidden (js "Session does not belong to user")

def renewSession (sessionId userId : JsString) : Program Unit := do
  let data ← await (.redisGet (sessionKey sessionId))
  match data with
  | none => throw sessionNotFound
  | some sessionData =>
    if sessionData.userId ≠ userId then throw foreignSession
    else await (.redisExpire (sessionKey sessionId) sessionTtl)

def validateSessionOwnership (sessionId userId : JsString) : Program Bool := do
  let sessionData ← getSession sessionId
  pure (decide (sessionData.map SessionData.userId = some userId))

def updateLastActivity (sessionId : JsString) : Program Unit := do
  let data ← await (.redisGet (sessionKey sessionId))
  match data with
  | none => pure ()
  | some sessionData => do
    let lastActivity ← newDate
    await (.redisSetex (sessionKey sessionId) sessionTtl
      { sessionData with lastActivity := some lastActivity })

/-- A unit in `[a-zA-Z0-9._-]`. -/
def isNameUnit (u : UInt16) : Bool :=
  (97 ≤ u && u ≤ 122) || (65 ≤ u && u ≤ 90) || (48 ≤ u && u ≤ 57) || u == 46 || u == 95 || u == 45

/-- `originalname.replace(/[^a-zA-Z0-9._-]/g, '_')`. -/
def sanitizedName (originalname : JsString) : JsString :=
  originalname.map fun u => if isNameUnit u then u else 95

/-- The files of a session with one more. -/
def trackFile (uploadedFiles : Option (List JsString)) (name : JsString) : List JsString :=
  if name ∈ uploadedFiles.getD [] then uploadedFiles.getD [] else uploadedFiles.getD [] ++ [name]

structure UploadResult where
  filePath : JsString
  originalName : JsString
  deriving DecidableEq

/-- Write a record back for the time that it has left. -/
def writeBack (sessionId : JsString) (sessionData : SessionData) : Program Unit := do
  let ttl ← await (.redisTtl (sessionKey sessionId))
  if ttl > 0 then await (.redisSetex (sessionKey sessionId) ttl.toNat sessionData) else pure ()

section Services

variable {N : Type} (C : Config N)

def uploadFile (sessionId userId : JsString) (file : UploadedFile) : Program UploadResult := do
  let found ← getSession sessionId
  match found with
  | none => throw sessionNotFound
  | some sessionData =>
    if sessionData.userId ≠ userId then throw foreignSession
    else do
      let sessionDir := join C.basePath sessionId
      await (.mkdir sessionDir)
      let fullPath := join sessionDir (sanitizedName file.originalname)
      writeFile fullPath file.buffer
      writeBack sessionId { sessionData with
        uploadedFiles := some (trackFile sessionData.uploadedFiles (sanitizedName file.originalname)) }
      pure ⟨js "/workspace/" ++ sanitizedName file.originalname, file.originalname⟩

/-! ### `language-server-manager.ts` -/

def containerNameOf (sessionId : JsString) : JsString := js "lsp-" ++ sessionId

/-- The body of `startContainer`. -/
def createAndRegister (sessionId : JsString) : Program Unit := do
  await (.mkdir (join C.basePath sessionId))
  let containerId ← await (.createContainer (containerNameOf sessionId))
  await (.startContainer containerId)
  sync (.containerMapSet sessionId containerId)
  let data ← await (.redisGet (sessionKey sessionId))
  match data with
  | none => pure ()
  | some sessionData =>
    writeBack sessionId { sessionData with
      containerId := some containerId
      containerName := some (containerNameOf sessionId)
      workspaceRoot := some (sessionRoot sessionId) }

/-- The second argument of the source, the user, is not read. -/
def startContainer (sessionId : JsString) : Program Unit := do
  sync (.enter (.start sessionId))
  tryCatch (createAndRegister C sessionId) fun e => do
    sync .leave
    throw e
  sync .leave

/-- The body of the loop of `scanAndCreateContainers`. -/
def scanKey (key : JsString) : Program Unit := do
  let sessionId := replace key (js "lsp:session:") []
  let known ← sync (.containerMapHas sessionId)
  if known then pure ()
  else do
    let data ← await (.redisGet key)
    match data with
    | none => pure ()
    | some sessionData =>
      tryCatch (match sessionData.containerId with
        | none => startContainer C sessionId
        | some containerId => sync (.containerMapSet sessionId containerId)) fun _ => pure ()

def scanKeys : List JsString → Program Unit
  | [] => pure ()
  | key :: keys => do
    scanKey C key
    scanKeys keys

def scanAndCreateContainers : Program Unit := do
  let keys ← await (.redisKeys (js "lsp:session:"))
  scanKeys C keys

/-- The body of the outer `try` of `stopContainer`. -/
def stopAndRemove (containerId : Nat) (sessionId : JsString) : Program Unit := do
  await (.stopContainer containerId)
  await (.removeContainer containerId)
  tryCatch (await (.rm (join C.basePath sessionId))) fun _ => pure ()

def stopContainer (containerId : Nat) (sessionId : JsString) : Program Unit := do
  sync (.enter (.stop sessionId))
  tryCatch (stopAndRemove C containerId sessionId) fun _ => pure ()
  sync .leave

def deleteEntries : List JsString → Program Unit
  | [] => pure ()
  | sessionId :: sessionIds => do
    sync (.containerMapDelete sessionId)
    deleteEntries sessionIds

/-- The loop of `cleanupExpiredSessions` from a place of the iterator on, with
`sessionsToClean`, and what follows it. -/
def cleanupFrom (place : Nat) (sessionsToClean : List JsString) : Nat → Program Unit
  | 0 => await .never
  | turns + 1 => do
    let entry ← sync (.containerMapNext place)
    match entry with
    | none => deleteEntries sessionsToClean
    | some (place, sessionId, containerId) => do
      let found ← await (.redisExists (sessionKey sessionId))
      if found then cleanupFrom place sessionsToClean turns
      else do
        stopContainer C containerId sessionId
        cleanupFrom place (sessionsToClean ++ [sessionId]) turns

def cleanupExpiredSessions (turns : Nat) : Program Unit := cleanupFrom C 0 [] turns

/-- A call of `stopAllContainers`; `Promise.all` waits for all of them. -/
def stopTask (containerId : Nat) (sessionId : JsString) : Program Unit := do
  stopContainer C containerId sessionId
  sync .stopDone

def stopAllContainers : Program Unit := do
  sync .spawnStops
  await .joinStops
  sync .containerMapClear

def onModuleDestroy : Program Unit := do
  sync .clearCleanupInterval
  stopAllContainers
  await .redisQuit

/-! ### `language-server.gateway.ts` -/

def emitError (client : Nat) (error : JsString) (code : Nat) : Program Unit :=
  sync (.emit client (.lspError error code))

/-- From the container on: the address, the socket with its listeners, and the
last `await`. -/
def connectToContainer (client : Nat) (sessionId userId workspaceRoot : JsString)
    (containerId : Nat) : Program Unit := do
  let address ← await (.inspect containerId)
  match address with
  | none => emitError client (js "Container network not ready") 404
  | some container => do
    sync (.connect client sessionId userId workspaceRoot container)
    updateLastActivity sessionId

def handleLSPConnect (client : Nat) (sessionId : JsString) : Program Unit :=
  tryCatch (do
    let userId ← sync (.userIdOf client)
    let isOwner ← validateSessionOwnership sessionId userId
    if isOwner = false then
      emitError client (js "Session not found or access denied") 403
    else do
      let session ← getSession sessionId
      match session with
      | none => emitError client (js "Container not ready") 404
      | some session =>
        match session.containerId with
        | none => emitError client (js "Container not ready") 404
        | some containerId =>
          if orElse session.containerName [] = [] then
            emitError client (js "Container not ready") 404
          else
            connectToContainer client sessionId userId
              (orElse session.workspaceRoot (sessionRoot sessionId)) containerId)
    fun _ => emitError client (js "Failed to connect") 500

def handleLSPMessage (client : Nat) (message : JsString) : Program Unit :=
  tryCatch (do
    let session ← sync (.clientSession client)
    match session with
    | none => emitError client (js "Not connected") 400
    | some session => do
      let transformedMessage := transformMessage C.numbers message session.workspaceRoot
      sync (.write session.stream (utf8Encode transformedMessage))
      updateLastActivity session.sessionId)
    fun _ => emitError client (js "Failed to send message") 500

/-! ### Clients and sockets -/

/-- What happens outside the programs. -/
inductive Env
  | tick (milliseconds : Nat)
  | workerExit
  | workerInit
  | containerExits (container : Nat)
  | handleConnection (authToken authorization : Option JsString)
  | handleDisconnect (client : Nat)
  | tcpConnected (socket : Nat)
  | tcpData (socket : Nat) (chunk : Bytes)
  | tcpError (socket : Nat)
  | tcpClose (socket : Nat)
  deriving DecidableEq

/-- A client whose token is not valid is disconnected at once and leaves no
trace. -/
def World.handleConnection (s : World) (authToken authorization : Option JsString) : World :=
  match authToken <|> authorization with
  | none => s
  | some token =>
    if token = [] then s
    else
      match C.verify (replace token (js "Bearer ") []) with
      | none => s
      | some userId => { s with clients := s.clients ++ [⟨userId, true⟩] }

/-- `client.emit`. -/
def World.emit (s : World) (client : Nat) (message : ServerMessage) : World :=
  { s with emitted := s.emitted ++ [(client, message)] }

def World.modifySocket (s : World) (n : Nat) (f : TcpSocket → TcpSocket) : World :=
  { s with sockets := s.sockets.modify n f }

def World.setClientSession (s : World) (client : Nat) (entry : Option ClientSession) : World :=
  { s with clientSessions := Function.update s.clientSessions client entry }

/-- The client is connected. -/
def World.online (s : World) (client : Nat) : Bool := (s.clients[client]?).any Client.connected

def World.handleDisconnect (s : World) (client : Nat) : World :=
  let s' := { s with clients := s.clients.modify client fun c => { c with connected := false } }
  match s.clientSessions client with
  | none => s'
  | some session =>
    (s'.modifySocket session.stream fun t => { t with ended := true }).setClientSession client none

/-- The entry that the callback of `connect` makes. -/
def TcpSocket.entry (t : TcpSocket) (n : Nat) : ClientSession :=
  { sessionId := t.sessionId, userId := t.userId, stream := n, workspaceRoot := t.workspaceRoot }

/-- The listener of `'message'`. -/
def delivery (t : TcpSocket) (n : Nat) (currentSession : Option ClientSession)
    (rawMessage : Bytes) : Delivery :=
  { client := t.client, socket := n, rawMessage := rawMessage,
    message := lspMessage C.numbers (currentSession.map ClientSession.workspaceRoot) rawMessage,
    currentSession := currentSession }

/-- The listener of `'data'`.  A client that is gone is sent nothing.  When
`onData` throws, the process is over; the runs here go on. -/
def World.receive (s : World) (n : Nat) (t : TcpSocket) (chunk : Bytes) : World :=
  let fed := responseCutter.drain (t.buffer ++ chunk)
  let s' := s.modifySocket n fun t => { t with buffer := fed.buffer }
  if s.online t.client then
    { s' with delivered := s.delivered ++
        fed.emitted.map (delivery C t n (s.clientSessions t.client)) }
  else s'

/-- The process of the worker ends. -/
def World.workerExit (s : World) : World :=
  { s with
    containerMap := .empty
    workerUp := false
    cleanupInterval := false
    workerQuit := false
    workerBirth := s.calls.length
    stopTasks := []
    stopsOpen := 0 }

/-- The server in the container ends, and with it the container. -/
def World.containerExits (s : World) (n : Nat) : World :=
  s.modifyContainer n fun k => { k with phase := .exited }

/-- `onModuleInit` of a new process. -/
def World.workerInit (s : World) : World := { s with workerUp := true, cleanupInterval := true }

def World.env : Env → World → Option World
  | .tick ms, s => some { s with now := s.now + ms }
  | .workerExit, s => if s.workerUp then some s.workerExit else none
  | .workerInit, s => if s.workerUp then none else some s.workerInit
  | .containerExits n, s => if s.phase? n = some .running then some (s.containerExits n) else none
  | .handleConnection authToken authorization, s =>
    some (s.handleConnection C authToken authorization)
  | .handleDisconnect client, s =>
    if s.online client then some (s.handleDisconnect client) else none
  | .tcpConnected n, s =>
    match s.sockets[n]? with
    | none => none
    | some t =>
      if t.phase = .connecting then
        some (((s.modifySocket n fun t => { t with phase := .connected }).setClientSession t.client
          (some (t.entry n))).emit t.client (.lspConnected t.sessionId))
      else none
  | .tcpData n chunk, s =>
    match s.sockets[n]? with
    | none => none
    | some t => if t.phase = .connected then some (s.receive C n t chunk) else none
  | .tcpError n, s =>
    match s.sockets[n]? with
    | none => none
    | some t =>
      if t.phase = .closed then none
      else some (s.emit t.client (.lspError (js "Connection error") 500))
  | .tcpClose n, s =>
    match s.sockets[n]? with
    | none => none
    | some t =>
      if t.phase = .closed then none
      else
        some (((s.modifySocket n fun t => { t with phase := .closed }).setClientSession t.client
          none).emit t.client (.lspDisconnected (js "Connection closed")))

/-- The record of a request. -/
def World.record (s : World) (c : Request) : World := { s with calls := s.calls ++ [c] }

/-- An upload passes the filter of the controller, which is the one of the
execution of code; a message comes from a client that is connected; the interval
of the cleanup is cleared when the worker shuts down, that of the scan is not. -/
def World.admits (s : World) : Request → Bool
  | .createSession _ => true
  | .renewSession _ _ => true
  | .uploadFile _ _ file => Execution.fileFilter file.originalname
  | .handleLSPConnect client _ => s.online client
  | .handleLSPMessage client _ => s.online client
  | .scanAndCreateContainers => s.workerUp
  | .cleanupExpiredSessions _ => s.cleanupInterval
  | .onModuleDestroy => s.cleanupInterval
  | .stopTask containerId sessionId => decide ((containerId, sessionId) ∈ s.stopTasks)

def World.taskTaken (s : World) : Request → World
  | .stopTask containerId sessionId =>
    { s with stopTasks := s.stopTasks.erase (containerId, sessionId) }
  | _ => s

def World.accept (_pid : Nat) (c : Request) (s : World) : Option World :=
  if s.admits c then some ((s.taskTaken c).record c) else none

@[reducible] def services : Service (host C) where
  Call := Request
  Ret
    | .createSession _ => JsString
    | .uploadFile _ _ _ => UploadResult
    | _ => Unit
  body
    | .createSession userId => createSession userId
    | .renewSession sessionId userId => renewSession sessionId userId
    | .uploadFile sessionId userId file => uploadFile C sessionId userId file
    | .handleLSPConnect client sessionId => handleLSPConnect client sessionId
    | .handleLSPMessage client message => handleLSPMessage C client message
    | .scanAndCreateContainers => scanAndCreateContainers C
    | .cleanupExpiredSessions turns => cleanupExpiredSessions C turns
    | .onModuleDestroy => onModuleDestroy
    | .stopTask containerId sessionId => stopTask C containerId sessionId
  accept := World.accept
  Env := Env
  env := World.env C
  mortal _ := false

/-- Both services, idle. -/
def start : (services C).Sys := ⟨World.initial, []⟩

end Services

end FullstackSvc.LanguageServer
